import ArrayLift.Proofs.Format.Trees

/-! Different trees are different data. -/
namespace ArrayLift

theorem Datum.ofNat_inj {one other : Nat} : ofNat one = ofNat other ↔ one = other := by
  simp [ofNat, Int.natCast_inj]

theorem Datum.atLine_inj {line line' : SourceLine} {kind kind' : Datum} :
    atLine line kind = atLine line' kind' ↔ line = line' ∧ kind = kind' := by
  simp [atLine, ofNat_inj, UInt32.toNat_inj, and_comm]

theorem Datum.id_inj {one other : Option IdentId} :
    ofOption (one.map ofNat) = ofOption (other.map ofNat) ↔ one = other := by
  cases one <;> cases other <;> simp [ofOption, ofNat_inj] <;> simp [ofNat]

theorem Role.datum_inj {one other : Role} : one.datum = other.datum ↔ one = other := by
  cases one <;> cases other <;> simp [Role.datum]

theorem Number.datum_inj {one other : Number} : one.datum = other.datum ↔ one = other := by
  cases one <;> cases other <;> simp [Number.datum, Int64.toInt_inj]

theorem Literal.datum_inj {one other : Literal} : one.datum = other.datum ↔ one = other := by
  cases one <;> cases other <;> simp [Literal.datum, Number.datum_inj]

theorem IndexForm.datum_inj {one other : IndexForm} {target target' arguments arguments' : Datum} :
    one.datum target arguments = other.datum target' arguments' ↔
      one = other ∧ target = target' ∧ arguments = arguments' := by
  cases one <;> cases other <;> simp [IndexForm.datum, Datum.ofNat_inj, and_comm, and_left_comm]

theorem Brackets.datum_inj {one other : Brackets} {rows rows' : Datum} :
    one.datum rows = other.datum rows' ↔ one = other ∧ rows = rows' := by
  cases one <;> cases other <;> simp [Brackets.datum]

theorem Word.datum_inj {one other : Word} : one.datum = other.datum ↔ one = other := by
  cases one <;> cases other <;> simp [Word.datum]

theorem Declaration.datum_inj {one other : Declaration} {names names' : Datum} :
    one.datum names = other.datum names' ↔ one = other ∧ names = names' := by
  cases one <;> cases other <;> simp [Declaration.datum]

theorem Ident.datum_ne_absent (ident : Ident) : ident.datum ≠ .absent := by
  unfold Ident.datum
  split <;> exact Datum.noConfusion

namespace Expr

theorem datum_ne_absent (expr : Expr) : expr.datum ≠ .absent := by
  unfold datum
  split <;> exact Datum.noConfusion

/-- A number for the form of an expression. -/
def rank : Expr → Nat
  | .ident .. => 0
  | .literal .. => 1
  | .operation .. => 2
  | .field .. => 3
  | .dynamicField .. => 4
  | .index .. => 5
  | .rows .. => 6
  | .lambda .. => 7

/-- The form of an expression as its datum shows it. -/
def rankOf : Datum → Nat
  | .record [.choice "ident" _, _] => 0
  | .record [.choice "op" _, _] => 2
  | .record [.choice "field" (.record [_, .choice "name" _]), _] => 3
  | .record [.choice "field" _, _] => 4
  | .record [.choice "lambda" _, _] => 7
  | .record [.choice _ (.record _), _] => 5
  | .record [.choice _ (.list _), _] => 6
  | _ => 1

theorem rankOf_datum (expr : Expr) : rankOf expr.datum = expr.rank := by
  cases expr with
  | literal line value => rcases value with (_ | _) | _ | _ <;> rfl
  | operation line spelling operands result => cases result <;> rfl
  | index line form target arguments => cases form <;> rfl
  | rows line brackets rows => cases brackets <;> rfl
  | _ => rfl

theorem rank_eq {one other : Expr} (same : one.datum = other.datum) : one.rank = other.rank := by
  rw [← rankOf_datum, same, rankOf_datum]

end Expr

mutual
theorem Ident.datum_inj : ∀ {one other : Ident}, one.datum = other.datum → one = other
  | .mk _ none _ _ _, .mk _ none _ _ _, same => by
    simp only [Ident.datum, Ident.datumWith] at same
    simp_all [Role.datum_inj, Datum.id_inj]
  | .mk _ (some init) _ _ _, .mk _ (some init') _ _ _, same => by
    simp only [Ident.datum, Ident.datumWith] at same
    have := @Expr.datum_inj init init'
    simp_all [Role.datum_inj, Datum.id_inj]
  | .mk _ none _ _ _, .mk _ (some init) _ _ _, same => by
    simp only [Ident.datum, Ident.datumWith] at same
    have := Expr.datum_ne_absent init
    simp_all
  | .mk _ (some init) _ _ _, .mk _ none _ _ _, same => by
    simp only [Ident.datum, Ident.datumWith] at same
    have := Expr.datum_ne_absent init
    simp_all

theorem Expr.datum_inj : ∀ {one other : Expr}, one.datum = other.datum → one = other
  | .ident _ ident, other, same => by
    have ranks := Expr.rank_eq same
    cases other <;> try cases ranks
    rename_i other
    simp only [Expr.datum, Datum.atLine_inj] at same
    have := @Ident.datum_inj ident other
    simp_all
  | .literal _ value, other, same => by
    have ranks := Expr.rank_eq same
    cases other <;> try cases ranks
    simpa only [Expr.datum, Datum.atLine_inj, Literal.datum_inj, Expr.literal.injEq] using same
  | .operation _ _ operands none, other, same => by
    have ranks := Expr.rank_eq same
    cases other <;> try cases ranks
    rename_i operands' result
    have := @Expr.dataList_inj operands operands'
    cases result with
    | none =>
      simp only [Expr.datum, Datum.atLine_inj] at same
      simp_all
    | some result =>
      simp only [Expr.datum, Datum.atLine_inj] at same
      have := Ident.datum_ne_absent result
      simp_all
  | .operation _ _ operands (some result), other, same => by
    have ranks := Expr.rank_eq same
    cases other <;> try cases ranks
    rename_i operands' result'
    have := @Expr.dataList_inj operands operands'
    cases result' with
    | none =>
      simp only [Expr.datum, Datum.atLine_inj] at same
      have := Ident.datum_ne_absent result
      simp_all
    | some result' =>
      simp only [Expr.datum, Datum.atLine_inj] at same
      have := @Ident.datum_inj result result'
      simp_all
  | .field _ base name, other, same => by
    have ranks := Expr.rank_eq same
    cases other <;> try cases ranks
    rename_i base' _
    simp only [Expr.datum, Datum.atLine_inj] at same
    have := @Expr.datum_inj base base'
    simp_all
  | .dynamicField _ base selector, other, same => by
    have ranks := Expr.rank_eq same
    cases other <;> try cases ranks
    rename_i base' selector'
    simp only [Expr.datum, Datum.atLine_inj] at same
    have := @Expr.datum_inj base base'
    have := @Expr.datum_inj selector selector'
    simp_all
  | .index _ _ target arguments, other, same => by
    have ranks := Expr.rank_eq same
    cases other <;> try cases ranks
    rename_i target' arguments'
    simp only [Expr.datum, Datum.atLine_inj, IndexForm.datum_inj] at same
    have := @Expr.datum_inj target target'
    have := @Expr.dataList_inj arguments arguments'
    simp_all
  | .rows _ _ rows, other, same => by
    have ranks := Expr.rank_eq same
    cases other <;> try cases ranks
    rename_i rows'
    simp only [Expr.datum, Datum.atLine_inj, Brackets.datum_inj] at same
    have := @Expr.dataRows_inj rows rows'
    simp_all
  | .lambda _ params body, other, same => by
    have ranks := Expr.rank_eq same
    cases other <;> try cases ranks
    rename_i params' body'
    simp only [Expr.datum, Datum.atLine_inj] at same
    have := @Ident.dataList_inj params params'
    have := @Expr.datum_inj body body'
    simp_all

theorem Expr.dataList_inj : ∀ {one other : List Expr}, Expr.dataList one = Expr.dataList other → one = other
  | [], [], _ => rfl
  | expr :: rest, expr' :: rest', same => by
    obtain ⟨first, later⟩ := List.cons.inj same
    rw [Expr.datum_inj first, Expr.dataList_inj later]

theorem Expr.dataRows_inj : ∀ {one other : List (List Expr)}, Expr.dataRows one = Expr.dataRows other → one = other
  | [], [], _ => rfl
  | row :: rest, row' :: rest', same => by
    obtain ⟨first, later⟩ := List.cons.inj same
    rw [Expr.dataList_inj (Datum.list.inj first), Expr.dataRows_inj later]

theorem Ident.dataList_inj : ∀ {one other : List Ident}, Ident.dataList one = Ident.dataList other → one = other
  | [], [], _ => rfl
  | ident :: rest, ident' :: rest', same => by
    obtain ⟨first, later⟩ := List.cons.inj same
    rw [Ident.datum_inj first, Ident.dataList_inj later]
end

/-- Options of things whose data are distinct, and never absent, are distinct. -/
theorem Datum.option_inj {α : Type} {datum : α → Datum}
    (distinct : ∀ {one other}, datum one = datum other → one = other)
    (present : ∀ value, datum value ≠ .absent) {one other : Option α}
    (same : ofOption (one.map datum) = ofOption (other.map datum)) : one = other := by
  match one, other with
  | none, none => rfl
  | some one, some other => exact congrArg some (distinct same)
  | none, some other => exact absurd same.symm (present other)
  | some one, none => exact absurd same (present one)

namespace Stmt

/-- A number for the form of a statement. -/
def rank : Stmt → Nat
  | .expression .. => 0
  | .assign .. => 1
  | .branch .. => 2
  | .forEach .. => 3
  | .whileLoop .. => 4
  | .attempt .. => 5
  | .function .. => 6
  | .declare .. => 7
  | .return .. => 8
  | .word .. => 9
  | .comment .. => 10

/-- The form of a statement as its datum shows it. -/
def rankOf : Datum → Nat
  | .record [.choice "expr" _, _] => 0
  | .record [.choice "let" _, _] => 1
  | .record [.choice "if" _, _] => 2
  | .record [.choice "for" _, _] => 3
  | .record [.choice "while" _, _] => 4
  | .record [.choice "try" _, _] => 5
  | .record [.choice "function" _, _] => 6
  | .record [.choice "return" _, _] => 8
  | .record [.choice _ (.list _), _] => 7
  | .record [.choice "comment" _, _] => 10
  | _ => 9

theorem rankOf_datum (statement : Stmt) : rankOf statement.datum = statement.rank := by
  cases statement with
  | branch line condition thenBody elseBody => cases elseBody <;> rfl
  | attempt line body handler finallyBody => cases finallyBody <;> rfl
  | declare line declaration names => cases declaration <;> rfl
  | word line word => cases word <;> rfl
  | _ => rfl

theorem rank_eq {one other : Stmt} (same : one.datum = other.datum) : one.rank = other.rank := by
  rw [← rankOf_datum, same, rankOf_datum]

end Stmt

mutual
theorem Stmt.datum_inj : ∀ {one other : Stmt}, one.datum = other.datum → one = other
  | .expression _ value, other, same => by
    have ranks := Stmt.rank_eq same
    cases other <;> try cases ranks
    rename_i value'
    simp only [Stmt.datum, Datum.atLine_inj] at same
    have := @Expr.datum_inj value value'
    simp_all
  | .assign _ targets value, other, same => by
    have ranks := Stmt.rank_eq same
    cases other <;> try cases ranks
    rename_i targets' value'
    simp only [Stmt.datum, Datum.atLine_inj] at same
    have := @Expr.dataList_inj targets targets'
    have := @Expr.datum_inj value value'
    simp_all
  | .branch _ condition thenBody none, other, same => by
    have ranks := Stmt.rank_eq same
    cases other <;> try cases ranks
    rename_i condition' thenBody' elseBody'
    have := @Expr.datum_inj condition condition'
    have := @Stmt.dataList_inj thenBody thenBody'
    cases elseBody' <;> simp only [Stmt.datum, Datum.atLine_inj] at same <;> simp_all
  | .branch _ condition thenBody (some elseBody), other, same => by
    have ranks := Stmt.rank_eq same
    cases other <;> try cases ranks
    rename_i condition' thenBody' elseBody'
    have := @Expr.datum_inj condition condition'
    have := @Stmt.dataList_inj thenBody thenBody'
    cases elseBody' with
    | none =>
      simp only [Stmt.datum, Datum.atLine_inj] at same
      simp_all
    | some elseBody' =>
      simp only [Stmt.datum, Datum.atLine_inj] at same
      have := @Stmt.dataList_inj elseBody elseBody'
      simp_all
  | .forEach _ loopName columns body, other, same => by
    have ranks := Stmt.rank_eq same
    cases other <;> try cases ranks
    rename_i loopName' columns' body'
    simp only [Stmt.datum, Datum.atLine_inj] at same
    have := @Ident.datum_inj loopName loopName'
    have := @Expr.datum_inj columns columns'
    have := @Stmt.dataList_inj body body'
    simp_all
  | .whileLoop _ condition body, other, same => by
    have ranks := Stmt.rank_eq same
    cases other <;> try cases ranks
    rename_i condition' body'
    simp only [Stmt.datum, Datum.atLine_inj] at same
    have := @Expr.datum_inj condition condition'
    have := @Stmt.dataList_inj body body'
    simp_all
  | .attempt _ body handler none, other, same => by
    have ranks := Stmt.rank_eq same
    cases other <;> try cases ranks
    rename_i body' handler' finallyBody'
    have := @Stmt.dataList_inj body body'
    have := @Handler.datum_inj handler handler'
    cases finallyBody' <;> simp only [Stmt.datum, Datum.atLine_inj] at same <;> simp_all
  | .attempt _ body handler (some finallyBody), other, same => by
    have ranks := Stmt.rank_eq same
    cases other <;> try cases ranks
    rename_i body' handler' finallyBody'
    have := @Stmt.dataList_inj body body'
    have := @Handler.datum_inj handler handler'
    cases finallyBody' with
    | none =>
      simp only [Stmt.datum, Datum.atLine_inj] at same
      simp_all
    | some finallyBody' =>
      simp only [Stmt.datum, Datum.atLine_inj] at same
      have := @Stmt.dataList_inj finallyBody finallyBody'
      simp_all
  | .function _ name params body, other, same => by
    have ranks := Stmt.rank_eq same
    cases other <;> try cases ranks
    rename_i name' params' body'
    simp only [Stmt.datum, Datum.atLine_inj] at same
    have := @Ident.datum_inj name name'
    have := @Ident.dataList_inj params params'
    have := @Stmt.dataList_inj body body'
    simp_all
  | .declare _ _ names, other, same => by
    have ranks := Stmt.rank_eq same
    cases other <;> try cases ranks
    rename_i names'
    simp only [Stmt.datum, Datum.atLine_inj, Declaration.datum_inj] at same
    have := @Ident.dataList_inj names names'
    simp_all
  | .return _ value, other, same => by
    have ranks := Stmt.rank_eq same
    cases other <;> try cases ranks
    rename_i value'
    simp only [Stmt.datum, Datum.atLine_inj, Datum.choice.injEq, true_and] at same
    rw [same.1, Datum.option_inj Expr.datum_inj Expr.datum_ne_absent same.2]
  | .word _ _, other, same => by
    have ranks := Stmt.rank_eq same
    cases other <;> try cases ranks
    simpa only [Stmt.datum, Datum.atLine_inj, Word.datum_inj, Stmt.word.injEq] using same
  | .comment _ _, other, same => by
    have ranks := Stmt.rank_eq same
    cases other <;> try cases ranks
    simpa [Stmt.datum, Datum.atLine_inj] using same

theorem Handler.datum_inj : ∀ {one other : Handler}, one.datum = other.datum → one = other
  | .absent, .absent, _ => rfl
  | .present name body, .present name' body', same => by
    simp only [Handler.datum, Datum.record.injEq, List.cons.injEq, Datum.list.injEq, and_true] at same
    rw [Datum.option_inj Ident.datum_inj Ident.datum_ne_absent same.1, Stmt.dataList_inj same.2]

theorem Stmt.dataList_inj : ∀ {one other : List Stmt}, Stmt.dataList one = Stmt.dataList other → one = other
  | [], [], _ => rfl
  | statement :: rest, statement' :: rest', same => by
    obtain ⟨first, later⟩ := List.cons.inj same
    rw [Stmt.datum_inj first, Stmt.dataList_inj later]
end

theorem Program.datum_inj {one other : Program} (same : one.datum = other.datum) : one = other := by
  obtain ⟨statements⟩ := one
  obtain ⟨statements'⟩ := other
  simp only [Program.datum, Datum.record.injEq, List.cons.injEq, Datum.list.injEq, and_true] at same
  rw [Stmt.dataList_inj same]

end ArrayLift
