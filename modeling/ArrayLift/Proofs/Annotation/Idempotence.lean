import ArrayLift.Proofs.Annotation.Invariance
import ArrayLift.Resolution.Resolve

/-! Resolving a program twice is resolving it once with the last settings: what the first resolution leaves in
the tree is walked and numbered alike, and is annotated alike again. -/
namespace ArrayLift

/-- The role that stays is the one that stayed before. -/
theorem ScopeTable.roleFor_roleFor (table : ScopeTable) (id : Option IdentId) (old : Role) :
    table.roleFor id (table.roleFor id old) = table.roleFor id old := by
  cases id with
  | none => rfl
  | some id => cases role : table.roleOf id <;> simp [roleFor, role]

/-- Of the form before, it matters only whether it is that of braces. -/
theorem IndexForm.decided_congr {form other : IndexForm} (braces : form = .cellRef ↔ other = .cellRef)
    (place : Place) (target : Expr) : form.decided place target = other.decided place target := by
  by_cases cell : other = .cellRef
  · rw [braces.mpr cell, cell]
  · have paren := mt braces.mp cell
    cases form <;> cases other <;> cases place <;> first | rfl | exact absurd rfl paren | exact absurd rfl cell

theorem IndexForm.decided_decided (form : IndexForm) (place : Place) (before target : Expr) :
    (form.decided place before).decided place target = form.decided place target :=
  decided_congr (form.decided_cellRef place before) place target

section
variable (table : ScopeTable) (first second : ReservedWords)

mutual
theorem Ident.annotate_annotate : ∀ ident : Ident,
    ((ident.annotate table first).1.annotate table second).1 = (ident.annotate table second).1
  | .mk name none role reserved id => by
    simp only [Ident.annotate, ScopeTable.roleFor_roleFor]
  | .mk name (some init) role reserved id => by
    simp only [Ident.annotate, ScopeTable.roleFor_roleFor, Expr.annotate_annotate init]

theorem Expr.annotate_annotate : ∀ (expr : Expr) (place : Place),
    ((expr.annotate table first place).1.annotate table second place).1 = (expr.annotate table second place).1
  | .ident line named, _ => by simp only [Expr.annotate, Ident.annotate_annotate named]
  | .literal .., _ => rfl
  | .operation line spelling operands none, _ => by
    simp only [Expr.annotate, Expr.annotateList_annotateList operands]
  | .operation line spelling operands (some result), _ => by
    simp only [Expr.annotate, Expr.annotateList_annotateList operands, Ident.annotate_annotate result]
  | .field line object name, place => by simp only [Expr.annotate, Expr.annotate_annotate object]
  | .dynamicField line object selector, place => by
    simp only [Expr.annotate, Expr.annotate_annotate object, Expr.annotate_annotate selector]
  | .index line form target arguments, place => by
    simp only [Expr.annotate, Expr.annotate_annotate target, Expr.annotateList_annotateList arguments,
      IndexForm.decided_decided]
  | .rows line brackets rows, _ => by simp only [Expr.annotate, Expr.annotateRows_annotateRows rows]
  | .lambda line params body, _ => by
    simp only [Expr.annotate, Ident.annotateList_annotateList params, Expr.annotate_annotate body]

theorem Expr.annotateList_annotateList : ∀ (exprs : List Expr) (place : Place),
    (Expr.annotateList table second (Expr.annotateList table first exprs place).1 place).1 =
      (Expr.annotateList table second exprs place).1
  | [], _ => rfl
  | expr :: rest, place =>
    congrArg₂ List.cons (Expr.annotate_annotate expr place) (Expr.annotateList_annotateList rest place)

theorem Expr.annotateRows_annotateRows : ∀ rows : List (List Expr),
    (Expr.annotateRows table second (Expr.annotateRows table first rows).1).1 = (Expr.annotateRows table second rows).1
  | [] => rfl
  | row :: rest =>
    congrArg₂ List.cons (Expr.annotateList_annotateList row (.value 1)) (Expr.annotateRows_annotateRows rest)

theorem Ident.annotateList_annotateList : ∀ idents : List Ident,
    (Ident.annotateList table second (Ident.annotateList table first idents).1).1 =
      (Ident.annotateList table second idents).1
  | [] => rfl
  | ident :: rest => congrArg₂ List.cons (Ident.annotate_annotate ident) (Ident.annotateList_annotateList rest)
end

theorem Ident.annotateOption_annotateOption : ∀ ident : Option Ident,
    (Ident.annotateOption table second (Ident.annotateOption table first ident).1).1 =
      (Ident.annotateOption table second ident).1
  | none => rfl
  | some ident => congrArg some (ident.annotate_annotate table first second)

mutual
theorem Stmt.annotate_annotate : ∀ statement : Stmt,
    ((statement.annotate table first).1.annotate table second).1 = (statement.annotate table second).1
  | .expression line value => by simp only [Stmt.annotate, Expr.annotate_annotate]
  | .assign line targets value => by
    simp only [Stmt.annotate, Expr.length_annotateList, Expr.annotate_annotate,
      Expr.annotateList_annotateList]
  | .branch line condition thenBody none => by
    simp only [Stmt.annotate, Expr.annotate_annotate, Stmt.annotateList_annotateList thenBody]
  | .branch line condition thenBody (some elseBody) => by
    simp only [Stmt.annotate, Expr.annotate_annotate, Stmt.annotateList_annotateList thenBody,
      Stmt.annotateList_annotateList elseBody]
  | .forEach line loopName columns body => by
    simp only [Stmt.annotate, Ident.annotate_annotate, Expr.annotate_annotate,
      Stmt.annotateList_annotateList body]
  | .whileLoop line condition body => by
    simp only [Stmt.annotate, Expr.annotate_annotate, Stmt.annotateList_annotateList body]
  | .attempt line body handler none => by
    simp only [Stmt.annotate, Stmt.annotateList_annotateList body, Handler.annotate_annotate handler]
  | .attempt line body handler (some finallyBody) => by
    simp only [Stmt.annotate, Stmt.annotateList_annotateList body, Handler.annotate_annotate handler,
      Stmt.annotateList_annotateList finallyBody]
  | .function line name params body => by
    simp only [Stmt.annotate, Ident.annotate_annotate, Ident.annotateList_annotateList,
      Stmt.annotateList_annotateList body]
  | .declare line declaration names => by simp only [Stmt.annotate, Ident.annotateList_annotateList]
  | .return _ none | .word .. | .comment .. => rfl
  | .return line (some value) => by simp only [Stmt.annotate, Expr.annotate_annotate]

theorem Handler.annotate_annotate : ∀ handler : Handler,
    ((handler.annotate table first).1.annotate table second).1 = (handler.annotate table second).1
  | .absent => rfl
  | .present name body => by
    simp only [Handler.annotate, Ident.annotateOption_annotateOption, Stmt.annotateList_annotateList body]

theorem Stmt.annotateList_annotateList : ∀ statements : List Stmt,
    (Stmt.annotateList table second (Stmt.annotateList table first statements).1).1 =
      (Stmt.annotateList table second statements).1
  | [] => rfl
  | statement :: rest =>
    congrArg₂ List.cons (Stmt.annotate_annotate statement) (Stmt.annotateList_annotateList rest)
end

/-- The annotations that were there before do not matter. -/
theorem Program.annotate_annotate (program : Program) :
    ((program.annotate table first).1.annotate table second).1 = (program.annotate table second).1 :=
  congrArg Program.mk (Stmt.annotateList_annotateList table first second program.statements)

end

/-- Do two sets of words reserve the same names? -/
def ReservedWords.Alike (first second : ReservedWords) : Prop :=
  ∀ name, first.contains name = second.contains name

theorem ReservedWords.alike_of_sameWords {first second : ReservedWords}
    (same : first.sameWords second = true) : first.Alike second := by
  simp only [sameWords, contains, Bool.and_eq_true, List.all_eq_true, List.contains_iff_mem] at same
  intro name
  apply Bool.eq_iff_iff.mpr
  simp only [contains, List.contains_iff_mem]
  exact ⟨same.1 name, same.2 name⟩

section
variable {table : ScopeTable} {first second : ReservedWords}

mutual
/-- Annotated with the same words once more, nothing changes and nothing is counted. -/
theorem Ident.annotate_again (alike : first.Alike second) : ∀ ident : Ident,
    (ident.annotate table first).1.annotate table second = ((ident.annotate table first).1, 0)
  | .mk name none role reserved id => by
    simp [Ident.annotate, ScopeTable.roleFor_roleFor, alike name, changed]
  | .mk name (some init) role reserved id => by
    simp [Ident.annotate, ScopeTable.roleFor_roleFor, alike name, changed, Expr.annotate_again alike init]

theorem Expr.annotate_again (alike : first.Alike second) : ∀ (expr : Expr) (place : Place),
    (expr.annotate table first place).1.annotate table second place = ((expr.annotate table first place).1, 0)
  | .ident line named, _ => by simp only [Expr.annotate, Ident.annotate_again alike named]
  | .literal .., _ => rfl
  | .operation line spelling operands none, _ => by simp only [Expr.annotate, Expr.annotateList_again alike operands]
  | .operation line spelling operands (some result), _ => by
    simp only [Expr.annotate, Expr.annotateList_again alike operands, Ident.annotate_again alike result]
  | .field line object name, place => by simp only [Expr.annotate, Expr.annotate_again alike object]
  | .dynamicField line object selector, place => by
    simp only [Expr.annotate, Expr.annotate_again alike object, Expr.annotate_again alike selector]
  | .index line form target arguments, place => by
    simp [Expr.annotate, Expr.annotate_again alike target, Expr.annotateList_again alike arguments,
      IndexForm.decided_decided, changed]
  | .rows line brackets rows, _ => by simp only [Expr.annotate, Expr.annotateRows_again alike rows]
  | .lambda line params body, _ => by
    simp only [Expr.annotate, Ident.annotateList_again alike params, Expr.annotate_again alike body]

theorem Expr.annotateList_again (alike : first.Alike second) : ∀ (exprs : List Expr) (place : Place),
    Expr.annotateList table second (Expr.annotateList table first exprs place).1 place =
      ((Expr.annotateList table first exprs place).1, 0)
  | [], _ => rfl
  | expr :: rest, place => by
    simp only [Expr.annotateList, Expr.annotate_again alike expr, Expr.annotateList_again alike rest]

theorem Expr.annotateRows_again (alike : first.Alike second) : ∀ rows : List (List Expr),
    Expr.annotateRows table second (Expr.annotateRows table first rows).1 = ((Expr.annotateRows table first rows).1, 0)
  | [] => rfl
  | row :: rest => by
    simp only [Expr.annotateRows, Expr.annotateList_again alike row, Expr.annotateRows_again alike rest]

theorem Ident.annotateList_again (alike : first.Alike second) : ∀ idents : List Ident,
    Ident.annotateList table second (Ident.annotateList table first idents).1 =
      ((Ident.annotateList table first idents).1, 0)
  | [] => rfl
  | ident :: rest => by
    simp only [Ident.annotateList, Ident.annotate_again alike ident, Ident.annotateList_again alike rest]
end

theorem Ident.annotateOption_again (alike : first.Alike second) : ∀ ident : Option Ident,
    Ident.annotateOption table second (Ident.annotateOption table first ident).1 =
      ((Ident.annotateOption table first ident).1, 0)
  | none => rfl
  | some ident => by simp only [Ident.annotateOption, Ident.annotate_again alike ident]

mutual
theorem Stmt.annotate_again (alike : first.Alike second) : ∀ statement : Stmt,
    (statement.annotate table first).1.annotate table second = ((statement.annotate table first).1, 0)
  | .expression line value => by simp only [Stmt.annotate, Expr.annotate_again alike]
  | .assign line targets value => by
    simp only [Stmt.annotate, Expr.length_annotateList, Expr.annotate_again alike,
      Expr.annotateList_again alike]
  | .branch line condition thenBody none => by
    simp only [Stmt.annotate, Expr.annotate_again alike, Stmt.annotateList_again alike thenBody]
  | .branch line condition thenBody (some elseBody) => by
    simp only [Stmt.annotate, Expr.annotate_again alike, Stmt.annotateList_again alike thenBody,
      Stmt.annotateList_again alike elseBody]
  | .forEach line loopName columns body => by
    simp only [Stmt.annotate, Ident.annotate_again alike, Expr.annotate_again alike,
      Stmt.annotateList_again alike body]
  | .whileLoop line condition body => by
    simp only [Stmt.annotate, Expr.annotate_again alike, Stmt.annotateList_again alike body]
  | .attempt line body handler none => by
    simp only [Stmt.annotate, Stmt.annotateList_again alike body, Handler.annotate_again alike handler]
  | .attempt line body handler (some finallyBody) => by
    simp only [Stmt.annotate, Stmt.annotateList_again alike body, Handler.annotate_again alike handler,
      Stmt.annotateList_again alike finallyBody]
  | .function line name params body => by
    simp only [Stmt.annotate, Ident.annotate_again alike, Ident.annotateList_again alike,
      Stmt.annotateList_again alike body]
  | .declare line declaration names => by simp only [Stmt.annotate, Ident.annotateList_again alike]
  | .return _ none | .word .. | .comment .. => rfl
  | .return line (some value) => by simp only [Stmt.annotate, Expr.annotate_again alike]

theorem Handler.annotate_again (alike : first.Alike second) : ∀ handler : Handler,
    (handler.annotate table first).1.annotate table second = ((handler.annotate table first).1, 0)
  | .absent => rfl
  | .present name body => by
    simp only [Handler.annotate, Ident.annotateOption_again alike, Stmt.annotateList_again alike body]

theorem Stmt.annotateList_again (alike : first.Alike second) : ∀ statements : List Stmt,
    Stmt.annotateList table second (Stmt.annotateList table first statements).1 =
      ((Stmt.annotateList table first statements).1, 0)
  | [] => rfl
  | statement :: rest => by
    simp only [Stmt.annotateList, Stmt.annotate_again alike statement, Stmt.annotateList_again alike rest]
end

theorem Program.annotate_again (alike : first.Alike second) (program : Program) :
    (program.annotate table first).1.annotate table second = ((program.annotate table first).1, 0) := by
  simp only [Program.annotate, Stmt.annotateList_again alike]

end

/-- An annotated program is resolved with the analysis of the program before. -/
theorem Program.resolve_annotate (program : Program) (table : ScopeTable) (words : ReservedWords)
    (settings : Settings) :
    let analysis := (program.resolve settings).analysis
    let annotated := (program.withIds.1.annotate table words).1
    let again := annotated.annotate analysis.table settings.reserved
    annotated.resolve settings = ⟨again.1, analysis, again.2⟩ := by
  simp only [resolve, withIds_annotate, findings_annotate]

/-- Resolving a program with some settings and then with others leaves the tree, the analysis and the outcome of
resolving it with the others alone. With the same reserved words, the second time changes nothing. -/
theorem Program.resolve_resolve (program : Program) (first second : Settings) :
    let once := program.resolve first
    let twice := once.program.resolve second
    let alone := program.resolve second
    twice.program = alone.program ∧ twice.analysis = alone.analysis ∧
      twice.strictErrors second = alone.strictErrors second ∧ twice.isRejected second = alone.isRejected second ∧
      (first.reserved.sameWords second.reserved = true → twice.changes = 0 ∧ twice.program = once.program) := by
  intro once twice alone
  let numbered := program.withIds.1
  let table := alone.analysis.table
  have resolved : twice = ⟨((numbered.annotate table first.reserved).1.annotate table second.reserved).1,
      alone.analysis, ((numbered.annotate table first.reserved).1.annotate table second.reserved).2⟩ :=
    program.resolve_annotate table first.reserved second
  have analysis : twice.analysis = alone.analysis := by rw [resolved]
  have errors : twice.strictErrors second = alone.strictErrors second := by
    simp only [Resolution.strictErrors, Resolution.diagnostics, analysis]
  refine ⟨?_, analysis, errors, ?_, fun same => ?_⟩
  · rw [resolved]
    exact numbered.annotate_annotate table first.reserved second.reserved
  · simp only [Resolution.isRejected, errors]
  · have again : (numbered.annotate table first.reserved).1.annotate table second.reserved =
        (once.program, 0) :=
      numbered.annotate_again (ReservedWords.alike_of_sameWords same)
    rw [again] at resolved
    rw [resolved]
    exact ⟨rfl, rfl⟩

/-- A name that is assigned and then indexed, in a tree that takes it for a call. -/
def Program.indexedByCall : Program :=
  ⟨[.assign 1 [.ident 1 (.named "a")] (.literal 1 (.logical true)),
    .expression 2 (.index 2 (.call 1) (.ident 2 (.named "a")) [.literal 2 (.logical true)])]⟩

/-- The first resolution has something to change, and leaves nothing for one with strict settings. -/
theorem Program.resolve_indexedByCall :
    let lenient : Settings := { reserved := .empty }
    let strict : Settings := { strict := true, reserved := .empty }
    (indexedByCall.resolve lenient).changes = 3 ∧
      ((indexedByCall.resolve lenient).program.resolve strict).changes = 0 := by
  intro lenient strict
  have last := (indexedByCall.resolve_resolve lenient strict).2.2.2.2 rfl
  exact ⟨by decide, last.1⟩

end ArrayLift
