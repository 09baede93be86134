import ArrayLift.Proofs.Annotation.Coverage
import ArrayLift.Proofs.Annotation.Places
import ArrayLift.Proofs.Format.Marks
import ArrayLift.Proofs.Format.Representable

/-! A resolved tree has no more identities, and asks for no more results, than it has records. -/
namespace ArrayLift

namespace Datum

theorem records_atLine (line : SourceLine) (name : String) (content : Datum) :
    (atLine line (.choice name content)).records = content.records + 1 := by
  simp [atLine, records, recordsIn, ofNat]

end Datum

theorem Ident.records_datumWith (name : String) (init : Datum) (role : Role) (reserved : Bool) (id : Option IdentId) :
    (Ident.datumWith name init role reserved id).records = init.records + 1 := by
  cases id <;> cases role <;>
    simp [Ident.datumWith, Role.datum, Datum.records, Datum.recordsIn, Datum.ofNat, Datum.ofOption]

theorem IndexForm.records (form : IndexForm) (line : SourceLine) (target arguments : Datum) :
    (Datum.atLine line (form.datum target arguments)).records = target.records + arguments.records + 2 := by
  cases form <;> simp [IndexForm.datum, Datum.records_atLine, Datum.records, Datum.recordsIn, Datum.ofNat]

mutual
theorem Ident.mentions_le : ∀ ident : Ident, ident.mentions.length ≤ ident.datum.records
  | .mk _ none _ _ _ => by
    rw [Ident.datum, Ident.records_datumWith]
    exact Nat.le_add_left ..
  | .mk _ (some init) _ _ _ => by
    rw [Ident.datum, Ident.records_datumWith, Ident.mentions, List.length_cons, List.length_map]
    exact Nat.succ_le_succ (Expr.mentions_le init)

theorem Expr.mentions_le : ∀ expr : Expr, expr.mentions.length ≤ expr.datum.records
  | .ident _ ident => by
    rw [Expr.datum, Datum.records_atLine]
    exact Nat.le_succ_of_le (Ident.mentions_le ident)
  | .literal .. => Nat.zero_le _
  | .operation _ _ operands none => by
    have inner := Expr.mentionsList_le operands
    simp only [Expr.datum, Datum.records_atLine, Datum.records, Datum.recordsIn, Expr.mentions]
    omega
  | .operation _ _ operands (some result) => by
    have first := Expr.mentionsList_le operands
    have last := Ident.mentions_le result
    simp only [Expr.datum, Datum.records_atLine, Datum.records, Datum.recordsIn, Expr.mentions, List.length_append]
    omega
  | .field _ base _ => by
    have inner := Expr.mentions_le base
    simp only [Expr.datum, Datum.records_atLine, Datum.records, Datum.recordsIn, Expr.mentions]
    omega
  | .dynamicField _ base selector => by
    have first := Expr.mentions_le base
    have last := Expr.mentions_le selector
    simp only [Expr.datum, Datum.records_atLine, Datum.records, Datum.recordsIn, Expr.mentions, List.length_append]
    omega
  | .index _ form target arguments => by
    have first := Expr.mentions_le target
    have last := Expr.mentionsList_le arguments
    simp only [Expr.datum, IndexForm.records, Datum.records, Expr.mentions, List.length_append]
    omega
  | .rows _ brackets rows => by
    have inner := Expr.mentionsRows_le rows
    cases brackets <;>
      simp only [Expr.datum, Brackets.datum, Datum.records_atLine, Datum.records, Expr.mentions] <;> omega
  | .lambda _ params body => by
    have first := Ident.mentionsList_le params
    have last := Expr.mentions_le body
    simp only [Expr.datum, Datum.records_atLine, Datum.records, Datum.recordsIn, Expr.mentions, List.length_append]
    omega

theorem Expr.mentionsList_le : ∀ exprs : List Expr,
    (Expr.mentionsList exprs).length ≤ Datum.recordsIn (Expr.dataList exprs)
  | [] => Nat.le_refl _
  | expr :: rest => by
    rw [Expr.mentionsList, List.length_append]
    exact Nat.add_le_add (Expr.mentions_le expr) (Expr.mentionsList_le rest)

theorem Expr.mentionsRows_le : ∀ rows : List (List Expr),
    (Expr.mentionsRows rows).length ≤ Datum.recordsIn (Expr.dataRows rows)
  | [] => Nat.le_refl _
  | row :: rest => by
    rw [Expr.mentionsRows, List.length_append]
    exact Nat.add_le_add (Expr.mentionsList_le row) (Expr.mentionsRows_le rest)

theorem Ident.mentionsList_le : ∀ idents : List Ident,
    (Ident.mentionsList idents).length ≤ Datum.recordsIn (Ident.dataList idents)
  | [] => Nat.le_refl _
  | ident :: rest => by
    rw [Ident.mentionsList, List.length_append]
    exact Nat.add_le_add (Ident.mentions_le ident) (Ident.mentionsList_le rest)
end

/-- A parameter is mentioned like any other identifier. -/
theorem Ident.length_paramMentions (ident : Ident) : ident.paramMentions.length = ident.mentions.length := by
  obtain ⟨_, init, _, _, _⟩ := ident
  cases init with
  | none => rfl
  | some init => simp [Ident.paramMentions, Ident.init, Ident.mentions]

theorem Ident.paramMentions_le (idents : List Ident) :
    (idents.flatMap Ident.paramMentions).length ≤ Datum.recordsIn (Ident.dataList idents) := by
  induction idents with
  | nil => exact Nat.le_refl _
  | cons ident rest ih =>
    rw [List.flatMap_cons, List.length_append, ident.length_paramMentions]
    exact Nat.add_le_add ident.mentions_le ih

mutual
theorem Stmt.mentions_le : ∀ statement : Stmt, statement.mentions.length ≤ statement.datum.records
  | .expression _ value => by
    rw [Stmt.datum, Datum.records_atLine]
    exact Nat.le_succ_of_le value.mentions_le
  | .assign _ targets value => by
    have first := Expr.mentionsList_le targets
    have last := value.mentions_le
    simp only [Stmt.datum, Datum.records_atLine, Datum.records, Datum.recordsIn, Stmt.mentions, List.length_append]
    omega
  | .branch _ condition thenBody none => by
    have first := condition.mentions_le
    have last := Stmt.mentionsList_le thenBody
    simp only [Stmt.datum, Datum.records_atLine, Datum.records, Datum.recordsIn, Stmt.mentions, List.length_append]
    omega
  | .branch _ condition thenBody (some elseBody) => by
    have first := condition.mentions_le
    have middle := Stmt.mentionsList_le thenBody
    have last := Stmt.mentionsList_le elseBody
    simp only [Stmt.datum, Datum.records_atLine, Datum.records, Datum.recordsIn, Stmt.mentions, List.length_append]
    omega
  | .forEach _ loopName columns body => by
    have first := loopName.mentions_le
    have middle := columns.mentions_le
    have last := Stmt.mentionsList_le body
    simp only [Stmt.datum, Datum.records_atLine, Datum.records, Datum.recordsIn, Stmt.mentions, List.length_append]
    omega
  | .whileLoop _ condition body => by
    have first := condition.mentions_le
    have last := Stmt.mentionsList_le body
    simp only [Stmt.datum, Datum.records_atLine, Datum.records, Datum.recordsIn, Stmt.mentions, List.length_append]
    omega
  | .attempt _ body handler none => by
    have first := Stmt.mentionsList_le body
    have last := Handler.mentions_le handler
    simp only [Stmt.datum, Datum.records_atLine, Datum.records, Datum.recordsIn, Stmt.mentions, List.length_append]
    omega
  | .attempt _ body handler (some finallyBody) => by
    have first := Stmt.mentionsList_le body
    have middle := Handler.mentions_le handler
    have last := Stmt.mentionsList_le finallyBody
    simp only [Stmt.datum, Datum.records_atLine, Datum.records, Datum.recordsIn, Stmt.mentions, List.length_append]
    omega
  | .function _ name params body => by
    have first := name.mentions_le
    have middle := Ident.paramMentions_le params
    have last := Stmt.mentionsList_le body
    simp only [Stmt.datum, Datum.records_atLine, Datum.records, Datum.recordsIn, Stmt.mentions, List.length_append]
    omega
  | .declare _ declaration names => by
    have inner := Ident.mentionsList_le names
    cases declaration <;>
      simp only [Stmt.datum, Declaration.datum, Datum.records_atLine, Datum.records, Stmt.mentions] <;> omega
  | .return _ none => Nat.zero_le _
  | .return _ (some value) => by
    rw [Stmt.datum, Datum.records_atLine]
    exact Nat.le_succ_of_le value.mentions_le
  | .word .. => Nat.zero_le _
  | .comment .. => Nat.zero_le _

theorem Handler.mentions_le : ∀ handler : Handler, handler.mentions.length ≤ handler.datum.records
  | .absent => Nat.le_refl _
  | .present none body => by
    have inner := Stmt.mentionsList_le body
    simp only [Handler.datum, Option.map_none, Datum.ofOption, Datum.records, Datum.recordsIn, Handler.mentions]
    omega
  | .present (some name) body => by
    have first := name.mentions_le
    have last := Stmt.mentionsList_le body
    simp only [Handler.datum, Option.map_some, Datum.ofOption, Datum.records, Datum.recordsIn, Handler.mentions,
      List.length_append]
    omega

theorem Stmt.mentionsList_le : ∀ statements : List Stmt,
    (Stmt.mentionsList statements).length ≤ Datum.recordsIn (Stmt.dataList statements)
  | [] => Nat.le_refl _
  | statement :: rest => by
    rw [Stmt.mentionsList, List.length_append]
    exact Nat.add_le_add (Stmt.mentions_le statement) (Stmt.mentionsList_le rest)
end

theorem Expr.records_pos (expr : Expr) : 0 < expr.datum.records := by
  cases expr with
  | operation _ _ _ result => cases result <;> exact Nat.succ_pos _
  | _ => exact Nat.succ_pos _

theorem Expr.length_le (exprs : List Expr) : exprs.length ≤ Datum.recordsIn (Expr.dataList exprs) := by
  induction exprs with
  | nil => exact Nat.le_refl _
  | cons expr rest ih =>
    rw [Expr.dataList, Datum.recordsIn, List.length_cons, Nat.add_comm]
    exact Nat.add_le_add expr.records_pos ih

/-- No assignment has more targets than a count. -/
def TargetsWithin (count : Nat) (assignments : List Assignment) : Prop :=
  ∀ assignment ∈ assignments, assignment.targets.length ≤ count

theorem TargetsWithin.mono {count more : Nat} {assignments : List Assignment} (few : TargetsWithin count assignments)
    (le : count ≤ more) : TargetsWithin more assignments :=
  fun assignment listed => Nat.le_trans (few assignment listed) le

theorem TargetsWithin.append {count : Nat} {one other : List Assignment} (first : TargetsWithin count one)
    (later : TargetsWithin count other) : TargetsWithin count (one ++ other) :=
  List.forall_mem_append.mpr ⟨first, later⟩

theorem TargetsWithin.none (count : Nat) : TargetsWithin count [] :=
  List.forall_mem_nil _

mutual
theorem Stmt.targets_le : ∀ statement : Stmt, TargetsWithin statement.datum.records statement.assignments
  | .assign line targets value => by
    refine List.forall_mem_singleton.mpr (Nat.le_trans (Expr.length_le targets) ?_)
    simp only [Stmt.datum, Datum.records_atLine, Datum.records, Datum.recordsIn]
    omega
  | .branch _ _ thenBody none => by
    refine (Stmt.targetsList_le thenBody).mono ?_
    simp only [Stmt.datum, Datum.records_atLine, Datum.records, Datum.recordsIn]
    omega
  | .branch _ _ thenBody (some elseBody) => by
    refine .append ((Stmt.targetsList_le thenBody).mono ?_) ((Stmt.targetsList_le elseBody).mono ?_) <;>
      simp only [Stmt.datum, Datum.records_atLine, Datum.records, Datum.recordsIn] <;> omega
  | .forEach _ _ _ body | .whileLoop _ _ body | .function _ _ _ body => by
    refine (Stmt.targetsList_le body).mono ?_
    simp only [Stmt.datum, Datum.records_atLine, Datum.records, Datum.recordsIn]
    omega
  | .attempt _ body handler none => by
    refine .append ((Stmt.targetsList_le body).mono ?_) ((Handler.targets_le handler).mono ?_) <;>
      simp only [Stmt.datum, Datum.records_atLine, Datum.records, Datum.recordsIn] <;> omega
  | .attempt _ body handler (some finallyBody) => by
    refine .append (.append ((Stmt.targetsList_le body).mono ?_) ((Handler.targets_le handler).mono ?_))
      ((Stmt.targetsList_le finallyBody).mono ?_) <;>
      simp only [Stmt.datum, Datum.records_atLine, Datum.records, Datum.recordsIn] <;> omega
  | .expression .. | .declare .. | .return .. | .word .. | .comment .. => .none _

theorem Handler.targets_le : ∀ handler : Handler, TargetsWithin handler.datum.records handler.assignments
  | .absent => .none _
  | .present _ body => by
    refine (Stmt.targetsList_le body).mono ?_
    simp only [Handler.datum, Datum.records, Datum.recordsIn]
    omega

theorem Stmt.targetsList_le : ∀ statements : List Stmt,
    TargetsWithin (Datum.recordsIn (Stmt.dataList statements)) (Stmt.assignmentsList statements)
  | [] => .none _
  | statement :: rest =>
    .append ((Stmt.targets_le statement).mono (Nat.le_add_right ..))
      ((Stmt.targetsList_le rest).mono (Nat.le_add_left ..))
end

namespace Program

section
variable (program : Program) (settings : Settings)

theorem mentions_le : program.mentions.length ≤ program.datum.records := by
  have inner := Stmt.mentionsList_le program.statements
  simp only [datum, Datum.records, Datum.recordsIn, mentions]
  omega

theorem targets_le : TargetsWithin program.datum.records program.assignments := by
  refine (Stmt.targetsList_le program.statements).mono ?_
  simp only [datum, Datum.records, Datum.recordsIn]
  omega

/-- Resolution changes annotations only. -/
theorem alike_resolve : (Schema.record .program).Alike (program.resolve settings).program.datum program.datum :=
  alike_of_unmarked (program.unmarked_resolve settings)

/-- The identities of a resolved tree are smaller than the count of its records. -/
theorem id_lt_resolve {mention : Mention} (listed : mention ∈ (program.resolve settings).program.mentions) {id : Nat}
    (known : mention.ident.id = some id) : id < program.datum.records := by
  have counted := program.counted_withIds.annotate (program.resolve settings).analysis.table settings.reserved
  rw [← program.mentions_resolve] at counted
  have below := ((counted.exists_iff id).mp ⟨mention, listed, known⟩).2
  have count := counted.length_eq
  have few := (program.resolve settings).program.mentions_le
  rw [(program.alike_resolve settings).records] at few
  omega

/-- A call in a resolved tree asks for one result, or for as many as there are targets in its assignment. -/
theorem results_le_resolve {part : Place × Expr} (listed : part ∈ (program.resolve settings).program.parts)
    {line : SourceLine} {results : Nat} {target : Expr} {arguments : List Expr}
    (call : part.2 = .index line (.call results) target arguments) : results ≤ max 1 program.datum.records := by
  obtain ⟨place, expr⟩ := part
  simp only at call
  subst call
  obtain ⟨source, same⟩ := Stmt.annotated_partsList (program.resolve settings).analysis.table settings.reserved
    program.withIds.1.statements _ listed
  obtain ⟨-, before, -, decided⟩ := Expr.annotate_eq_index _ _ same
  have asked : place = .value results := by
    cases before <;> cases place <;> simp only [IndexForm.decided, reduceCtorEq] at decided <;> split at decided <;>
      cases decided <;> rfl
  have few := (program.resolve settings).program.targets_le
  rw [(program.alike_resolve settings).records] at few
  rcases Stmt.placedList (program.resolve settings).program.statements _ listed with one | ⟨assignment, inside, places⟩
  · rw [asked] at one
    cases one
    exact Nat.le_max_left ..
  · rcases places with ⟨assigned, -⟩ | whole
    · cases asked.symm.trans assigned
    · have count := few assignment inside
      cases asked.symm.trans (Prod.mk.inj whole).1
      exact Nat.max_le.mpr ⟨Nat.le_max_left .., Nat.le_trans count (Nat.le_max_right ..)⟩

/-- A resolved tree can be represented if its records can be counted with 32 bits. -/
theorem representable_resolve (few : program.datum.records < 2 ^ 32)
    (finite : ∀ value ∈ program.floats, value.isFinite) :
    Representable (program.resolve settings).program.mentions (program.resolve settings).program.parts
      (program.resolve settings).program.floats where
  ids mention listed id known := Nat.lt_trans (program.id_lt_resolve settings listed known) few
  results part listed line results target arguments call := by
    have bound := program.results_le_resolve settings listed call
    omega
  finite := by
    rw [floats, (program.alike_resolve settings).floats]
    exact finite

end
end Program
end ArrayLift
