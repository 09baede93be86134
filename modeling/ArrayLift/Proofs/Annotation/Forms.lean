import ArrayLift.Compilation
import ArrayLift.Proofs.Annotation.Places
import ArrayLift.Proofs.Annotation.Unmarked

/-! What resolution makes of parentheses. Everything indexed by them becomes an array reference or a call, by the
place where it stands and the name that it starts from, and nothing else in the tree changes but the marks. -/
namespace ArrayLift

/-- An expression starts from a name, through fields only. -/
inductive Expr.StartsFrom : Expr → Ident → Prop where
  | ident (line : SourceLine) (named : Ident) : StartsFrom (.ident line named) named
  | field {object : Expr} {named : Ident} (line : SourceLine) (name : String) :
    StartsFrom object named → StartsFrom (.field line object name) named
  | dynamicField {object : Expr} {named : Ident} (line : SourceLine) (selector : Expr) :
    StartsFrom object named → StartsFrom (.dynamicField line object selector) named

theorem Expr.calleeRole?_eq_some_iff (role : Role) : ∀ expr : Expr,
    expr.calleeRole? = some role ↔ ∃ named, expr.StartsFrom named ∧ named.role = role
  | .ident line named => by
    constructor
    · intro known
      exact ⟨named, .ident line named, Option.some.inj known⟩
    · rintro ⟨_, ⟨⟩, rfl⟩
      rfl
  | .field line object name => by
    refine (Expr.calleeRole?_eq_some_iff role object).trans ⟨?_, ?_⟩
    · rintro ⟨named, starts, known⟩
      exact ⟨named, .field line name starts, known⟩
    · rintro ⟨named, ⟨⟩, known⟩
      exact ⟨named, ‹_›, known⟩
  | .dynamicField line object selector => by
    refine (Expr.calleeRole?_eq_some_iff role object).trans ⟨?_, ?_⟩
    · rintro ⟨named, starts, known⟩
      exact ⟨named, .dynamicField line selector starts, known⟩
    · rintro ⟨named, ⟨⟩, known⟩
      exact ⟨named, ‹_›, known⟩
  | .literal .. | .operation .. | .index .. | .rows .. | .lambda .. => by
    constructor
    · intro none
      cases none
    · rintro ⟨named, ⟨⟩, _⟩

/-- An expression starts from a name that is no variable. -/
def Expr.StartsFromFunction (expr : Expr) : Prop :=
  ∃ named, expr.StartsFrom named ∧ named.role ≠ .variable

theorem Place.isCall_value_iff (results : Nat) (target : Expr) :
    (Place.value results).isCall target = true ↔ target.StartsFromFunction := by
  simp only [isCall, Bool.or_eq_true, decide_eq_true_eq, Expr.calleeRole?_eq_some_iff, Expr.StartsFromFunction]
  constructor
  · rintro (⟨named, starts, role⟩ | ⟨named, starts, role⟩)
    · exact ⟨named, starts, by simp [role]⟩
    · exact ⟨named, starts, by simp [role]⟩
  · rintro ⟨named, starts, role⟩
    have other : named.role = .function ∨ named.role = .unknown := by
      cases known : named.role <;> simp [known] at role ⊢
    exact other.imp (fun known => ⟨named, starts, known⟩) fun known => ⟨named, starts, known⟩

/-- How parentheses behind a target are to be read at a place. -/
def Place.Reads (place : Place) (target : Expr) (form : IndexForm) : Prop :=
  match place with
  | .assigned => form = .arrayRef
  | .value results =>
    (target.StartsFromFunction → form = .call results) ∧ (¬ target.StartsFromFunction → form = .arrayRef)

theorem IndexForm.reads_decided (form : IndexForm) (place : Place) (target : Expr)
    (paren : form.decided place target ≠ .cellRef) : place.Reads target (form.decided place target) := by
  have before := mt (form.decided_cellRef place target).mpr paren
  cases place with
  | assigned =>
    cases form with
    | cellRef => exact absurd rfl before
    | apply | arrayRef | call => rfl
  | value results =>
    have chosen : form.decided (.value results) target =
        if (Place.value results).isCall target then .call results else .arrayRef := by
      cases form with
      | cellRef => exact absurd rfl before
      | apply | arrayRef | call => rfl
    rw [chosen]
    refine ⟨fun starts => if_pos ?_, fun starts => if_neg ?_⟩
    · exact (Place.isCall_value_iff results target).mpr starts
    · exact mt (Place.isCall_value_iff results target).mp starts

/-- After resolution, whether it is rejected or not, the tree is the one before but for its marks, and all
parentheses in it are read by the rule for their place. The places on the way from assigned targets and those that
ask for several results are the ones that the assignments make. -/
theorem Program.reads_checked (program : Program) (settings : Settings) :
    let resolved := (program.checked settings).1
    resolved.unmarked = program.unmarked ∧
      (∀ place line form target arguments, (place, .index line form target arguments) ∈ resolved.parts →
        form ≠ .apply ∧ (form ≠ .cellRef → place.Reads target form)) ∧
      Placed resolved.assignments resolved.parts ∧ Occupied resolved.assignments resolved.parts := by
  intro resolved
  let table := (program.resolve settings).analysis.table
  refine ⟨?_, ?_, Stmt.placedList resolved.statements, Stmt.occupiedList resolved.statements⟩
  · exact (program.withIds.1.unmarked_annotate table settings.reserved).trans program.unmarked_withIds
  · intro place line form target arguments member
    obtain ⟨source, same⟩ :=
      Stmt.annotated_partsList table settings.reserved program.withIds.1.statements _ member
    obtain ⟨inner, before, _, decided⟩ := Expr.annotate_eq_index table settings.reserved same
    have reads (paren : form ≠ .cellRef) : place.Reads target form := by
      rw [decided] at paren ⊢
      exact before.reads_decided place target paren
    refine ⟨?_, reads⟩
    -- No rule for a place leaves parentheses undecided.
    rintro rfl
    have read := reads (by simp)
    cases place with
    | assigned => cases read
    | value results =>
      by_cases starts : target.StartsFromFunction
      · cases read.1 starts
      · cases read.2 starts

end ArrayLift
