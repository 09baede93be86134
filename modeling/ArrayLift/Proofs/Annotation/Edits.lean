import ArrayLift.Proofs.Annotation.Erasure
import Mathlib.Data.List.InsertIdx

/-! Resolution of a program that is edited between one resolution and the next. An edit works on the tree whatever
its annotations are, so that the annotations of earlier resolutions make no difference to later ones. -/
namespace ArrayLift

/-- The lists of statements inside a statement. -/
inductive Part where
  | body
  | elseBody
  | handler
  | finallyBody
  deriving DecidableEq, Repr

/-- Change a list of statements inside a statement; a statement that has no such list stays as it is. -/
def Stmt.change (list : List Stmt → List Stmt) : Part → Stmt → Stmt
  | .body, .branch line condition thenBody elseBody => .branch line condition (list thenBody) elseBody
  | .elseBody, .branch line condition thenBody (some elseBody) =>
    .branch line condition thenBody (some (list elseBody))
  | .body, .forEach line loopName columns body => .forEach line loopName columns (list body)
  | .body, .whileLoop line condition body => .whileLoop line condition (list body)
  | .body, .attempt line body handler finallyBody => .attempt line (list body) handler finallyBody
  | .handler, .attempt line body (.present name taken) finallyBody =>
    .attempt line body (.present name (list taken)) finallyBody
  | .finallyBody, .attempt line body handler (some finallyBody) =>
    .attempt line body handler (some (list finallyBody))
  | .body, .function line name params body => .function line name params (list body)
  | _, statement => statement

/-- An edit of a list of statements, at any depth. -/
inductive Edit where
  /-- Put a statement in front of the one at a position, or at the end. -/
  | insert (position : Nat) (statement : Stmt)
  | remove (position : Nat)
  /-- Edit a list inside the statement at a position. -/
  | inside (position : Nat) (part : Part) (edit : Edit)

namespace Edit

def apply : Edit → List Stmt → List Stmt
  | insert position statement, statements => statements.take position ++ statement :: statements.drop position
  | remove position, statements => statements.eraseIdx position
  | inside position part edit, statements => statements.modify position (Stmt.change edit.apply part)

/-- The same edit with a statement without annotations. -/
def unmarked : Edit → Edit
  | insert position statement => .insert position statement.unmarked
  | remove position => .remove position
  | inside position part edit => .inside position part edit.unmarked

end Edit

theorem Stmt.unmarkedList_eq_map (statements : List Stmt) :
    Stmt.unmarkedList statements = statements.map Stmt.unmarked := by
  induction statements with
  | nil => rfl
  | cons statement rest ih => exact congrArg (List.cons _) ih

theorem Stmt.unmarked_change {list bare : List Stmt → List Stmt}
    (same : ∀ statements, Stmt.unmarkedList (list statements) = bare (Stmt.unmarkedList statements))
    (part : Part) (statement : Stmt) :
    (statement.change list part).unmarked = statement.unmarked.change bare part := by
  cases statement with
  | branch line condition thenBody elseBody =>
    cases part <;> cases elseBody <;> simp only [Stmt.change, Stmt.unmarked, same]
  | attempt line body handler finallyBody =>
    cases part <;> cases handler <;> cases finallyBody <;>
      simp only [Stmt.change, Stmt.unmarked, Handler.unmarked, same]
  | «return» line value => cases part <;> cases value <;> rfl
  | forEach | whileLoop | function => cases part <;> simp only [Stmt.change, Stmt.unmarked, same]
  | expression | assign | declare | word | comment => cases part <;> rfl

theorem Stmt.unmarkedList_modify {change bare : Stmt → Stmt}
    (same : ∀ statement, (change statement).unmarked = bare statement.unmarked) (position : Nat)
    (statements : List Stmt) :
    Stmt.unmarkedList (statements.modify position change) = (Stmt.unmarkedList statements).modify position bare := by
  induction statements generalizing position with
  | nil => simp only [List.modify_nil, Stmt.unmarkedList]
  | cons statement rest ih =>
    cases position with
    | zero => simp only [List.modify_zero_cons, Stmt.unmarkedList, same]
    | succ position => simp only [List.modify_succ_cons, Stmt.unmarkedList, ih]

/-- An edit does not look at annotations. -/
theorem Edit.unmarked_apply (edit : Edit) (statements : List Stmt) :
    Stmt.unmarkedList (edit.apply statements) = edit.unmarked.apply (Stmt.unmarkedList statements) := by
  induction edit generalizing statements with
  | insert position statement =>
    simp only [Edit.apply, Edit.unmarked, Stmt.unmarkedList_eq_map, List.map_append, List.map_cons, List.map_take,
      List.map_drop]
  | remove position =>
    simp only [Edit.apply, Edit.unmarked, Stmt.unmarkedList_eq_map, List.eraseIdx_map]
  | inside position part edit ih => exact Stmt.unmarkedList_modify (Stmt.unmarked_change ih part) position statements

/-- What may happen to a program over time. -/
inductive Action where
  | resolve (settings : Settings)
  | edit (edit : Edit)

namespace Action

def isEdit : Action → Bool
  | resolve _ => false
  | edit _ => true

def perform (program : Program) : Action → Program
  | resolve settings => (program.resolve settings).program
  | edit change => ⟨change.apply program.statements⟩

end Action

namespace Program

/-- A program after some actions. -/
def after (program : Program) (actions : List Action) : Program :=
  actions.foldl Action.perform program

theorem unmarked_edit {one other : Program} (same : one.unmarked = other.unmarked) (edit : Edit) :
    (Action.perform one (.edit edit)).unmarked = (Action.perform other (.edit edit)).unmarked := by
  have statements : Stmt.unmarkedList one.statements = Stmt.unmarkedList other.statements :=
    congrArg Program.statements same
  simp only [Action.perform, unmarked, Edit.unmarked_apply, statements]

/-- Of what happened to a program only the edits can be seen behind its annotations. -/
theorem unmarked_after {one other : Program} (same : one.unmarked = other.unmarked) (actions : List Action) :
    (one.after actions).unmarked = (other.after (actions.filter Action.isEdit)).unmarked := by
  induction actions generalizing one other with
  | nil => exact same
  | cons action rest ih =>
    cases action with
    | resolve settings => exact ih ((one.unmarked_resolve settings).trans same)
    | edit edit => exact ih (unmarked_edit same edit)

end Program

/-- Two resolutions leave the same tree and know the same, and both fail or none does. -/
def Resolution.Alike (settings : Settings) (one other : Resolution) : Prop :=
  one.program = other.program ∧ one.analysis = other.analysis ∧
    one.strictErrors settings = other.strictErrors settings ∧ one.isRejected settings = other.isRejected settings

namespace Program

instance (program : Program) : Decidable program.OnlyParamDefaults :=
  inferInstanceAs (Decidable (∀ mention ∈ program.mentions, mention.ident.init.isSome → mention.isParam))

theorem resolve_alike {one other : Program} (only : one.OnlyParamDefaults) (same : one.unmarked = other.unmarked)
    (settings : Settings) : (one.resolve settings).Alike settings (other.resolve settings) := by
  have otherOnly : other.OnlyParamDefaults := by
    rwa [← other.onlyParamDefaults_unmarked, ← same, one.onlyParamDefaults_unmarked]
  obtain ⟨oneTree, oneAnalysis⟩ := resolve_unmarked only settings
  obtain ⟨otherTree, otherAnalysis⟩ := resolve_unmarked otherOnly settings
  have tree : (one.resolve settings).program = (other.resolve settings).program := by
    rw [← oneTree, same, otherTree]
  have analysis : (one.resolve settings).analysis = (other.resolve settings).analysis := by
    rw [← oneAnalysis, same, otherAnalysis]
  have errors : (one.resolve settings).strictErrors settings = (other.resolve settings).strictErrors settings := by
    simp only [Resolution.strictErrors, Resolution.diagnostics, analysis]
  exact ⟨tree, analysis, errors, by simp only [Resolution.isRejected, errors]⟩

/-- Resolution does not depend on annotations: it makes the same of two programs that differ in nothing else, and of
a program that was resolved and edited in turns the same as of one that was only edited. -/
theorem resolve_ignores_annotations (settings : Settings) :
    (∀ one other : Program, one.OnlyParamDefaults → one.unmarked = other.unmarked →
      (one.resolve settings).Alike settings (other.resolve settings)) ∧
    ∀ (program : Program) (actions : List Action),
      let fresh := program.after (actions.filter Action.isEdit)
      fresh.OnlyParamDefaults →
        (fresh.resolve settings).Alike settings ((program.after actions).resolve settings) := by
  refine ⟨fun one other only same => resolve_alike only same settings, ?_⟩
  intro program actions fresh only
  exact resolve_alike only (unmarked_after rfl actions).symm settings

/-- A loop over a call, as an earlier resolution with other settings left it. -/
def staleCall : Program :=
  ⟨[.whileLoop 1 (.index 1 (.call 1) (.ident 1 (.mk "f" none .function true (some 7))) []) [.word 2 .break]]⟩

/-- The name that is called gets a value in front of the loop, and the body of the loop is emptied. -/
def definedLater : List Action :=
  [.resolve { strict := true },
    .edit (.insert 0 (.assign 1 [.ident 1 (.named "f")] (.literal 1 (.logical true)))),
    .resolve { reserved := .empty },
    .edit (.inside 1 .body (.remove 0))]

/-- The call has become an array reference, as in a tree that was never resolved before. -/
theorem resolve_definedLater :
    let fresh : Program :=
      ⟨[.assign 1 [.ident 1 (.named "f")] (.literal 1 (.logical true)),
        .whileLoop 1 (.index 1 .apply (.ident 1 (.named "f")) []) []]⟩
    fresh.OnlyParamDefaults ∧ fresh.unmarked = (staleCall.after definedLater).unmarked ∧
      (fresh.resolve {}).Alike {} ((staleCall.after definedLater).resolve {}) ∧
      (staleCall.after (definedLater.filter Action.isEdit)).OnlyParamDefaults ∧
      ((staleCall.after (definedLater.filter Action.isEdit)).resolve {}).Alike {}
        ((staleCall.after definedLater).resolve {}) := by
  intro fresh
  have only : fresh.OnlyParamDefaults := by decide
  have same : fresh.unmarked = (staleCall.after definedLater).unmarked := by rfl
  have edited : (staleCall.after (definedLater.filter Action.isEdit)).OnlyParamDefaults := by decide
  exact ⟨only, same, (resolve_ignores_annotations {}).1 fresh _ only same, edited,
    (resolve_ignores_annotations {}).2 staleCall definedLater edited⟩

end Program

end ArrayLift
