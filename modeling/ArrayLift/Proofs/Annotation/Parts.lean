import ArrayLift.Proofs.Annotation.Invariance

/-! The expressions in a tree with the places where they stand, as annotation visits them, and what
annotation decides at every one of them. -/
namespace ArrayLift

mutual
def Ident.parts : Ident → List (Place × Expr)
  | .mk _ none _ _ _ => []
  | .mk _ (some init) _ _ _ => Expr.parts init (.value 1)

/-- An expression at a place and everything inside. -/
def Expr.parts : Expr → Place → List (Place × Expr)
  | .ident line named, place => (place, .ident line named) :: Ident.parts named
  | .literal line value, place => [(place, .literal line value)]
  | .operation line spelling operands none, place =>
    (place, .operation line spelling operands none) :: Expr.partsList operands (.value 1)
  | .operation line spelling operands (some result), place =>
    (place, .operation line spelling operands (some result)) ::
      (Expr.partsList operands (.value 1) ++ Ident.parts result)
  | .field line object name, place => (place, .field line object name) :: Expr.parts object place.inner
  | .dynamicField line object selector, place =>
    (place, .dynamicField line object selector) :: (Expr.parts object place.inner ++ Expr.parts selector (.value 1))
  | .index line form target arguments, place =>
    (place, .index line form target arguments) ::
      (Expr.parts target place.inner ++ Expr.partsList arguments (.value 1))
  | .rows line brackets rows, place => (place, .rows line brackets rows) :: Expr.partsRows rows
  | .lambda line params body, place =>
    (place, .lambda line params body) :: (Ident.partsList params ++ Expr.parts body (.value 1))

def Expr.partsList : List Expr → Place → List (Place × Expr)
  | [], _ => []
  | expr :: rest, place => Expr.parts expr place ++ Expr.partsList rest place

def Expr.partsRows : List (List Expr) → List (Place × Expr)
  | [] => []
  | row :: rest => Expr.partsList row (.value 1) ++ Expr.partsRows rest

def Ident.partsList : List Ident → List (Place × Expr)
  | [] => []
  | ident :: rest => Ident.parts ident ++ Ident.partsList rest
end

mutual
/-- The expressions of a statement with their places. -/
def Stmt.parts : Stmt → List (Place × Expr)
  | .expression _ value => value.parts (.value 1)
  | .assign _ targets value =>
    value.parts (.value (max 1 targets.length)) ++ Expr.partsList targets .assigned
  | .branch _ condition thenBody none => condition.parts (.value 1) ++ Stmt.partsList thenBody
  | .branch _ condition thenBody (some elseBody) =>
    condition.parts (.value 1) ++ Stmt.partsList thenBody ++ Stmt.partsList elseBody
  | .forEach _ loopName columns body => loopName.parts ++ columns.parts (.value 1) ++ Stmt.partsList body
  | .whileLoop _ condition body => condition.parts (.value 1) ++ Stmt.partsList body
  | .attempt _ body handler none => Stmt.partsList body ++ Handler.parts handler
  | .attempt _ body handler (some finallyBody) =>
    Stmt.partsList body ++ Handler.parts handler ++ Stmt.partsList finallyBody
  | .function _ name params body => name.parts ++ Ident.partsList params ++ Stmt.partsList body
  | .declare _ _ names => Ident.partsList names
  | .return _ none => []
  | .return _ (some value) => value.parts (.value 1)
  | .word .. => []
  | .comment .. => []

def Handler.parts : Handler → List (Place × Expr)
  | .absent => []
  | .present none body => Stmt.partsList body
  | .present (some name) body => name.parts ++ Stmt.partsList body

def Stmt.partsList : List Stmt → List (Place × Expr)
  | [] => []
  | stmt :: rest => Stmt.parts stmt ++ Stmt.partsList rest
end

def Program.parts (program : Program) : List (Place × Expr) :=
  Stmt.partsList program.statements

variable (table : ScopeTable) (words : ReservedWords)

/-- The name that an annotated expression starts from has the role of the table. -/
theorem Expr.calleeRole?_annotate {id : IdentId} {name : String} :
    ∀ (expr : Expr) (place : Place), (expr.annotate table words place).1.callee? = some (id, name) →
      table.roleOf id = .variable → (expr.annotate table words place).1.calleeRole? = some .variable
  | .ident line (.mk text none role reserved found), place, start, settled => by
    cases found with
    | none => cases start
    | some other =>
      cases start
      simp only [Expr.annotate, Ident.annotate, Expr.calleeRole?, Ident.role, ScopeTable.roleFor, settled]
  | .ident line (.mk text (some init) role reserved found), place, start, settled => by
    cases found with
    | none => cases start
    | some other =>
      cases start
      simp only [Expr.annotate, Ident.annotate, Expr.calleeRole?, Ident.role, ScopeTable.roleFor, settled]
  | .field line object text, place, start, settled =>
    Expr.calleeRole?_annotate object place.inner start settled
  | .dynamicField line object selector, place, start, settled =>
    Expr.calleeRole?_annotate object place.inner start settled
  | .literal .., _, start, _ | .operation _ _ _ none, _, start, _ | .operation _ _ _ (some _), _, start, _
  | .index .., _, start, _ | .rows .., _, start, _ | .lambda .., _, start, _ => by cases start

/-- A part as annotation leaves it at its place. -/
def Annotated (part : Place × Expr) : Prop :=
  ∃ source : Expr, part.2 = (source.annotate table words part.1).1

/-- What is indexed after annotation was so before, and its form was decided from the annotated target. -/
theorem Expr.annotate_eq_index {source target : Expr} {place : Place} {line : SourceLine} {form : IndexForm}
    {arguments : List Expr} (same : .index line form target arguments = (source.annotate table words place).1) :
    ∃ (inner : Expr) (before : IndexForm),
      target = (inner.annotate table words place.inner).1 ∧ form = before.decided place target := by
  cases source with
  | index line before inner outer =>
    cases same
    exact ⟨inner, before, rfl, rfl⟩
  | operation line spelling operands result => cases result <;> cases same
  | ident | literal | field | dynamicField | rows | lambda => cases same

/-- What starts from a variable is no call. -/
def ArrayOnVariable (part : Place × Expr) : Prop :=
  ∀ results line form target arguments id name, part = (.value results, .index line form target arguments) →
    target.callee? = some (id, name) → table.roleOf id = .variable → form = .cellRef ∨ form = .arrayRef

theorem IndexForm.decided_variable (form : IndexForm) (place : Place) {target : Expr}
    (role : target.calleeRole? = some .variable) :
    form.decided place target = .cellRef ∨ form.decided place target = .arrayRef := by
  cases form <;> cases place <;> simp [IndexForm.decided, Place.isCall, role]

theorem Annotated.arrayOnVariable {part : Place × Expr} (annotated : Annotated table words part) :
    ArrayOnVariable table part := by
  rintro results line form target arguments id name rfl start settled
  obtain ⟨source, same⟩ := annotated
  obtain ⟨inner, before, again, decided⟩ := Expr.annotate_eq_index table words same
  rw [again] at start
  have role := inner.calleeRole?_annotate table words _ start settled
  rw [decided]
  exact before.decided_variable _ (again ▸ role)

section
variable {table words}

theorem Annotated.cons (source : Expr) {place : Place} {inside : List (Place × Expr)}
    (each : ∀ part ∈ inside, Annotated table words part) :
    ∀ part ∈ (place, (source.annotate table words place).1) :: inside, Annotated table words part :=
  List.forall_mem_cons.mpr ⟨⟨source, rfl⟩, each⟩

end

open List (forall_mem_append forall_mem_nil)

mutual
theorem Ident.annotated_parts : ∀ ident : Ident,
    ∀ part ∈ (ident.annotate table words).1.parts, Annotated table words part
  | .mk _ none _ _ _ => forall_mem_nil _
  | .mk _ (some init) _ _ _ => Expr.annotated_parts init (.value 1)

/-- Every part of an annotated expression is annotated at its place. -/
theorem Expr.annotated_parts : ∀ (expr : Expr) (place : Place),
    ∀ part ∈ (expr.annotate table words place).1.parts place, Annotated table words part
  | .ident line named, _ => .cons (.ident line named) (Ident.annotated_parts named)
  | .literal line value, _ => .cons (.literal line value) (forall_mem_nil _)
  | .operation line spelling operands none, _ =>
    .cons (.operation line spelling operands none) (Expr.annotated_partsList operands (.value 1))
  | .operation line spelling operands (some result), _ =>
    .cons (.operation line spelling operands (some result))
      (forall_mem_append.mpr ⟨Expr.annotated_partsList operands (.value 1), Ident.annotated_parts result⟩)
  | .field line object name, place => .cons (.field line object name) (Expr.annotated_parts object place.inner)
  | .dynamicField line object selector, place =>
    .cons (.dynamicField line object selector)
      (forall_mem_append.mpr ⟨Expr.annotated_parts object place.inner, Expr.annotated_parts selector (.value 1)⟩)
  | .index line form target arguments, place =>
    .cons (.index line form target arguments)
      (forall_mem_append.mpr
        ⟨Expr.annotated_parts target place.inner, Expr.annotated_partsList arguments (.value 1)⟩)
  | .rows line brackets rows, _ => .cons (.rows line brackets rows) (Expr.annotated_partsRows rows)
  | .lambda line params body, _ =>
    .cons (.lambda line params body)
      (forall_mem_append.mpr ⟨Ident.annotated_partsList params, Expr.annotated_parts body (.value 1)⟩)

theorem Expr.annotated_partsList : ∀ (exprs : List Expr) (place : Place),
    ∀ part ∈ Expr.partsList (Expr.annotateList table words exprs place).1 place, Annotated table words part
  | [], _ => forall_mem_nil _
  | expr :: rest, place =>
    forall_mem_append.mpr ⟨Expr.annotated_parts expr place, Expr.annotated_partsList rest place⟩

theorem Expr.annotated_partsRows : ∀ rows : List (List Expr),
    ∀ part ∈ Expr.partsRows (Expr.annotateRows table words rows).1, Annotated table words part
  | [] => forall_mem_nil _
  | row :: rest =>
    forall_mem_append.mpr ⟨Expr.annotated_partsList row (.value 1), Expr.annotated_partsRows rest⟩

theorem Ident.annotated_partsList : ∀ idents : List Ident,
    ∀ part ∈ Ident.partsList (Ident.annotateList table words idents).1, Annotated table words part
  | [] => forall_mem_nil _
  | ident :: rest => forall_mem_append.mpr ⟨Ident.annotated_parts ident, Ident.annotated_partsList rest⟩
end

mutual
theorem Stmt.annotated_parts : ∀ statement : Stmt,
    ∀ part ∈ (statement.annotate table words).1.parts, Annotated table words part
  | .expression _ value => value.annotated_parts table words (.value 1)
  | .assign line targets value => by
    have assigned := Expr.annotated_partsList table words targets .assigned
    simp only [Stmt.annotate, Stmt.parts, Expr.length_annotateList]
    exact forall_mem_append.mpr ⟨value.annotated_parts table words _, assigned⟩
  | .branch _ condition thenBody none =>
    forall_mem_append.mpr ⟨condition.annotated_parts table words (.value 1), Stmt.annotated_partsList thenBody⟩
  | .branch _ condition thenBody (some elseBody) => by
    have tested := condition.annotated_parts table words (.value 1)
    have positive := forall_mem_append.mpr ⟨tested, Stmt.annotated_partsList thenBody⟩
    exact forall_mem_append.mpr ⟨positive, Stmt.annotated_partsList elseBody⟩
  | .forEach _ loopName columns body => by
    have iterand := columns.annotated_parts table words (.value 1)
    have header := forall_mem_append.mpr ⟨loopName.annotated_parts table words, iterand⟩
    exact forall_mem_append.mpr ⟨header, Stmt.annotated_partsList body⟩
  | .whileLoop _ condition body =>
    forall_mem_append.mpr ⟨condition.annotated_parts table words (.value 1), Stmt.annotated_partsList body⟩
  | .attempt _ body handler none =>
    forall_mem_append.mpr ⟨Stmt.annotated_partsList body, Handler.annotated_parts handler⟩
  | .attempt _ body handler (some finallyBody) => by
    have handled := forall_mem_append.mpr ⟨Stmt.annotated_partsList body, Handler.annotated_parts handler⟩
    exact forall_mem_append.mpr ⟨handled, Stmt.annotated_partsList finallyBody⟩
  | .function _ name params body => by
    have bound := Ident.annotated_partsList table words params
    have header := forall_mem_append.mpr ⟨name.annotated_parts table words, bound⟩
    exact forall_mem_append.mpr ⟨header, Stmt.annotated_partsList body⟩
  | .declare _ _ names => Ident.annotated_partsList table words names
  | .return _ (some value) => value.annotated_parts table words (.value 1)
  | .return _ none | .word .. | .comment .. => forall_mem_nil _

theorem Handler.annotated_parts : ∀ handler : Handler,
    ∀ part ∈ (handler.annotate table words).1.parts, Annotated table words part
  | .absent => forall_mem_nil _
  | .present none body => Stmt.annotated_partsList body
  | .present (some name) body =>
    forall_mem_append.mpr ⟨name.annotated_parts table words, Stmt.annotated_partsList body⟩

theorem Stmt.annotated_partsList : ∀ statements : List Stmt,
    ∀ part ∈ Stmt.partsList (Stmt.annotateList table words statements).1, Annotated table words part
  | [] => forall_mem_nil _
  | statement :: rest =>
    forall_mem_append.mpr ⟨Stmt.annotated_parts statement, Stmt.annotated_partsList rest⟩
end

/-- In an annotated tree nothing that starts from a variable is a call. -/
theorem Stmt.arrayOnVariableList (statements : List Stmt) :
    ∀ part ∈ Stmt.partsList (Stmt.annotateList table words statements).1, ArrayOnVariable table part :=
  fun part member => (Stmt.annotated_partsList table words statements part member).arrayOnVariable

end ArrayLift
