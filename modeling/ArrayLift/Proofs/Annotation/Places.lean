import ArrayLift.Proofs.Annotation.Parts

/-! Where the expressions of a program stand. Of all places, those on the way from an assigned target to its
root and those that ask for several results come from assignments; everywhere else one result is asked for. -/
namespace ArrayLift

/-- The targets and the value of an assignment. -/
structure Assignment where
  targets : List Expr
  value : Expr

mutual
/-- The assignments in a statement, at any depth. -/
def Stmt.assignments : Stmt → List Assignment
  | .assign _ targets value => [⟨targets, value⟩]
  | .branch _ _ thenBody none => Stmt.assignmentsList thenBody
  | .branch _ _ thenBody (some elseBody) => Stmt.assignmentsList thenBody ++ Stmt.assignmentsList elseBody
  | .forEach _ _ _ body | .whileLoop _ _ body | .function _ _ _ body => Stmt.assignmentsList body
  | .attempt _ body handler none => Stmt.assignmentsList body ++ Handler.assignments handler
  | .attempt _ body handler (some finallyBody) =>
    Stmt.assignmentsList body ++ Handler.assignments handler ++ Stmt.assignmentsList finallyBody
  | .expression .. | .declare .. | .return .. | .word .. | .comment .. => []

def Handler.assignments : Handler → List Assignment
  | .absent => []
  | .present _ body => Stmt.assignmentsList body

def Stmt.assignmentsList : List Stmt → List Assignment
  | [] => []
  | statement :: rest => Stmt.assignments statement ++ Stmt.assignmentsList rest
end

def Program.assignments (program : Program) : List Assignment :=
  Stmt.assignmentsList program.statements

/-- From an expression to what it indexes or takes a field of, any number of times. -/
inductive Expr.Leads : Expr → Expr → Prop where
  | here (expr : Expr) : Leads expr expr
  | index {target expr : Expr} (line : SourceLine) (form : IndexForm) (arguments : List Expr) :
    Leads target expr → Leads (.index line form target arguments) expr
  | field {object expr : Expr} (line : SourceLine) (name : String) :
    Leads object expr → Leads (.field line object name) expr
  | dynamicField {object expr : Expr} (line : SourceLine) (selector : Expr) :
    Leads object expr → Leads (.dynamicField line object selector) expr

/-- The places that an assignment makes: what its targets lead to is assigned, and its value is asked for as
many results as there are targets. -/
def Assignment.Places (assignment : Assignment) (part : Place × Expr) : Prop :=
  (part.1 = .assigned ∧ ∃ target ∈ assignment.targets, target.Leads part.2) ∨
    part = (.value (max 1 assignment.targets.length), assignment.value)

/-- Everything here is asked for one result. -/
def AskedOnce (parts : List (Place × Expr)) : Prop :=
  ∀ part ∈ parts, part.1 = .value 1

theorem AskedOnce.append {one other : List (Place × Expr)} (first : AskedOnce one) (second : AskedOnce other) :
    AskedOnce (one ++ other) :=
  List.forall_mem_append.mpr ⟨first, second⟩

theorem AskedOnce.nil : AskedOnce [] := List.forall_mem_nil _

mutual
theorem Ident.askedOnce : ∀ ident : Ident, AskedOnce ident.parts
  | .mk _ none _ _ _ => .nil
  | .mk _ (some init) _ _ _ => Expr.askedOnce init

/-- Whatever a value is asked for, it asks for one result of everything inside. -/
theorem Expr.parts_value : ∀ (expr : Expr) (results : Nat), ∃ inside,
    expr.parts (.value results) = (.value results, expr) :: inside ∧ AskedOnce inside
  | .ident line named, _ => ⟨_, rfl, Ident.askedOnce named⟩
  | .literal line value, _ => ⟨_, rfl, .nil⟩
  | .operation line spelling operands none, _ => ⟨_, rfl, Expr.askedOnceList operands⟩
  | .operation line spelling operands (some result), _ =>
    ⟨_, rfl, (Expr.askedOnceList operands).append (Ident.askedOnce result)⟩
  | .field line object name, _ => ⟨_, rfl, Expr.askedOnce object⟩
  | .dynamicField line object selector, _ => ⟨_, rfl, (Expr.askedOnce object).append (Expr.askedOnce selector)⟩
  | .index line form target arguments, _ =>
    ⟨_, rfl, (Expr.askedOnce target).append (Expr.askedOnceList arguments)⟩
  | .rows line brackets rows, _ => ⟨_, rfl, Expr.askedOnceRows rows⟩
  | .lambda line params body, _ => ⟨_, rfl, (Ident.askedOnceList params).append (Expr.askedOnce body)⟩

theorem Expr.askedOnce (expr : Expr) : AskedOnce (expr.parts (.value 1)) := by
  obtain ⟨inside, same, once⟩ := Expr.parts_value expr 1
  rw [same]
  exact List.forall_mem_cons.mpr ⟨rfl, once⟩

theorem Expr.askedOnceList : ∀ exprs : List Expr, AskedOnce (Expr.partsList exprs (.value 1))
  | [] => .nil
  | expr :: rest => (Expr.askedOnce expr).append (Expr.askedOnceList rest)

theorem Expr.askedOnceRows : ∀ rows : List (List Expr), AskedOnce (Expr.partsRows rows)
  | [] => .nil
  | row :: rest => (Expr.askedOnceList row).append (Expr.askedOnceRows rest)

theorem Ident.askedOnceList : ∀ idents : List Ident, AskedOnce (Ident.partsList idents)
  | [] => .nil
  | ident :: rest => (Ident.askedOnce ident).append (Ident.askedOnceList rest)
end

/-- An assigned expression with parts that are asked for one result. -/
theorem Expr.mem_assigned_cons {expr : Expr} {inside : List (Place × Expr)} (once : AskedOnce inside)
    {part : Place × Expr} (member : part ∈ (Place.assigned, expr) :: inside) :
    (part.1 = .assigned ∧ expr.Leads part.2) ∨ part.1 = .value 1 := by
  rcases List.mem_cons.mp member with rfl | within
  · exact .inl ⟨rfl, .here expr⟩
  · exact .inr (once part within)

/-- What a target leads to is assigned, and everything else in it is asked for one result. -/
theorem Expr.mem_parts_assigned : ∀ (target : Expr) (part : Place × Expr), part ∈ target.parts .assigned →
    (part.1 = .assigned ∧ target.Leads part.2) ∨ part.1 = .value 1
  | .index line form target arguments, part, member => by
    rcases List.mem_cons.mp member with rfl | inside
    · exact .inl ⟨rfl, .here _⟩
    rcases List.mem_append.mp inside with base | given
    · exact (Expr.mem_parts_assigned target part base).imp_left (And.imp_right (.index line form arguments))
    · exact .inr (Expr.askedOnceList arguments part given)
  | .field line object name, part, member => by
    rcases List.mem_cons.mp member with rfl | inside
    · exact .inl ⟨rfl, .here _⟩
    · exact (Expr.mem_parts_assigned object part inside).imp_left (And.imp_right (.field line name))
  | .dynamicField line object selector, part, member => by
    rcases List.mem_cons.mp member with rfl | inside
    · exact .inl ⟨rfl, .here _⟩
    rcases List.mem_append.mp inside with base | selected
    · exact (Expr.mem_parts_assigned object part base).imp_left (And.imp_right (.dynamicField line selector))
    · exact .inr (Expr.askedOnce selector part selected)
  | .ident _ named, _, member => Expr.mem_assigned_cons (Ident.askedOnce named) member
  | .literal .., _, member => Expr.mem_assigned_cons .nil member
  | .operation _ _ operands none, _, member => Expr.mem_assigned_cons (Expr.askedOnceList operands) member
  | .operation _ _ operands (some result), _, member =>
    Expr.mem_assigned_cons ((Expr.askedOnceList operands).append (Ident.askedOnce result)) member
  | .rows _ _ elements, _, member => Expr.mem_assigned_cons (Expr.askedOnceRows elements) member
  | .lambda _ params body, _, member =>
    Expr.mem_assigned_cons ((Ident.askedOnceList params).append (Expr.askedOnce body)) member

theorem Expr.head_mem_parts (expr : Expr) (place : Place) : (place, expr) ∈ expr.parts place := by
  cases expr with
  | operation line spelling operands result => cases result <;> exact List.mem_cons_self
  | ident | literal | field | dynamicField | index | rows | lambda => exact List.mem_cons_self

theorem Expr.Leads.mem_parts {target expr : Expr} (leads : target.Leads expr) :
    (Place.assigned, expr) ∈ target.parts .assigned := by
  induction leads with
  | here expr => exact expr.head_mem_parts .assigned
  | index line form arguments _ ih => exact List.mem_cons_of_mem _ (List.mem_append_left _ ih)
  | field line name _ ih => exact List.mem_cons_of_mem _ ih
  | dynamicField line selector _ ih => exact List.mem_cons_of_mem _ (List.mem_append_left _ ih)

theorem Expr.mem_partsList_assigned (targets : List Expr) (part : Place × Expr) :
    part ∈ Expr.partsList targets .assigned ↔ ∃ target ∈ targets, part ∈ target.parts .assigned := by
  induction targets with
  | nil => simp [Expr.partsList]
  | cons target rest ih => simp [Expr.partsList, ih]

/-- Every part of a statement is asked for one result or has its place from an assignment. -/
def Placed (assignments : List Assignment) (parts : List (Place × Expr)) : Prop :=
  ∀ part ∈ parts, part.1 = .value 1 ∨ ∃ assignment ∈ assignments, assignment.Places part

theorem AskedOnce.placed {parts : List (Place × Expr)} (once : AskedOnce parts) (assignments : List Assignment) :
    Placed assignments parts :=
  fun part member => .inl (once part member)

theorem Placed.append {one other : List Assignment} {first second : List (Place × Expr)} (left : Placed one first)
    (right : Placed other second) : Placed (one ++ other) (first ++ second) := by
  intro part member
  rcases List.mem_append.mp member with inFirst | inSecond
  · exact (left part inFirst).imp_right fun ⟨assignment, there, places⟩ =>
      ⟨assignment, List.mem_append_left other there, places⟩
  · exact (right part inSecond).imp_right fun ⟨assignment, there, places⟩ =>
      ⟨assignment, List.mem_append_right one there, places⟩

theorem Placed.behind {header parts : List (Place × Expr)} {assignments : List Assignment} (once : AskedOnce header)
    (placed : Placed assignments parts) : Placed assignments (header ++ parts) :=
  (once.placed []).append placed

mutual
theorem Stmt.placed : ∀ statement : Stmt, Placed statement.assignments statement.parts
  | .expression _ value => value.askedOnce.placed _
  | .assign line targets value => by
    intro part member
    rcases List.mem_append.mp member with whole | assigned
    · obtain ⟨inside, same, once⟩ := value.parts_value (max 1 targets.length)
      rw [same] at whole
      rcases List.mem_cons.mp whole with rfl | within
      · exact .inr ⟨⟨targets, value⟩, List.mem_singleton_self _, .inr rfl⟩
      · exact .inl (once part within)
    · obtain ⟨target, listed, there⟩ := (Expr.mem_partsList_assigned targets part).mp assigned
      rcases target.mem_parts_assigned part there with ⟨place, leads⟩ | once
      · exact .inr ⟨⟨targets, value⟩, List.mem_singleton_self _, .inl ⟨place, target, listed, leads⟩⟩
      · exact .inl once
  | .branch _ condition thenBody none => (Stmt.placedList thenBody).behind condition.askedOnce
  | .branch _ condition thenBody (some elseBody) =>
    ((Stmt.placedList thenBody).behind condition.askedOnce).append (Stmt.placedList elseBody)
  | .forEach _ loopName columns body =>
    (Stmt.placedList body).behind (loopName.askedOnce.append columns.askedOnce)
  | .whileLoop _ condition body => (Stmt.placedList body).behind condition.askedOnce
  | .attempt _ body handler none => (Stmt.placedList body).append (Handler.placed handler)
  | .attempt _ body handler (some finallyBody) =>
    ((Stmt.placedList body).append (Handler.placed handler)).append (Stmt.placedList finallyBody)
  | .function _ name params body =>
    (Stmt.placedList body).behind (name.askedOnce.append (Ident.askedOnceList params))
  | .declare _ _ names => (Ident.askedOnceList names).placed _
  | .return _ (some value) => value.askedOnce.placed _
  | .return _ none | .word .. | .comment .. => AskedOnce.nil.placed _

theorem Handler.placed : ∀ handler : Handler, Placed handler.assignments handler.parts
  | .absent => AskedOnce.nil.placed _
  | .present none body => Stmt.placedList body
  | .present (some name) body => (Stmt.placedList body).behind name.askedOnce

theorem Stmt.placedList : ∀ statements : List Stmt,
    Placed (Stmt.assignmentsList statements) (Stmt.partsList statements)
  | [] => AskedOnce.nil.placed _
  | statement :: rest => (Stmt.placed statement).append (Stmt.placedList rest)
end

/-- The places of these assignments are all there. -/
def Occupied (assignments : List Assignment) (parts : List (Place × Expr)) : Prop :=
  ∀ assignment ∈ assignments, ∀ part, assignment.Places part → part ∈ parts

theorem Occupied.none (parts : List (Place × Expr)) : Occupied [] parts :=
  List.forall_mem_nil _

theorem Occupied.append {one other : List Assignment} {first second : List (Place × Expr)}
    (left : Occupied one first) (right : Occupied other second) : Occupied (one ++ other) (first ++ second) := by
  intro assignment member part places
  rcases List.mem_append.mp member with inFirst | inSecond
  · exact List.mem_append_left second (left assignment inFirst part places)
  · exact List.mem_append_right first (right assignment inSecond part places)

theorem Occupied.behind {assignments : List Assignment} {parts : List (Place × Expr)}
    (occupied : Occupied assignments parts) (header : List (Place × Expr)) :
    Occupied assignments (header ++ parts) :=
  (Occupied.none header).append occupied

mutual
theorem Stmt.occupied : ∀ statement : Stmt, Occupied statement.assignments statement.parts
  | .assign line targets value => by
    intro assignment member part places
    obtain rfl := List.mem_singleton.mp member
    rcases places with ⟨assigned, target, listed, leads⟩ | rfl
    · obtain ⟨place, expr⟩ := part
      obtain rfl : place = .assigned := assigned
      have there := (Expr.mem_partsList_assigned targets _).mpr ⟨target, listed, leads.mem_parts⟩
      exact List.mem_append_right _ there
    · exact List.mem_append_left _ (value.head_mem_parts _)
  | .branch _ condition thenBody none => (Stmt.occupiedList thenBody).behind _
  | .branch _ condition thenBody (some elseBody) =>
    ((Stmt.occupiedList thenBody).behind _).append (Stmt.occupiedList elseBody)
  | .forEach _ _ _ body | .whileLoop _ _ body | .function _ _ _ body => (Stmt.occupiedList body).behind _
  | .attempt _ body handler none => (Stmt.occupiedList body).append (Handler.occupied handler)
  | .attempt _ body handler (some finallyBody) =>
    ((Stmt.occupiedList body).append (Handler.occupied handler)).append (Stmt.occupiedList finallyBody)
  | .expression .. | .declare .. | .return _ (some _) | .return _ none | .word .. | .comment .. => .none _

theorem Handler.occupied : ∀ handler : Handler, Occupied handler.assignments handler.parts
  | .absent => .none _
  | .present none body => Stmt.occupiedList body
  | .present (some _) body => (Stmt.occupiedList body).behind _

theorem Stmt.occupiedList : ∀ statements : List Stmt,
    Occupied (Stmt.assignmentsList statements) (Stmt.partsList statements)
  | [] => .none _
  | statement :: rest => (Stmt.occupied statement).append (Stmt.occupiedList rest)
end

end ArrayLift
