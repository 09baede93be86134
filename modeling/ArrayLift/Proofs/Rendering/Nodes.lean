import ArrayLift.Proofs.Annotation.Unmarked
import ArrayLift.Proofs.Rendering.Assembly

/-! The nodes of a tree that generation renders, in the order in which it comes to them, and which of them are
malformed. An operation is looked at before its operands, and an assignment after its value. Of the tree nothing is
left out but the name of a result that the text of its operation has no room for. -/
namespace ArrayLift

namespace Code

/-- A node of a tree. An identifier is a node of its own also where it stands as an expression. -/
inductive Node where
  | name (ident : Ident)
  | expression (value : Expr)
  | statement (body : Stmt)

namespace Node

def line? : Node → Option SourceLine
  | .name _ => none
  | .expression value => some value.line
  | .statement body => some body.line

/-- What is wrong with a malformed node, whatever stands inside. -/
def fault? : Node → Option Fault
  | .expression (.operation line spelling operands _) => countFault? line spelling operands.length
  | .statement (.assign line [] _) => some (.noTarget line)
  | .statement (.declare line _ []) => some (.noNames line)
  | _ => none

/-- A fault stands on the line of its node. -/
theorem line?_of_fault? {node : Node} {fault : Fault} (malformed : node.fault? = some fault) :
    node.line? = some fault.line := by
  unfold fault? countFault? at malformed
  split at malformed
  · split at malformed
    · split at malformed <;> cases malformed
      rfl
    · obtain ⟨expected, _, found⟩ := Option.bind_eq_some_iff.mp malformed
      split at found <;> cases found
      rfl
    · cases malformed
  all_goals cases malformed
  all_goals rfl

end Node
end Code

open Code

mutual
/-- An identifier and what is rendered of its default value. -/
def Ident.nodes : Ident → List Node
  | .mk name none role reserved id => [.name (.mk name none role reserved id)]
  | .mk name (some init) role reserved id => .name (.mk name (some init) role reserved id) :: Expr.nodes init

/-- An expression and what is rendered inside, in value position or on the way of a target to its root. -/
def Expr.nodes : Expr → List Node
  | .ident line named => .expression (.ident line named) :: Ident.nodes named
  | .literal line value => [.expression (.literal line value)]
  | .operation line spelling operands none =>
    .expression (.operation line spelling operands none) :: (arranged spelling (Expr.nodesEach operands)).flatten
  | .operation line spelling operands (some result) =>
    .expression (.operation line spelling operands (some result)) ::
      ((if writesResult spelling operands.length then Ident.nodes result else []) ++
        (arranged spelling (Expr.nodesEach operands)).flatten)
  | .field line object name => .expression (.field line object name) :: Expr.nodes object
  | .dynamicField line object selector =>
    .expression (.dynamicField line object selector) :: (Expr.nodes object ++ Expr.nodes selector)
  | .index line form target arguments =>
    .expression (.index line form target arguments) :: (Expr.nodes target ++ (Expr.nodesEach arguments).flatten)
  | .rows line brackets rows => .expression (.rows line brackets rows) :: (Expr.nodesRows rows).flatten
  | .lambda line params body => .expression (.lambda line params body) :: (Ident.nodesList params ++ Expr.nodes body)

def Expr.nodesEach : List Expr → List (List Node)
  | [] => []
  | expr :: rest => Expr.nodes expr :: Expr.nodesEach rest

def Expr.nodesRows : List (List Expr) → List (List Node)
  | [] => []
  | row :: rest => (Expr.nodesEach row).flatten :: Expr.nodesRows rest

def Ident.nodesList : List Ident → List Node
  | [] => []
  | ident :: rest => Ident.nodes ident ++ Ident.nodesList rest
end

mutual
/-- A statement and what is rendered inside. The count of targets is looked at when the value has its text. -/
def Stmt.nodes : Stmt → List Node
  | .expression line value => .statement (.expression line value) :: value.nodes
  | .assign line targets value =>
    value.nodes ++ .statement (.assign line targets value) :: (Expr.nodesEach targets).flatten
  | .branch line condition thenBody none =>
    .statement (.branch line condition thenBody none) :: (condition.nodes ++ Stmt.nodesList thenBody)
  | .branch line condition thenBody (some elseBody) =>
    .statement (.branch line condition thenBody (some elseBody)) ::
      (condition.nodes ++ (Stmt.nodesList thenBody ++ Stmt.nodesList elseBody))
  | .forEach line loopName columns body =>
    .statement (.forEach line loopName columns body) :: (loopName.nodes ++ (columns.nodes ++ Stmt.nodesList body))
  | .whileLoop line condition body =>
    .statement (.whileLoop line condition body) :: (condition.nodes ++ Stmt.nodesList body)
  | .attempt line body handler none =>
    .statement (.attempt line body handler none) :: (Stmt.nodesList body ++ Handler.nodes handler)
  | .attempt line body handler (some finallyBody) =>
    .statement (.attempt line body handler (some finallyBody)) ::
      (Stmt.nodesList body ++ (Handler.nodes handler ++ Stmt.nodesList finallyBody))
  | .function line name params body =>
    .statement (.function line name params body) :: ((name.nodes ++ Ident.nodesList params) ++ Stmt.nodesList body)
  | .declare line declaration names => .statement (.declare line declaration names) :: Ident.nodesList names
  | .return line none => [.statement (.return line none)]
  | .return line (some value) => .statement (.return line (some value)) :: value.nodes
  | .word line word => [.statement (.word line word)]
  | .comment line text => [.statement (.comment line text)]

def Handler.nodes : Handler → List Node
  | .absent => []
  | .present none body => Stmt.nodesList body
  | .present (some name) body => name.nodes ++ Stmt.nodesList body

def Stmt.nodesList : List Stmt → List Node
  | [] => []
  | statement :: rest => Stmt.nodes statement ++ Stmt.nodesList rest
end

/-- The nodes of a program in the order of rendering. -/
def Program.nodes (program : Program) : List Node :=
  Stmt.nodesList program.statements

/-! Operands and rows. -/

namespace Code

def Operand.nodes (operand : Operand) : List Node := operand.expr.nodes

theorem flatMap_nodes_flatten (rows : List (List Operand)) :
    rows.flatten.flatMap Operand.nodes = rows.flatMap (·.flatMap Operand.nodes) := by
  rw [← List.flatMap_id, List.flatMap_assoc]
  rfl

theorem flatMap_nodes_of_hollow {rows : List (List Operand)} (hollow : rows.all List.isEmpty = true) :
    rows.flatMap (·.flatMap Operand.nodes) = [] := by
  refine List.flatMap_eq_nil_iff.mpr fun row member => ?_
  simp [List.isEmpty_iff.mp (List.all_eq_true.mp hollow row member)]

theorem nodesEach_eq (words : ReservedWords) (exprs : List Expr) :
    Expr.nodesEach exprs = (operandsOf words exprs).map Operand.nodes := by
  induction exprs with
  | nil => rfl
  | cons expr rest ih => exact congrArg (Expr.nodes expr :: ·) ih

theorem flatten_nodesEach (words : ReservedWords) (exprs : List Expr) :
    (Expr.nodesEach exprs).flatten = (operandsOf words exprs).flatMap Operand.nodes := by
  rw [nodesEach_eq words, List.flatMap_def]

theorem flatten_nodesEach_eq (exprs : List Expr) : (Expr.nodesEach exprs).flatten = exprs.flatMap Expr.nodes := by
  induction exprs with
  | nil => rfl
  | cons expr rest ih => exact congrArg (Expr.nodes expr ++ ·) ih

theorem flatten_nodesOne (expr : Expr) : (Expr.nodesEach [expr]).flatten = expr.nodes := by
  simp [Expr.nodesEach]

theorem flatten_arranged (words : ReservedWords) (spelling : String) (exprs : List Expr) :
    (arranged spelling (Expr.nodesEach exprs)).flatten
      = (arranged spelling (operandsOf words exprs)).flatMap Operand.nodes := by
  rw [nodesEach_eq words, arranged_map, List.flatMap_def]

theorem flatten_nodesRows (words : ReservedWords) (rows : List (List Expr)) :
    (Expr.nodesRows rows).flatten = (rowsOf words rows).flatMap (·.flatMap Operand.nodes) := by
  induction rows with
  | nil => rfl
  | cons row rest ih => exact congrArg₂ (· ++ ·) (flatten_nodesEach words row) ih

end Code

/-! Annotations have no part in it. -/

namespace Code.Node

def unmarked : Node → Node
  | .name ident => .name ident.unmarked
  | .expression value => .expression value.unmarked
  | .statement body => .statement body.unmarked

end Code.Node

theorem Expr.length_unmarkedList (exprs : List Expr) : (Expr.unmarkedList exprs).length = exprs.length := by
  induction exprs with
  | nil => rfl
  | cons expr rest ih => simp only [Expr.unmarkedList, List.length_cons, ih]

theorem Code.Node.fault?_unmarked (node : Node) : node.unmarked.fault? = node.fault? := by
  match node with
  | .name _ => rfl
  | .expression (.operation line spelling operands result) =>
    cases result <;> simp only [unmarked, Expr.unmarked, fault?, Expr.length_unmarkedList]
  | .statement (.assign _ targets _) => cases targets <;> rfl
  | .statement (.declare _ _ names) => cases names <;> rfl
  | .statement (.branch _ _ _ elseBody) => cases elseBody <;> rfl
  | .statement (.attempt _ _ _ finallyBody) => cases finallyBody <;> rfl
  | .statement (.return _ value) => cases value <;> rfl
  | .expression (.ident ..) | .expression (.literal ..) | .expression (.field ..) | .expression (.dynamicField ..)
  | .expression (.index ..) | .expression (.rows ..) | .expression (.lambda ..) | .statement (.expression ..)
  | .statement (.forEach ..) | .statement (.whileLoop ..) | .statement (.function ..) | .statement (.word ..)
  | .statement (.comment ..) => rfl

mutual
theorem Ident.nodes_unmarked : ∀ ident : Ident, ident.unmarked.nodes = ident.nodes.map Node.unmarked
  | .mk _ none _ _ _ => rfl
  | .mk _ (some init) _ _ _ => by
    simp only [Ident.unmarked, Ident.nodes, Expr.nodes_unmarked init, List.map_cons]
    rfl

theorem Expr.nodes_unmarked : ∀ expr : Expr, expr.unmarked.nodes = expr.nodes.map Node.unmarked
  | .ident line named => congrArg (List.cons _) (Ident.nodes_unmarked named)
  | .literal .. => rfl
  | .operation line spelling operands none => by
    simp only [Expr.unmarked, Expr.nodes, Expr.nodesEach_unmarked operands, arranged_map, List.map_cons,
      List.map_flatten, Node.unmarked]
  | .operation line spelling operands (some result) => by
    simp only [Expr.unmarked, Expr.nodes, Expr.nodesEach_unmarked operands, Ident.nodes_unmarked result,
      Expr.length_unmarkedList, arranged_map, List.map_cons, List.map_append, List.map_flatten, Node.unmarked]
    split <;> rfl
  | .field _ object _ => congrArg (List.cons _) (Expr.nodes_unmarked object)
  | .dynamicField _ object selector => by
    simp only [Expr.unmarked, Expr.nodes, Expr.nodes_unmarked object, Expr.nodes_unmarked selector, List.map_cons,
      List.map_append, Node.unmarked]
  | .index _ _ target arguments => by
    simp only [Expr.unmarked, Expr.nodes, Expr.nodes_unmarked target, Expr.nodesEach_unmarked arguments,
      List.map_cons, List.map_append, List.map_flatten, Node.unmarked]
  | .rows _ _ rows => by
    simp only [Expr.unmarked, Expr.nodes, Expr.nodesRows_unmarked rows, List.map_cons, List.map_flatten,
      Node.unmarked]
  | .lambda _ params body => by
    simp only [Expr.unmarked, Expr.nodes, Ident.nodesList_unmarked params, Expr.nodes_unmarked body, List.map_cons,
      List.map_append, Node.unmarked]

theorem Expr.nodesEach_unmarked : ∀ exprs : List Expr,
    Expr.nodesEach (Expr.unmarkedList exprs) = (Expr.nodesEach exprs).map (List.map Node.unmarked)
  | [] => rfl
  | expr :: rest => congrArg₂ List.cons (Expr.nodes_unmarked expr) (Expr.nodesEach_unmarked rest)

theorem Expr.nodesRows_unmarked : ∀ rows : List (List Expr),
    Expr.nodesRows (Expr.unmarkedRows rows) = (Expr.nodesRows rows).map (List.map Node.unmarked)
  | [] => rfl
  | row :: rest => by
    simp only [Expr.unmarkedRows, Expr.nodesRows, Expr.nodesEach_unmarked row, Expr.nodesRows_unmarked rest,
      List.map_cons, List.map_flatten]

theorem Ident.nodesList_unmarked : ∀ idents : List Ident,
    Ident.nodesList (Ident.unmarkedList idents) = (Ident.nodesList idents).map Node.unmarked
  | [] => rfl
  | ident :: rest => by
    simp only [Ident.unmarkedList, Ident.nodesList, Ident.nodes_unmarked ident, Ident.nodesList_unmarked rest,
      List.map_append]
end

mutual
theorem Stmt.nodes_unmarked : ∀ statement : Stmt, statement.unmarked.nodes = statement.nodes.map Node.unmarked
  | .expression _ value => congrArg (List.cons _) value.nodes_unmarked
  | .assign _ targets value => by
    simp only [Stmt.unmarked, Stmt.nodes, Expr.nodes_unmarked, Expr.nodesEach_unmarked, List.map_cons,
      List.map_append, List.map_flatten, Node.unmarked]
  | .branch _ condition thenBody none => by
    simp only [Stmt.unmarked, Stmt.nodes, Expr.nodes_unmarked, Stmt.nodesList_unmarked thenBody, List.map_cons,
      List.map_append, Node.unmarked]
  | .branch _ condition thenBody (some elseBody) => by
    simp only [Stmt.unmarked, Stmt.nodes, Expr.nodes_unmarked, Stmt.nodesList_unmarked thenBody,
      Stmt.nodesList_unmarked elseBody, List.map_cons, List.map_append, Node.unmarked]
  | .forEach _ loopName columns body => by
    simp only [Stmt.unmarked, Stmt.nodes, Ident.nodes_unmarked, Expr.nodes_unmarked, Stmt.nodesList_unmarked body,
      List.map_cons, List.map_append, Node.unmarked]
  | .whileLoop _ condition body => by
    simp only [Stmt.unmarked, Stmt.nodes, Expr.nodes_unmarked, Stmt.nodesList_unmarked body, List.map_cons,
      List.map_append, Node.unmarked]
  | .attempt _ body handler none => by
    simp only [Stmt.unmarked, Stmt.nodes, Stmt.nodesList_unmarked body, Handler.nodes_unmarked handler,
      List.map_cons, List.map_append, Node.unmarked]
  | .attempt _ body handler (some finallyBody) => by
    simp only [Stmt.unmarked, Stmt.nodes, Stmt.nodesList_unmarked body, Handler.nodes_unmarked handler,
      Stmt.nodesList_unmarked finallyBody, List.map_cons, List.map_append, Node.unmarked]
  | .function _ name params body => by
    simp only [Stmt.unmarked, Stmt.nodes, Ident.nodes_unmarked, Ident.nodesList_unmarked,
      Stmt.nodesList_unmarked body, List.map_cons, List.map_append, Node.unmarked]
  | .declare _ _ names => congrArg (List.cons _) (Ident.nodesList_unmarked names)
  | .return _ none | .word .. | .comment .. => rfl
  | .return _ (some value) => congrArg (List.cons _) value.nodes_unmarked

theorem Handler.nodes_unmarked : ∀ handler : Handler, handler.unmarked.nodes = handler.nodes.map Node.unmarked
  | .absent => rfl
  | .present none body => Stmt.nodesList_unmarked body
  | .present (some name) body => by
    simp only [Handler.unmarked, Option.map, Handler.nodes, Ident.nodes_unmarked, Stmt.nodesList_unmarked body,
      List.map_append]

theorem Stmt.nodesList_unmarked : ∀ statements : List Stmt,
    Stmt.nodesList (Stmt.unmarkedList statements) = (Stmt.nodesList statements).map Node.unmarked
  | [] => rfl
  | statement :: rest => by
    simp only [Stmt.unmarkedList, Stmt.nodesList, Stmt.nodes_unmarked statement, Stmt.nodesList_unmarked rest,
      List.map_append]
end

theorem Program.nodes_unmarked (program : Program) : program.unmarked.nodes = program.nodes.map Node.unmarked :=
  Stmt.nodesList_unmarked program.statements

end ArrayLift
