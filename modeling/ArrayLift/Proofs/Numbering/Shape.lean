import ArrayLift.Resolution.IdentIds

/-! The shape of a program: a tree that shows where identifiers stand and nothing else. What a node of the syntax is,
and how it is spelled, is left out. Numbering is the count of a walk over this tree that comes to every identifier
before the parts below it, and to the parts of a node from left to right. -/
namespace ArrayLift

/-- A tree in which some nodes are identifiers, each with a label. -/
inductive Shape (α : Type) where
  | ident (label : α) (parts : List (Shape α))
  | node (parts : List (Shape α))

namespace Shape

variable {α : Type}

mutual
/-- Label the identifiers with a count from a first number on, depth first; the second part is the next number. -/
def count : Shape α → Nat → Shape (Option IdentId) × Nat
  | .ident _ parts, next =>
    let (parts, after) := countList parts (next + 1)
    (.ident (some next) parts, after)
  | .node parts, next =>
    let (parts, after) := countList parts next
    (.node parts, after)

def countList : List (Shape α) → Nat → List (Shape (Option IdentId)) × Nat
  | [], next => ([], next)
  | shape :: rest, next =>
    let (shape, next) := count shape next
    let (rest, next) := countList rest next
    (shape :: rest, next)
end

theorem countList_append (one other : List (Shape α)) (next : Nat) :
    countList (one ++ other) next =
      ((countList one next).1 ++ (countList other (countList one next).2).1,
        (countList other (countList one next).2).2) := by
  induction one generalizing next with
  | nil => rfl
  | cons shape rest ih => simp only [List.cons_append, countList, ih]

end Shape

section
variable {α : Type} (label : Ident → α)

mutual
/-- An identifier; its default value stands below it. -/
def Ident.shape : Ident → Shape α
  | .mk name none role reserved id => .ident (label (.mk name none role reserved id)) []
  | .mk name (some init) role reserved id =>
    .ident (label (.mk name (some init) role reserved id)) [Expr.shape init]

def Expr.shape : Expr → Shape α
  | .ident _ named => .node [Ident.shape named]
  | .literal .. => .node []
  | .operation _ _ operands none => .node (Expr.shapeList operands)
  | .operation _ _ operands (some result) => .node (Expr.shapeList operands ++ [Ident.shape result])
  | .field _ object _ => .node [Expr.shape object]
  | .dynamicField _ object selector => .node [Expr.shape object, Expr.shape selector]
  | .index _ _ target arguments => .node (Expr.shape target :: Expr.shapeList arguments)
  | .rows _ _ rows => .node (Expr.shapeRows rows)
  | .lambda _ params body => .node (Ident.shapeList params ++ [Expr.shape body])

def Expr.shapeList : List Expr → List (Shape α)
  | [] => []
  | expr :: rest => Expr.shape expr :: Expr.shapeList rest

def Expr.shapeRows : List (List Expr) → List (Shape α)
  | [] => []
  | row :: rest => .node (Expr.shapeList row) :: Expr.shapeRows rest

def Ident.shapeList : List Ident → List (Shape α)
  | [] => []
  | ident :: rest => Ident.shape ident :: Ident.shapeList rest
end

mutual
def Stmt.shape : Stmt → Shape α
  | .expression _ value => .node [value.shape label]
  | .assign _ targets value => .node (Expr.shapeList label targets ++ [value.shape label])
  | .branch _ condition thenBody none => .node [condition.shape label, .node (Stmt.shapeList thenBody)]
  | .branch _ condition thenBody (some elseBody) =>
    .node [condition.shape label, .node (Stmt.shapeList thenBody), .node (Stmt.shapeList elseBody)]
  | .forEach _ loopName columns body =>
    .node [loopName.shape label, columns.shape label, .node (Stmt.shapeList body)]
  | .whileLoop _ condition body => .node [condition.shape label, .node (Stmt.shapeList body)]
  | .attempt _ body handler none => .node [.node (Stmt.shapeList body), Handler.shape handler]
  | .attempt _ body handler (some finallyBody) =>
    .node [.node (Stmt.shapeList body), Handler.shape handler, .node (Stmt.shapeList finallyBody)]
  | .function _ name params body =>
    .node [name.shape label, .node (Ident.shapeList label params), .node (Stmt.shapeList body)]
  | .declare _ _ names => .node (Ident.shapeList label names)
  | .return _ none => .node []
  | .return _ (some value) => .node [value.shape label]
  | .word .. => .node []
  | .comment .. => .node []

def Handler.shape : Handler → Shape α
  | .absent => .node []
  | .present none body => .node [.node (Stmt.shapeList body)]
  | .present (some name) body => .node [name.shape label, .node (Stmt.shapeList body)]

def Stmt.shapeList : List Stmt → List (Shape α)
  | [] => []
  | statement :: rest => Stmt.shape statement :: Stmt.shapeList rest
end

def Program.shape (program : Program) : Shape α :=
  .node (Stmt.shapeList label program.statements)

/-! Numbering. -/

mutual
/-- Whatever the labels are, the count over the shape of a tree is the shape of the numbered tree. -/
theorem Ident.count_shape : ∀ (ident : Ident) (next : Nat),
    (ident.shape label).count next = ((ident.withIds next).1.shape Ident.id, (ident.withIds next).2)
  | .mk _ none _ _ _, _ => rfl
  | .mk _ (some init) _ _ _, next => by
    simp only [Ident.shape, Shape.count, Shape.countList, Ident.withIds, Expr.count_shape init, Ident.id]

theorem Expr.count_shape : ∀ (expr : Expr) (next : Nat),
    (expr.shape label).count next = ((expr.withIds next).1.shape Ident.id, (expr.withIds next).2)
  | .ident _ named, next => by
    simp only [Expr.shape, Shape.count, Shape.countList, Expr.withIds, Ident.count_shape named]
  | .literal .., _ => rfl
  | .operation _ _ operands none, next => by
    simp only [Expr.shape, Shape.count, Expr.withIds, Expr.count_shapeList operands]
  | .operation _ _ operands (some result), next => by
    simp only [Expr.shape, Shape.count, Shape.countList_append, Shape.countList, Expr.withIds,
      Expr.count_shapeList operands, Ident.count_shape result]
  | .field _ object _, next => by
    simp only [Expr.shape, Shape.count, Shape.countList, Expr.withIds, Expr.count_shape object]
  | .dynamicField _ object selector, next => by
    simp only [Expr.shape, Shape.count, Shape.countList, Expr.withIds, Expr.count_shape object,
      Expr.count_shape selector]
  | .index _ _ target arguments, next => by
    simp only [Expr.shape, Shape.count, Shape.countList, Expr.withIds, Expr.count_shape target,
      Expr.count_shapeList arguments]
  | .rows _ _ rows, next => by
    simp only [Expr.shape, Shape.count, Expr.withIds, Expr.count_shapeRows rows]
  | .lambda _ params body, next => by
    simp only [Expr.shape, Shape.count, Shape.countList_append, Shape.countList, Expr.withIds,
      Ident.count_shapeList params, Expr.count_shape body]

theorem Expr.count_shapeList : ∀ (exprs : List Expr) (next : Nat),
    Shape.countList (Expr.shapeList label exprs) next =
      (Expr.shapeList Ident.id (Expr.withIdsList exprs next).1, (Expr.withIdsList exprs next).2)
  | [], _ => rfl
  | expr :: rest, next => by
    simp only [Expr.shapeList, Shape.countList, Expr.withIdsList, Expr.count_shape expr, Expr.count_shapeList rest]

theorem Expr.count_shapeRows : ∀ (rows : List (List Expr)) (next : Nat),
    Shape.countList (Expr.shapeRows label rows) next =
      (Expr.shapeRows Ident.id (Expr.withIdsRows rows next).1, (Expr.withIdsRows rows next).2)
  | [], _ => rfl
  | row :: rest, next => by
    simp only [Expr.shapeRows, Shape.count, Shape.countList, Expr.withIdsRows, Expr.count_shapeList row,
      Expr.count_shapeRows rest]

theorem Ident.count_shapeList : ∀ (idents : List Ident) (next : Nat),
    Shape.countList (Ident.shapeList label idents) next =
      (Ident.shapeList Ident.id (Ident.withIdsList idents next).1, (Ident.withIdsList idents next).2)
  | [], _ => rfl
  | ident :: rest, next => by
    simp only [Ident.shapeList, Shape.countList, Ident.withIdsList, Ident.count_shape ident,
      Ident.count_shapeList rest]
end

mutual
theorem Stmt.count_shape : ∀ (statement : Stmt) (next : Nat),
    (statement.shape label).count next = ((statement.withIds next).1.shape Ident.id, (statement.withIds next).2)
  | .expression _ value, next => by
    simp only [Stmt.shape, Shape.count, Shape.countList, Stmt.withIds, Expr.count_shape]
  | .assign _ targets value, next => by
    simp only [Stmt.shape, Shape.count, Shape.countList_append, Shape.countList, Stmt.withIds, Expr.count_shapeList,
      Expr.count_shape]
  | .branch _ condition thenBody none, next => by
    simp only [Stmt.shape, Shape.count, Shape.countList, Stmt.withIds, Expr.count_shape,
      Stmt.count_shapeList thenBody]
  | .branch _ condition thenBody (some elseBody), next => by
    simp only [Stmt.shape, Shape.count, Shape.countList, Stmt.withIds, Expr.count_shape,
      Stmt.count_shapeList thenBody, Stmt.count_shapeList elseBody]
  | .forEach _ loopName columns body, next => by
    simp only [Stmt.shape, Shape.count, Shape.countList, Stmt.withIds, Ident.count_shape, Expr.count_shape,
      Stmt.count_shapeList body]
  | .whileLoop _ condition body, next => by
    simp only [Stmt.shape, Shape.count, Shape.countList, Stmt.withIds, Expr.count_shape, Stmt.count_shapeList body]
  | .attempt _ body handler none, next => by
    simp only [Stmt.shape, Shape.count, Shape.countList, Stmt.withIds, Stmt.count_shapeList body,
      Handler.count_shape handler]
  | .attempt _ body handler (some finallyBody), next => by
    simp only [Stmt.shape, Shape.count, Shape.countList, Stmt.withIds, Stmt.count_shapeList body,
      Handler.count_shape handler, Stmt.count_shapeList finallyBody]
  | .function _ name params body, next => by
    simp only [Stmt.shape, Shape.count, Shape.countList, Stmt.withIds, Ident.count_shape, Ident.count_shapeList,
      Stmt.count_shapeList body]
  | .declare _ _ names, next => by simp only [Stmt.shape, Shape.count, Stmt.withIds, Ident.count_shapeList]
  | .return _ none, _ | .word .., _ | .comment .., _ => rfl
  | .return _ (some value), next => by
    simp only [Stmt.shape, Shape.count, Shape.countList, Stmt.withIds, Expr.count_shape]

theorem Handler.count_shape : ∀ (handler : Handler) (next : Nat),
    (handler.shape label).count next = ((handler.withIds next).1.shape Ident.id, (handler.withIds next).2)
  | .absent, _ => rfl
  | .present none body, next => by
    simp only [Handler.shape, Shape.count, Shape.countList, Handler.withIds, Ident.withIdsOption,
      Stmt.count_shapeList body]
  | .present (some name) body, next => by
    simp only [Handler.shape, Shape.count, Shape.countList, Handler.withIds, Ident.withIdsOption, Ident.count_shape,
      Stmt.count_shapeList body]

theorem Stmt.count_shapeList : ∀ (statements : List Stmt) (next : Nat),
    Shape.countList (Stmt.shapeList label statements) next =
      (Stmt.shapeList Ident.id (Stmt.withIdsList statements next).1, (Stmt.withIdsList statements next).2)
  | [], _ => rfl
  | statement :: rest, next => by
    simp only [Stmt.shapeList, Shape.countList, Stmt.withIdsList, Stmt.count_shape statement,
      Stmt.count_shapeList rest]
end

/-- Numbering is the count over the shape. -/
theorem Program.count_shape (program : Program) :
    (program.shape label).count 0 = (program.withIds.1.shape Ident.id, program.withIds.2) := by
  simp only [Program.shape, Shape.count, Program.withIds, Stmt.count_shapeList]

end
end ArrayLift
