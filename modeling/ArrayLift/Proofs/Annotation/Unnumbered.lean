import ArrayLift.Resolution.IdentIds
import Mathlib.Logic.Basic

/-! The tree without the identities of its identifiers. Numbering writes nothing else. -/
namespace ArrayLift

mutual
def Ident.unnumbered : Ident → Ident
  | .mk name none role reserved _ => .mk name none role reserved none
  | .mk name (some init) role reserved _ => .mk name (some (Expr.unnumbered init)) role reserved none

def Expr.unnumbered : Expr → Expr
  | .ident line named => .ident line (Ident.unnumbered named)
  | .literal line value => .literal line value
  | .operation line spelling operands none => .operation line spelling (Expr.unnumberedList operands) none
  | .operation line spelling operands (some result) =>
    .operation line spelling (Expr.unnumberedList operands) (some (Ident.unnumbered result))
  | .field line object name => .field line (Expr.unnumbered object) name
  | .dynamicField line object selector => .dynamicField line (Expr.unnumbered object) (Expr.unnumbered selector)
  | .index line form target arguments =>
    .index line form (Expr.unnumbered target) (Expr.unnumberedList arguments)
  | .rows line brackets rows => .rows line brackets (Expr.unnumberedRows rows)
  | .lambda line params body => .lambda line (Ident.unnumberedList params) (Expr.unnumbered body)

def Expr.unnumberedList : List Expr → List Expr
  | [] => []
  | expr :: rest => Expr.unnumbered expr :: Expr.unnumberedList rest

def Expr.unnumberedRows : List (List Expr) → List (List Expr)
  | [] => []
  | row :: rest => Expr.unnumberedList row :: Expr.unnumberedRows rest

def Ident.unnumberedList : List Ident → List Ident
  | [] => []
  | ident :: rest => Ident.unnumbered ident :: Ident.unnumberedList rest
end

mutual
def Stmt.unnumbered : Stmt → Stmt
  | .expression line value => .expression line value.unnumbered
  | .assign line targets value => .assign line (Expr.unnumberedList targets) value.unnumbered
  | .branch line condition thenBody none => .branch line condition.unnumbered (Stmt.unnumberedList thenBody) none
  | .branch line condition thenBody (some elseBody) =>
    .branch line condition.unnumbered (Stmt.unnumberedList thenBody) (some (Stmt.unnumberedList elseBody))
  | .forEach line loopName columns body =>
    .forEach line loopName.unnumbered columns.unnumbered (Stmt.unnumberedList body)
  | .whileLoop line condition body => .whileLoop line condition.unnumbered (Stmt.unnumberedList body)
  | .attempt line body handler none => .attempt line (Stmt.unnumberedList body) (Handler.unnumbered handler) none
  | .attempt line body handler (some finallyBody) =>
    .attempt line (Stmt.unnumberedList body) (Handler.unnumbered handler) (some (Stmt.unnumberedList finallyBody))
  | .function line name params body =>
    .function line name.unnumbered (Ident.unnumberedList params) (Stmt.unnumberedList body)
  | .declare line declaration names => .declare line declaration (Ident.unnumberedList names)
  | .return line none => .return line none
  | .return line (some value) => .return line (some value.unnumbered)
  | .word line word => .word line word
  | .comment line text => .comment line text

def Handler.unnumbered : Handler → Handler
  | .absent => .absent
  | .present name body => .present (name.map Ident.unnumbered) (Stmt.unnumberedList body)

def Stmt.unnumberedList : List Stmt → List Stmt
  | [] => []
  | statement :: rest => Stmt.unnumbered statement :: Stmt.unnumberedList rest
end

def Program.unnumbered (program : Program) : Program :=
  ⟨Stmt.unnumberedList program.statements⟩

mutual
theorem Ident.unnumbered_withIds : ∀ (ident : Ident) (next : Nat), (ident.withIds next).1.unnumbered = ident.unnumbered
  | .mk _ none _ _ _, _ => rfl
  | .mk _ (some init) _ _ _, next => by
    simp only [Ident.withIds, Ident.unnumbered, Expr.unnumbered_withIds init]

theorem Expr.unnumbered_withIds : ∀ (expr : Expr) (next : Nat), (expr.withIds next).1.unnumbered = expr.unnumbered
  | .ident line named, next => congrArg (Expr.ident line) (Ident.unnumbered_withIds named next)
  | .literal .., _ => rfl
  | .operation line spelling operands none, next => by
    simp only [Expr.withIds, Expr.unnumbered, Expr.unnumbered_withIdsList operands]
  | .operation line spelling operands (some result), next => by
    simp only [Expr.withIds, Expr.unnumbered, Expr.unnumbered_withIdsList operands, Ident.unnumbered_withIds result]
  | .field line object name, next => by simp only [Expr.withIds, Expr.unnumbered, Expr.unnumbered_withIds object]
  | .dynamicField line object selector, next => by
    simp only [Expr.withIds, Expr.unnumbered, Expr.unnumbered_withIds object, Expr.unnumbered_withIds selector]
  | .index line form target arguments, next => by
    simp only [Expr.withIds, Expr.unnumbered, Expr.unnumbered_withIds target, Expr.unnumbered_withIdsList arguments]
  | .rows line brackets rows, next => by simp only [Expr.withIds, Expr.unnumbered, Expr.unnumbered_withIdsRows rows]
  | .lambda line params body, next => by
    simp only [Expr.withIds, Expr.unnumbered, Ident.unnumbered_withIdsList params, Expr.unnumbered_withIds body]

theorem Expr.unnumbered_withIdsList : ∀ (exprs : List Expr) (next : Nat),
    Expr.unnumberedList (Expr.withIdsList exprs next).1 = Expr.unnumberedList exprs
  | [], _ => rfl
  | expr :: rest, next =>
    congrArg₂ List.cons (Expr.unnumbered_withIds expr next) (Expr.unnumbered_withIdsList rest _)

theorem Expr.unnumbered_withIdsRows : ∀ (rows : List (List Expr)) (next : Nat),
    Expr.unnumberedRows (Expr.withIdsRows rows next).1 = Expr.unnumberedRows rows
  | [], _ => rfl
  | row :: rest, next =>
    congrArg₂ List.cons (Expr.unnumbered_withIdsList row next) (Expr.unnumbered_withIdsRows rest _)

theorem Ident.unnumbered_withIdsList : ∀ (idents : List Ident) (next : Nat),
    Ident.unnumberedList (Ident.withIdsList idents next).1 = Ident.unnumberedList idents
  | [], _ => rfl
  | ident :: rest, next =>
    congrArg₂ List.cons (Ident.unnumbered_withIds ident next) (Ident.unnumbered_withIdsList rest _)
end

mutual
theorem Stmt.unnumbered_withIds : ∀ (statement : Stmt) (next : Nat),
    (statement.withIds next).1.unnumbered = statement.unnumbered
  | .expression line value, next => congrArg (Stmt.expression line) (value.unnumbered_withIds next)
  | .assign line targets value, next => by
    simp only [Stmt.withIds, Stmt.unnumbered, Expr.unnumbered_withIds, Expr.unnumbered_withIdsList]
  | .branch line condition thenBody none, next => by
    simp only [Stmt.withIds, Stmt.unnumbered, Expr.unnumbered_withIds, Stmt.unnumbered_withIdsList thenBody]
  | .branch line condition thenBody (some elseBody), next => by
    simp only [Stmt.withIds, Stmt.unnumbered, Expr.unnumbered_withIds, Stmt.unnumbered_withIdsList thenBody,
      Stmt.unnumbered_withIdsList elseBody]
  | .forEach line loopName columns body, next => by
    simp only [Stmt.withIds, Stmt.unnumbered, Ident.unnumbered_withIds, Expr.unnumbered_withIds,
      Stmt.unnumbered_withIdsList body]
  | .whileLoop line condition body, next => by
    simp only [Stmt.withIds, Stmt.unnumbered, Expr.unnumbered_withIds, Stmt.unnumbered_withIdsList body]
  | .attempt line body handler none, next => by
    simp only [Stmt.withIds, Stmt.unnumbered, Stmt.unnumbered_withIdsList body, Handler.unnumbered_withIds handler]
  | .attempt line body handler (some finallyBody), next => by
    simp only [Stmt.withIds, Stmt.unnumbered, Stmt.unnumbered_withIdsList body, Handler.unnumbered_withIds handler,
      Stmt.unnumbered_withIdsList finallyBody]
  | .function line name params body, next => by
    simp only [Stmt.withIds, Stmt.unnumbered, Ident.unnumbered_withIds, Ident.unnumbered_withIdsList,
      Stmt.unnumbered_withIdsList body]
  | .declare line declaration names, next =>
    congrArg (Stmt.declare line declaration) (Ident.unnumbered_withIdsList names next)
  | .return _ none, _ | .word .., _ | .comment .., _ => rfl
  | .return line (some value), next => congrArg (Stmt.return line ∘ some) (value.unnumbered_withIds next)

theorem Handler.unnumbered_withIds : ∀ (handler : Handler) (next : Nat),
    (handler.withIds next).1.unnumbered = handler.unnumbered
  | .absent, _ => rfl
  | .present none body, next => congrArg (Handler.present none) (Stmt.unnumbered_withIdsList body next)
  | .present (some name) body, next =>
    congrArg₂ (fun name => Handler.present (some name)) (name.unnumbered_withIds next)
      (Stmt.unnumbered_withIdsList body _)

theorem Stmt.unnumbered_withIdsList : ∀ (statements : List Stmt) (next : Nat),
    Stmt.unnumberedList (Stmt.withIdsList statements next).1 = Stmt.unnumberedList statements
  | [], _ => rfl
  | statement :: rest, next =>
    congrArg₂ List.cons (Stmt.unnumbered_withIds statement next) (Stmt.unnumbered_withIdsList rest _)
end

/-- Numbering writes identities, and nothing else. -/
theorem Program.unnumbered_withIds (program : Program) : program.withIds.1.unnumbered = program.unnumbered :=
  congrArg Program.mk (Stmt.unnumbered_withIdsList program.statements 0)

end ArrayLift
