import ArrayLift.Resolution.Annotation
import ArrayLift.Resolution.IdentIds
import Mathlib.Logic.Basic

/-! The tree without what resolution writes into it: identities, roles, reserved flags, and the choice between
indexing and calling. Numbering and annotation leave everything else alone. -/
namespace ArrayLift

/-- Braces stay what they are; all parentheses are undecided. -/
def IndexForm.unmarked : IndexForm → IndexForm
  | .cellRef => .cellRef
  | _ => .apply

mutual
def Ident.unmarked : Ident → Ident
  | .mk name none _ _ _ => .named name
  | .mk name (some init) _ _ _ => .mk name (some (Expr.unmarked init)) .unknown false none

def Expr.unmarked : Expr → Expr
  | .ident line named => .ident line (Ident.unmarked named)
  | .literal line value => .literal line value
  | .operation line spelling operands none => .operation line spelling (Expr.unmarkedList operands) none
  | .operation line spelling operands (some result) =>
    .operation line spelling (Expr.unmarkedList operands) (some (Ident.unmarked result))
  | .field line object name => .field line (Expr.unmarked object) name
  | .dynamicField line object selector => .dynamicField line (Expr.unmarked object) (Expr.unmarked selector)
  | .index line form target arguments =>
    .index line form.unmarked (Expr.unmarked target) (Expr.unmarkedList arguments)
  | .rows line brackets rows => .rows line brackets (Expr.unmarkedRows rows)
  | .lambda line params body => .lambda line (Ident.unmarkedList params) (Expr.unmarked body)

def Expr.unmarkedList : List Expr → List Expr
  | [] => []
  | expr :: rest => Expr.unmarked expr :: Expr.unmarkedList rest

def Expr.unmarkedRows : List (List Expr) → List (List Expr)
  | [] => []
  | row :: rest => Expr.unmarkedList row :: Expr.unmarkedRows rest

def Ident.unmarkedList : List Ident → List Ident
  | [] => []
  | ident :: rest => Ident.unmarked ident :: Ident.unmarkedList rest
end

mutual
def Stmt.unmarked : Stmt → Stmt
  | .expression line value => .expression line value.unmarked
  | .assign line targets value => .assign line (Expr.unmarkedList targets) value.unmarked
  | .branch line condition thenBody none => .branch line condition.unmarked (Stmt.unmarkedList thenBody) none
  | .branch line condition thenBody (some elseBody) =>
    .branch line condition.unmarked (Stmt.unmarkedList thenBody) (some (Stmt.unmarkedList elseBody))
  | .forEach line loopName columns body =>
    .forEach line loopName.unmarked columns.unmarked (Stmt.unmarkedList body)
  | .whileLoop line condition body => .whileLoop line condition.unmarked (Stmt.unmarkedList body)
  | .attempt line body handler none => .attempt line (Stmt.unmarkedList body) (Handler.unmarked handler) none
  | .attempt line body handler (some finallyBody) =>
    .attempt line (Stmt.unmarkedList body) (Handler.unmarked handler) (some (Stmt.unmarkedList finallyBody))
  | .function line name params body =>
    .function line name.unmarked (Ident.unmarkedList params) (Stmt.unmarkedList body)
  | .declare line declaration names => .declare line declaration (Ident.unmarkedList names)
  | .return line none => .return line none
  | .return line (some value) => .return line (some value.unmarked)
  | .word line word => .word line word
  | .comment line text => .comment line text

def Handler.unmarked : Handler → Handler
  | .absent => .absent
  | .present name body => .present (name.map Ident.unmarked) (Stmt.unmarkedList body)

def Stmt.unmarkedList : List Stmt → List Stmt
  | [] => []
  | statement :: rest => Stmt.unmarked statement :: Stmt.unmarkedList rest
end

def Program.unmarked (program : Program) : Program :=
  ⟨Stmt.unmarkedList program.statements⟩

mutual
theorem Ident.unmarked_withIds : ∀ (ident : Ident) (next : Nat), (ident.withIds next).1.unmarked = ident.unmarked
  | .mk _ none _ _ _, _ => rfl
  | .mk _ (some init) _ _ _, next => by
    simp only [Ident.withIds, Ident.unmarked, Expr.unmarked_withIds init]

theorem Expr.unmarked_withIds : ∀ (expr : Expr) (next : Nat), (expr.withIds next).1.unmarked = expr.unmarked
  | .ident line named, next => congrArg (Expr.ident line) (Ident.unmarked_withIds named next)
  | .literal .., _ => rfl
  | .operation line spelling operands none, next => by
    simp only [Expr.withIds, Expr.unmarked, Expr.unmarked_withIdsList operands]
  | .operation line spelling operands (some result), next => by
    simp only [Expr.withIds, Expr.unmarked, Expr.unmarked_withIdsList operands, Ident.unmarked_withIds result]
  | .field line object name, next => by simp only [Expr.withIds, Expr.unmarked, Expr.unmarked_withIds object]
  | .dynamicField line object selector, next => by
    simp only [Expr.withIds, Expr.unmarked, Expr.unmarked_withIds object, Expr.unmarked_withIds selector]
  | .index line form target arguments, next => by
    simp only [Expr.withIds, Expr.unmarked, Expr.unmarked_withIds target, Expr.unmarked_withIdsList arguments]
  | .rows line brackets rows, next => by simp only [Expr.withIds, Expr.unmarked, Expr.unmarked_withIdsRows rows]
  | .lambda line params body, next => by
    simp only [Expr.withIds, Expr.unmarked, Ident.unmarked_withIdsList params, Expr.unmarked_withIds body]

theorem Expr.unmarked_withIdsList : ∀ (exprs : List Expr) (next : Nat),
    Expr.unmarkedList (Expr.withIdsList exprs next).1 = Expr.unmarkedList exprs
  | [], _ => rfl
  | expr :: rest, next =>
    congrArg₂ List.cons (Expr.unmarked_withIds expr next) (Expr.unmarked_withIdsList rest _)

theorem Expr.unmarked_withIdsRows : ∀ (rows : List (List Expr)) (next : Nat),
    Expr.unmarkedRows (Expr.withIdsRows rows next).1 = Expr.unmarkedRows rows
  | [], _ => rfl
  | row :: rest, next =>
    congrArg₂ List.cons (Expr.unmarked_withIdsList row next) (Expr.unmarked_withIdsRows rest _)

theorem Ident.unmarked_withIdsList : ∀ (idents : List Ident) (next : Nat),
    Ident.unmarkedList (Ident.withIdsList idents next).1 = Ident.unmarkedList idents
  | [], _ => rfl
  | ident :: rest, next =>
    congrArg₂ List.cons (Ident.unmarked_withIds ident next) (Ident.unmarked_withIdsList rest _)
end

mutual
theorem Stmt.unmarked_withIds : ∀ (statement : Stmt) (next : Nat),
    (statement.withIds next).1.unmarked = statement.unmarked
  | .expression line value, next => congrArg (Stmt.expression line) (value.unmarked_withIds next)
  | .assign line targets value, next => by
    simp only [Stmt.withIds, Stmt.unmarked, Expr.unmarked_withIds, Expr.unmarked_withIdsList]
  | .branch line condition thenBody none, next => by
    simp only [Stmt.withIds, Stmt.unmarked, Expr.unmarked_withIds, Stmt.unmarked_withIdsList thenBody]
  | .branch line condition thenBody (some elseBody), next => by
    simp only [Stmt.withIds, Stmt.unmarked, Expr.unmarked_withIds, Stmt.unmarked_withIdsList thenBody,
      Stmt.unmarked_withIdsList elseBody]
  | .forEach line loopName columns body, next => by
    simp only [Stmt.withIds, Stmt.unmarked, Ident.unmarked_withIds, Expr.unmarked_withIds,
      Stmt.unmarked_withIdsList body]
  | .whileLoop line condition body, next => by
    simp only [Stmt.withIds, Stmt.unmarked, Expr.unmarked_withIds, Stmt.unmarked_withIdsList body]
  | .attempt line body handler none, next => by
    simp only [Stmt.withIds, Stmt.unmarked, Stmt.unmarked_withIdsList body, Handler.unmarked_withIds handler]
  | .attempt line body handler (some finallyBody), next => by
    simp only [Stmt.withIds, Stmt.unmarked, Stmt.unmarked_withIdsList body, Handler.unmarked_withIds handler,
      Stmt.unmarked_withIdsList finallyBody]
  | .function line name params body, next => by
    simp only [Stmt.withIds, Stmt.unmarked, Ident.unmarked_withIds, Ident.unmarked_withIdsList,
      Stmt.unmarked_withIdsList body]
  | .declare line declaration names, next =>
    congrArg (Stmt.declare line declaration) (Ident.unmarked_withIdsList names next)
  | .return _ none, _ | .word .., _ | .comment .., _ => rfl
  | .return line (some value), next => congrArg (Stmt.return line ∘ some) (value.unmarked_withIds next)

theorem Handler.unmarked_withIds : ∀ (handler : Handler) (next : Nat),
    (handler.withIds next).1.unmarked = handler.unmarked
  | .absent, _ => rfl
  | .present none body, next => congrArg (Handler.present none) (Stmt.unmarked_withIdsList body next)
  | .present (some name) body, next =>
    congrArg₂ (fun name => Handler.present (some name)) (name.unmarked_withIds next)
      (Stmt.unmarked_withIdsList body _)

theorem Stmt.unmarked_withIdsList : ∀ (statements : List Stmt) (next : Nat),
    Stmt.unmarkedList (Stmt.withIdsList statements next).1 = Stmt.unmarkedList statements
  | [], _ => rfl
  | statement :: rest, next =>
    congrArg₂ List.cons (Stmt.unmarked_withIds statement next) (Stmt.unmarked_withIdsList rest _)
end

/-- Numbering writes nothing but identities. -/
theorem Program.unmarked_withIds (program : Program) : program.withIds.1.unmarked = program.unmarked :=
  congrArg Program.mk (Stmt.unmarked_withIdsList program.statements 0)

theorem IndexForm.unmarked_decided (form : IndexForm) (place : Place) (target : Expr) :
    (form.decided place target).unmarked = form.unmarked := by
  cases form with
  | cellRef => cases place <;> rfl
  | apply | arrayRef | call =>
    cases place with
    | assigned => rfl
    | value results =>
      simp only [decided]
      split <;> rfl

section
variable (table : ScopeTable) (words : ReservedWords)

mutual
theorem Ident.unmarked_annotate : ∀ ident : Ident, (ident.annotate table words).1.unmarked = ident.unmarked
  | .mk _ none _ _ _ => rfl
  | .mk _ (some init) _ _ _ => by simp only [Ident.annotate, Ident.unmarked, Expr.unmarked_annotate init]

theorem Expr.unmarked_annotate : ∀ (expr : Expr) (place : Place),
    (expr.annotate table words place).1.unmarked = expr.unmarked
  | .ident line named, _ => congrArg (Expr.ident line) (Ident.unmarked_annotate named)
  | .literal .., _ => rfl
  | .operation line spelling operands none, _ => by
    simp only [Expr.annotate, Expr.unmarked, Expr.unmarked_annotateList operands]
  | .operation line spelling operands (some result), _ => by
    simp only [Expr.annotate, Expr.unmarked, Expr.unmarked_annotateList operands, Ident.unmarked_annotate result]
  | .field line object name, place => by simp only [Expr.annotate, Expr.unmarked, Expr.unmarked_annotate object]
  | .dynamicField line object selector, place => by
    simp only [Expr.annotate, Expr.unmarked, Expr.unmarked_annotate object, Expr.unmarked_annotate selector]
  | .index line form target arguments, place => by
    simp only [Expr.annotate, Expr.unmarked, IndexForm.unmarked_decided, Expr.unmarked_annotate target,
      Expr.unmarked_annotateList arguments]
  | .rows line brackets rows, _ => by simp only [Expr.annotate, Expr.unmarked, Expr.unmarked_annotateRows rows]
  | .lambda line params body, _ => by
    simp only [Expr.annotate, Expr.unmarked, Ident.unmarked_annotateList params, Expr.unmarked_annotate body]

theorem Expr.unmarked_annotateList : ∀ (exprs : List Expr) (place : Place),
    Expr.unmarkedList (Expr.annotateList table words exprs place).1 = Expr.unmarkedList exprs
  | [], _ => rfl
  | expr :: rest, place =>
    congrArg₂ List.cons (Expr.unmarked_annotate expr place) (Expr.unmarked_annotateList rest place)

theorem Expr.unmarked_annotateRows : ∀ rows : List (List Expr),
    Expr.unmarkedRows (Expr.annotateRows table words rows).1 = Expr.unmarkedRows rows
  | [] => rfl
  | row :: rest =>
    congrArg₂ List.cons (Expr.unmarked_annotateList row (.value 1)) (Expr.unmarked_annotateRows rest)

theorem Ident.unmarked_annotateList : ∀ idents : List Ident,
    Ident.unmarkedList (Ident.annotateList table words idents).1 = Ident.unmarkedList idents
  | [] => rfl
  | ident :: rest => congrArg₂ List.cons (Ident.unmarked_annotate ident) (Ident.unmarked_annotateList rest)
end

mutual
theorem Stmt.unmarked_annotate : ∀ statement : Stmt,
    (statement.annotate table words).1.unmarked = statement.unmarked
  | .expression line value => congrArg (Stmt.expression line) (value.unmarked_annotate table words (.value 1))
  | .assign line targets value => by
    simp only [Stmt.annotate, Stmt.unmarked, Expr.unmarked_annotate, Expr.unmarked_annotateList]
  | .branch line condition thenBody none => by
    simp only [Stmt.annotate, Stmt.unmarked, Expr.unmarked_annotate, Stmt.unmarked_annotateList thenBody]
  | .branch line condition thenBody (some elseBody) => by
    simp only [Stmt.annotate, Stmt.unmarked, Expr.unmarked_annotate, Stmt.unmarked_annotateList thenBody,
      Stmt.unmarked_annotateList elseBody]
  | .forEach line loopName columns body => by
    simp only [Stmt.annotate, Stmt.unmarked, Ident.unmarked_annotate, Expr.unmarked_annotate,
      Stmt.unmarked_annotateList body]
  | .whileLoop line condition body => by
    simp only [Stmt.annotate, Stmt.unmarked, Expr.unmarked_annotate, Stmt.unmarked_annotateList body]
  | .attempt line body handler none => by
    simp only [Stmt.annotate, Stmt.unmarked, Stmt.unmarked_annotateList body, Handler.unmarked_annotate handler]
  | .attempt line body handler (some finallyBody) => by
    simp only [Stmt.annotate, Stmt.unmarked, Stmt.unmarked_annotateList body, Handler.unmarked_annotate handler,
      Stmt.unmarked_annotateList finallyBody]
  | .function line name params body => by
    simp only [Stmt.annotate, Stmt.unmarked, Ident.unmarked_annotate, Ident.unmarked_annotateList,
      Stmt.unmarked_annotateList body]
  | .declare line declaration names =>
    congrArg (Stmt.declare line declaration) (Ident.unmarked_annotateList table words names)
  | .return _ none | .word .. | .comment .. => rfl
  | .return line (some value) => congrArg (Stmt.return line ∘ some) (value.unmarked_annotate table words (.value 1))

theorem Handler.unmarked_annotate : ∀ handler : Handler,
    (handler.annotate table words).1.unmarked = handler.unmarked
  | .absent => rfl
  | .present none body => congrArg (Handler.present none) (Stmt.unmarked_annotateList body)
  | .present (some name) body =>
    congrArg₂ (fun name => Handler.present (some name)) (name.unmarked_annotate table words)
      (Stmt.unmarked_annotateList body)

theorem Stmt.unmarked_annotateList : ∀ statements : List Stmt,
    Stmt.unmarkedList (Stmt.annotateList table words statements).1 = Stmt.unmarkedList statements
  | [] => rfl
  | statement :: rest => congrArg₂ List.cons (Stmt.unmarked_annotate statement) (Stmt.unmarked_annotateList rest)
end

/-- Annotation writes nothing but marks. -/
theorem Program.unmarked_annotate (program : Program) :
    (program.annotate table words).1.unmarked = program.unmarked :=
  congrArg Program.mk (Stmt.unmarked_annotateList table words program.statements)

end
end ArrayLift
