import ArrayLift.Tree.Syntax

/-! Identities for the identifiers of a tree: every occurrence gets the count of occurrences before
it, in one depth-first order that depends on the shape of the tree alone. -/
namespace ArrayLift

mutual
/-- Number an identifier, then its default value; the second part is the next free number. -/
def Ident.withIds : Ident → Nat → Ident × Nat
  | .mk name none role reserved _, next => (.mk name none role reserved (some next), next + 1)
  | .mk name (some init) role reserved _, next =>
    let (init, after) := Expr.withIds init (next + 1)
    (.mk name (some init) role reserved (some next), after)

/-- Number the identifiers of an expression: operands before the result name, a target before its
arguments, parameters before the body. -/
def Expr.withIds : Expr → Nat → Expr × Nat
  | .ident line named, next =>
    let (named, next) := Ident.withIds named next
    (.ident line named, next)
  | .literal line value, next => (.literal line value, next)
  | .operation line spelling operands none, next =>
    let (operands, next) := Expr.withIdsList operands next
    (.operation line spelling operands none, next)
  | .operation line spelling operands (some result), next =>
    let (operands, next) := Expr.withIdsList operands next
    let (result, next) := Ident.withIds result next
    (.operation line spelling operands (some result), next)
  | .field line object name, next =>
    let (object, next) := Expr.withIds object next
    (.field line object name, next)
  | .dynamicField line object selector, next =>
    let (object, next) := Expr.withIds object next
    let (selector, next) := Expr.withIds selector next
    (.dynamicField line object selector, next)
  | .index line form target arguments, next =>
    let (target, next) := Expr.withIds target next
    let (arguments, next) := Expr.withIdsList arguments next
    (.index line form target arguments, next)
  | .rows line brackets rows, next =>
    let (rows, next) := Expr.withIdsRows rows next
    (.rows line brackets rows, next)
  | .lambda line params body, next =>
    let (params, next) := Ident.withIdsList params next
    let (body, next) := Expr.withIds body next
    (.lambda line params body, next)

def Expr.withIdsList : List Expr → Nat → List Expr × Nat
  | [], next => ([], next)
  | expr :: rest, next =>
    let (expr, next) := Expr.withIds expr next
    let (rest, next) := Expr.withIdsList rest next
    (expr :: rest, next)

def Expr.withIdsRows : List (List Expr) → Nat → List (List Expr) × Nat
  | [], next => ([], next)
  | row :: rest, next =>
    let (row, next) := Expr.withIdsList row next
    let (rest, next) := Expr.withIdsRows rest next
    (row :: rest, next)

def Ident.withIdsList : List Ident → Nat → List Ident × Nat
  | [], next => ([], next)
  | ident :: rest, next =>
    let (ident, next) := Ident.withIds ident next
    let (rest, next) := Ident.withIdsList rest next
    (ident :: rest, next)
end

/-- Number an identifier that may be missing. -/
def Ident.withIdsOption : Option Ident → Nat → Option Ident × Nat
  | none, next => (none, next)
  | some ident, next =>
    let (ident, next) := ident.withIds next
    (some ident, next)

mutual
/-- Number the identifiers of a statement: targets before the value, a condition before its
branches, a loop variable before the columns, the name of a function before its parameters. -/
def Stmt.withIds : Stmt → Nat → Stmt × Nat
  | .expression line value, next =>
    let (value, next) := value.withIds next
    (.expression line value, next)
  | .assign line targets value, next =>
    let (targets, next) := Expr.withIdsList targets next
    let (value, next) := value.withIds next
    (.assign line targets value, next)
  | .branch line condition thenBody none, next =>
    let (condition, next) := condition.withIds next
    let (thenBody, next) := Stmt.withIdsList thenBody next
    (.branch line condition thenBody none, next)
  | .branch line condition thenBody (some elseBody), next =>
    let (condition, next) := condition.withIds next
    let (thenBody, next) := Stmt.withIdsList thenBody next
    let (elseBody, next) := Stmt.withIdsList elseBody next
    (.branch line condition thenBody (some elseBody), next)
  | .forEach line loopName columns body, next =>
    let (loopName, next) := loopName.withIds next
    let (columns, next) := columns.withIds next
    let (body, next) := Stmt.withIdsList body next
    (.forEach line loopName columns body, next)
  | .whileLoop line condition body, next =>
    let (condition, next) := condition.withIds next
    let (body, next) := Stmt.withIdsList body next
    (.whileLoop line condition body, next)
  | .attempt line body handler none, next =>
    let (body, next) := Stmt.withIdsList body next
    let (handler, next) := Handler.withIds handler next
    (.attempt line body handler none, next)
  | .attempt line body handler (some finallyBody), next =>
    let (body, next) := Stmt.withIdsList body next
    let (handler, next) := Handler.withIds handler next
    let (finallyBody, next) := Stmt.withIdsList finallyBody next
    (.attempt line body handler (some finallyBody), next)
  | .function line name params body, next =>
    let (name, next) := name.withIds next
    let (params, next) := Ident.withIdsList params next
    let (body, next) := Stmt.withIdsList body next
    (.function line name params body, next)
  | .declare line declaration names, next =>
    let (names, next) := Ident.withIdsList names next
    (.declare line declaration names, next)
  | .return line none, next => (.return line none, next)
  | .return line (some value), next =>
    let (value, next) := value.withIds next
    (.return line (some value), next)
  | .word line word, next => (.word line word, next)
  | .comment line text, next => (.comment line text, next)

def Handler.withIds : Handler → Nat → Handler × Nat
  | .absent, next => (.absent, next)
  | .present name body, next =>
    let (name, next) := Ident.withIdsOption name next
    let (body, next) := Stmt.withIdsList body next
    (.present name body, next)

def Stmt.withIdsList : List Stmt → Nat → List Stmt × Nat
  | [], next => ([], next)
  | stmt :: rest, next =>
    let (stmt, next) := Stmt.withIds stmt next
    let (rest, next) := Stmt.withIdsList rest next
    (stmt :: rest, next)
end

mutual
/-- The names of the functions that a statement declares, at any depth. -/
def Stmt.declaredFunctions : Stmt → List String
  | .branch _ _ thenBody none => Stmt.declaredFunctionsList thenBody
  | .branch _ _ thenBody (some elseBody) =>
    Stmt.declaredFunctionsList thenBody ++ Stmt.declaredFunctionsList elseBody
  | .forEach _ _ _ body => Stmt.declaredFunctionsList body
  | .whileLoop _ _ body => Stmt.declaredFunctionsList body
  | .attempt _ body handler none => Stmt.declaredFunctionsList body ++ Handler.declaredFunctions handler
  | .attempt _ body handler (some finallyBody) =>
    Stmt.declaredFunctionsList body ++ Handler.declaredFunctions handler
      ++ Stmt.declaredFunctionsList finallyBody
  | .function _ name _ body => name.name :: Stmt.declaredFunctionsList body
  | _ => []

def Handler.declaredFunctions : Handler → List String
  | .absent => []
  | .present _ body => Stmt.declaredFunctionsList body

def Stmt.declaredFunctionsList : List Stmt → List String
  | [] => []
  | stmt :: rest => Stmt.declaredFunctions stmt ++ Stmt.declaredFunctionsList rest
end

namespace Program

/-- The program with numbered identifiers, and their count. -/
def withIds (program : Program) : Program × Nat :=
  let (statements, count) := Stmt.withIdsList program.statements 0
  (⟨statements⟩, count)

def declaredFunctions (program : Program) : List String :=
  Stmt.declaredFunctionsList program.statements

end Program
end ArrayLift
