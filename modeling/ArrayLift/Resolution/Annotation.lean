import ArrayLift.Resolution.ScopeTable
import ArrayLift.Vocabulary.ReservedWords

/-! Annotations of the tree: the role and the reserved flag of every identifier, and for everything
indexed whether it is an array reference or a call. The second part of every result counts the
changes. -/
namespace ArrayLift

/-- Where an expression stands. -/
inductive Place where
  /-- In value position, with the count of results that are asked for. -/
  | value (results : Nat)
  /-- On the way from an assignment target to its root. -/
  | assigned
  deriving DecidableEq, Repr

/-- The place of what is indexed or has its field taken. -/
def Place.inner : Place → Place
  | .value _ => .value 1
  | .assigned => .assigned

/-- The role of the name that an indexed expression starts from, through fields only. -/
def Expr.calleeRole? : Expr → Option Role
  | .ident _ named => some named.role
  | .field _ object _ => calleeRole? object
  | .dynamicField _ object _ => calleeRole? object
  | _ => none

/-- Is an indexed expression a call? What is assigned to never is, nor is the index of a computed
value. -/
def Place.isCall (place : Place) (target : Expr) : Bool :=
  match place with
  | .assigned => false
  | .value _ => target.calleeRole? = some .function || target.calleeRole? = some .unknown

/-- The form of an indexed expression at a place, once its target is annotated. -/
def IndexForm.decided (form : IndexForm) (place : Place) (target : Expr) : IndexForm :=
  match form, place with
  | .cellRef, _ => .cellRef
  | _, .assigned => .arrayRef
  | _, .value results => if (Place.value results).isCall target then .call results else .arrayRef

def changed (differs : Bool) : Nat :=
  if differs then 1 else 0

/-- The role that stays: an occurrence without a role in the table keeps its old one. -/
def ScopeTable.roleFor (table : ScopeTable) (id : Option IdentId) (old : Role) : Role :=
  match id with
  | none => old
  | some id => match table.roleOf id with
    | .unknown => old
    | role => role

mutual
def Ident.annotate (table : ScopeTable) (words : ReservedWords) : Ident → Ident × Nat
  | .mk name none role reserved id =>
    let newRole := table.roleFor id role
    let newReserved := words.contains name
    (.mk name none newRole newReserved id, changed (newRole ≠ role) + changed (newReserved ≠ reserved))
  | .mk name (some init) role reserved id =>
    let newRole := table.roleFor id role
    let newReserved := words.contains name
    let (init, count) := Expr.annotate table words init (.value 1)
    (.mk name (some init) newRole newReserved id,
      changed (newRole ≠ role) + changed (newReserved ≠ reserved) + count)

def Expr.annotate (table : ScopeTable) (words : ReservedWords) : Expr → Place → Expr × Nat
  | .ident line named, _ =>
    let (named, count) := Ident.annotate table words named
    (.ident line named, count)
  | .literal line value, _ => (.literal line value, 0)
  | .operation line spelling operands none, _ =>
    let (operands, count) := Expr.annotateList table words operands (.value 1)
    (.operation line spelling operands none, count)
  | .operation line spelling operands (some result), _ =>
    let (operands, count) := Expr.annotateList table words operands (.value 1)
    let (result, resultCount) := Ident.annotate table words result
    (.operation line spelling operands (some result), count + resultCount)
  | .field line object name, place =>
    let (object, count) := Expr.annotate table words object place.inner
    (.field line object name, count)
  | .dynamicField line object selector, place =>
    let (object, count) := Expr.annotate table words object place.inner
    let (selector, selectorCount) := Expr.annotate table words selector (.value 1)
    (.dynamicField line object selector, count + selectorCount)
  | .index line form target arguments, place =>
    let (target, count) := Expr.annotate table words target place.inner
    let (arguments, argumentCount) := Expr.annotateList table words arguments (.value 1)
    let newForm := form.decided place target
    (.index line newForm target arguments, count + argumentCount + changed (newForm ≠ form))
  | .rows line brackets rows, _ =>
    let (rows, count) := Expr.annotateRows table words rows
    (.rows line brackets rows, count)
  | .lambda line params body, _ =>
    let (params, count) := Ident.annotateList table words params
    let (body, bodyCount) := Expr.annotate table words body (.value 1)
    (.lambda line params body, count + bodyCount)

def Expr.annotateList (table : ScopeTable) (words : ReservedWords) : List Expr → Place → List Expr × Nat
  | [], _ => ([], 0)
  | expr :: rest, place =>
    let (expr, count) := Expr.annotate table words expr place
    let (rest, restCount) := Expr.annotateList table words rest place
    (expr :: rest, count + restCount)

def Expr.annotateRows (table : ScopeTable) (words : ReservedWords) : List (List Expr) → List (List Expr) × Nat
  | [] => ([], 0)
  | row :: rest =>
    let (row, count) := Expr.annotateList table words row (.value 1)
    let (rest, restCount) := Expr.annotateRows table words rest
    (row :: rest, count + restCount)

def Ident.annotateList (table : ScopeTable) (words : ReservedWords) : List Ident → List Ident × Nat
  | [] => ([], 0)
  | ident :: rest =>
    let (ident, count) := Ident.annotate table words ident
    let (rest, restCount) := Ident.annotateList table words rest
    (ident :: rest, count + restCount)
end

def Ident.annotateOption (table : ScopeTable) (words : ReservedWords) : Option Ident → Option Ident × Nat
  | none => (none, 0)
  | some ident =>
    let (ident, count) := ident.annotate table words
    (some ident, count)

mutual
/-- Annotate a statement. The value of an assignment is asked for as many results as there are
targets. -/
def Stmt.annotate (table : ScopeTable) (words : ReservedWords) : Stmt → Stmt × Nat
  | .expression line value =>
    let (value, count) := value.annotate table words (.value 1)
    (.expression line value, count)
  | .assign line targets value =>
    let (value, count) := value.annotate table words (.value (max 1 targets.length))
    let (targets, targetCount) := Expr.annotateList table words targets .assigned
    (.assign line targets value, count + targetCount)
  | .branch line condition thenBody none =>
    let (condition, count) := condition.annotate table words (.value 1)
    let (thenBody, thenCount) := Stmt.annotateList table words thenBody
    (.branch line condition thenBody none, count + thenCount)
  | .branch line condition thenBody (some elseBody) =>
    let (condition, count) := condition.annotate table words (.value 1)
    let (thenBody, thenCount) := Stmt.annotateList table words thenBody
    let (elseBody, elseCount) := Stmt.annotateList table words elseBody
    (.branch line condition thenBody (some elseBody), count + thenCount + elseCount)
  | .forEach line loopName columns body =>
    let (loopName, nameCount) := loopName.annotate table words
    let (columns, count) := columns.annotate table words (.value 1)
    let (body, bodyCount) := Stmt.annotateList table words body
    (.forEach line loopName columns body, nameCount + count + bodyCount)
  | .whileLoop line condition body =>
    let (condition, count) := condition.annotate table words (.value 1)
    let (body, bodyCount) := Stmt.annotateList table words body
    (.whileLoop line condition body, count + bodyCount)
  | .attempt line body handler none =>
    let (body, count) := Stmt.annotateList table words body
    let (handler, handlerCount) := Handler.annotate table words handler
    (.attempt line body handler none, count + handlerCount)
  | .attempt line body handler (some finallyBody) =>
    let (body, count) := Stmt.annotateList table words body
    let (handler, handlerCount) := Handler.annotate table words handler
    let (finallyBody, finallyCount) := Stmt.annotateList table words finallyBody
    (.attempt line body handler (some finallyBody), count + handlerCount + finallyCount)
  | .function line name params body =>
    let (name, nameCount) := name.annotate table words
    let (params, paramCount) := Ident.annotateList table words params
    let (body, bodyCount) := Stmt.annotateList table words body
    (.function line name params body, nameCount + paramCount + bodyCount)
  | .declare line declaration names =>
    let (names, count) := Ident.annotateList table words names
    (.declare line declaration names, count)
  | .return line none => (.return line none, 0)
  | .return line (some value) =>
    let (value, count) := value.annotate table words (.value 1)
    (.return line (some value), count)
  | .word line word => (.word line word, 0)
  | .comment line text => (.comment line text, 0)

def Handler.annotate (table : ScopeTable) (words : ReservedWords) : Handler → Handler × Nat
  | .absent => (.absent, 0)
  | .present name body =>
    let (name, nameCount) := Ident.annotateOption table words name
    let (body, bodyCount) := Stmt.annotateList table words body
    (.present name body, nameCount + bodyCount)

def Stmt.annotateList (table : ScopeTable) (words : ReservedWords) : List Stmt → List Stmt × Nat
  | [] => ([], 0)
  | stmt :: rest =>
    let (stmt, count) := Stmt.annotate table words stmt
    let (rest, restCount) := Stmt.annotateList table words rest
    (stmt :: rest, count + restCount)
end

namespace Program

def annotate (table : ScopeTable) (words : ReservedWords) (program : Program) : Program × Nat :=
  let (statements, count) := Stmt.annotateList table words program.statements
  (⟨statements⟩, count)

end Program
end ArrayLift
