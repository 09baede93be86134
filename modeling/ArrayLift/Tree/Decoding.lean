import ArrayLift.Tree.Syntax
import ArrayLift.Numeral.Reading
import ArrayLift.Json.Record

/-! Syntax trees from JSON values. Every array and object of the tree takes one level of a limited
depth; the content of members that are not part of the tree has no limit. -/
namespace ArrayLift
open Json

/-- The greatest depth of arrays and objects in a tree. -/
def Json.depthLimit : Nat := 127

namespace Role

def decode : Nat → Json → Option Role
  | levels, value => do
    let (name, content) ← value.alternative?
    if holdsNothing content && (levels != 0 || content.isNone) then
      match name with
      | "unknown" => some .unknown
      | "variable" => some .variable
      | "function" => some .function
      | _ => none
    else none

end Role

namespace SourceLine

def decode (value : Json) : Option SourceLine :=
  (value.word? 32).map UInt32.ofNat

end SourceLine

namespace Number

/-- A whole number of 64 bits. -/
def decodeInt (value : Json) : Option Number :=
  (value.intIn? Int64.minValue.toInt Int64.maxValue.toInt).map fun value => .int (Int64.ofInt value)

def decodeFloat : Json → Option Number
  | .number numeral => (Binary64.ofNumeral? numeral).map .float
  | _ => none

def decode : Nat → Json → Option Number
  | 0, _ => none
  | _ + 1, value =>
    match value.alternative? with
    | some ("int", some content) => decodeInt content
    | some ("float", some content) => decodeFloat content
    | _ => none

end Number

/-- The items of an array, each decoded one level further in. -/
def Json.items? {α : Type} (decode : Json → Option α) : Json → Option (List α)
  | .array items => items.mapM decode
  | _ => none

mutual
def Ident.decode : Nat → Json → Option Ident
  | 0, _ => none
  | levels + 1, value => do
    let field ← value.record? ["name", "init", "role", "reserved", "id"]
    let name ← required text? (field "name")
    let init ← optional (Expr.decode levels) (field "init")
    let role ← defaulted .unknown (Role.decode levels) (field "role")
    let reserved ← defaulted false bool? (field "reserved")
    let id ← optional (word? 32) (field "id")
    some (.mk name init role reserved id)

def Expr.decode : Nat → Json → Option Expr
  | 0, _ => none
  | levels + 1, value => do
    let field ← value.record? ["kind", "line"]
    let line ← required SourceLine.decode (field "line")
    let kind ← field "kind"
    Expr.decodeKind levels line kind

/-- The kinds of expression are alternatives that all have content. -/
def Expr.decodeKind : Nat → SourceLine → Json → Option Expr
  | 0, _, _ => none
  | levels + 1, line, kind =>
    match kind.alternative? with
    | some ("ident", some content) => (Ident.decode levels content).map (.ident line)
    | some ("number", some content) =>
      (Number.decode levels content).map fun value => .literal line (.number value)
    | some ("str", some content) => content.text?.map fun value => .literal line (.text value)
    | some ("logical", some content) => content.bool?.map fun value => .literal line (.logical value)
    | some ("op", some content) => Expr.decodeOperation levels line content
    | some ("field", some content) => Expr.decodeField levels line content
    | some ("apply", some content) => Expr.decodeIndex levels line .apply content
    | some ("array_ref", some content) => Expr.decodeIndex levels line .arrayRef content
    | some ("cell_ref", some content) => Expr.decodeIndex levels line .cellRef content
    | some ("call", some content) => Expr.decodeCall levels line content
    | some ("matrix", some content) => (Expr.decodeRows levels content).map (.rows line .matrix)
    | some ("cell_array", some content) => (Expr.decodeRows levels content).map (.rows line .cell)
    | some ("lambda", some content) => Expr.decodeLambda levels line content
    | _ => none

def Expr.decodeOperation : Nat → SourceLine → Json → Option Expr
  | 0, _, _ => none
  | levels + 1, line, value => do
    let field ← value.record? ["op", "args", "ret"]
    let spelling ← required text? (field "op")
    let operands ← required (Expr.decodeList levels) (field "args")
    let result ← optional (Ident.decode levels) (field "ret")
    some (.operation line spelling operands result)

def Expr.decodeField : Nat → SourceLine → Json → Option Expr
  | 0, _, _ => none
  | levels + 1, line, value => do
    let field ← value.record? ["object", "selector"]
    let base ← required (Expr.decode levels) (field "object")
    let selector ← field "selector"
    Expr.decodeSelector levels line base selector

def Expr.decodeSelector : Nat → SourceLine → Expr → Json → Option Expr
  | 0, _, _, _ => none
  | levels + 1, line, base, selector =>
    match selector.alternative? with
    | some ("name", some content) => content.text?.map (.field line base)
    | some ("dynamic", some content) => (Expr.decode levels content).map (.dynamicField line base)
    | _ => none

def Expr.decodeIndex : Nat → SourceLine → IndexForm → Json → Option Expr
  | 0, _, _, _ => none
  | levels + 1, line, form, value => do
    let field ← value.record? ["target", "args"]
    let target ← required (Expr.decode levels) (field "target")
    let arguments ← required (Expr.decodeList levels) (field "args")
    some (.index line form target arguments)

def Expr.decodeCall : Nat → SourceLine → Json → Option Expr
  | 0, _, _ => none
  | levels + 1, line, value => do
    let field ← value.record? ["target", "args", "nargout"]
    let target ← required (Expr.decode levels) (field "target")
    let arguments ← required (Expr.decodeList levels) (field "args")
    let results ← defaulted 1 (word? 64) (field "nargout")
    some (.index line (.call results) target arguments)

def Expr.decodeLambda : Nat → SourceLine → Json → Option Expr
  | 0, _, _ => none
  | levels + 1, line, value => do
    let field ← value.record? ["params", "body"]
    let params ← required (Ident.decodeList levels) (field "params")
    let body ← required (Expr.decode levels) (field "body")
    some (.lambda line params body)

def Expr.decodeList : Nat → Json → Option (List Expr)
  | 0, _ => none
  | levels + 1, value => value.items? (Expr.decode levels)

def Expr.decodeRows : Nat → Json → Option (List (List Expr))
  | 0, _ => none
  | levels + 1, value => value.items? (Expr.decodeList levels)

def Ident.decodeList : Nat → Json → Option (List Ident)
  | 0, _ => none
  | levels + 1, value => value.items? (Ident.decode levels)
end

/-- The statement of one word with a given name. -/
def Word.ofName? : String → Option Word
  | "break" => some .break
  | "continue" => some .continue
  | "pass" => some .pass
  | "null" => some .nothing
  | _ => none

mutual
def Stmt.decode : Nat → Json → Option Stmt
  | 0, _ => none
  | levels + 1, value => do
    let field ← value.record? ["kind", "line"]
    let line ← required SourceLine.decode (field "line")
    let kind ← field "kind"
    Stmt.decodeKind levels line kind

def Stmt.decodeKind : Nat → SourceLine → Json → Option Stmt
  | 0, line, kind =>
    match kind.alternative? with
    | some (name, none) => (Word.ofName? name).map (.word line)
    | _ => none
  | levels + 1, line, kind =>
    match kind.alternative? with
    | some (name, none) => (Word.ofName? name).map (.word line)
    | some ("expr", some content) => (Expr.decode levels content).map (.expression line)
    | some ("let", some content) => Stmt.decodeAssign levels line content
    | some ("if", some content) => Stmt.decodeBranch levels line content
    | some ("for", some content) => Stmt.decodeFor levels line content
    | some ("while", some content) => Stmt.decodeWhile levels line content
    | some ("try", some content) => Stmt.decodeTry levels line content
    | some ("function", some content) => Stmt.decodeFunction levels line content
    | some ("global", some content) => (Ident.decodeList levels content).map (.declare line .global)
    | some ("persistent", some content) =>
      (Ident.decodeList levels content).map (.declare line .persistent)
    | some ("return", some content) => (optional (Expr.decode levels) (some content)).map (.return line)
    | some ("comment", some content) => content.text?.map (.comment line)
    | some (name, some .null) => (Word.ofName? name).map (.word line)
    | _ => none

def Stmt.decodeAssign : Nat → SourceLine → Json → Option Stmt
  | 0, _, _ => none
  | levels + 1, line, value => do
    let field ← value.record? ["targets", "value"]
    let targets ← required (Expr.decodeList levels) (field "targets")
    let value ← required (Expr.decode levels) (field "value")
    some (.assign line targets value)

def Stmt.decodeBranch : Nat → SourceLine → Json → Option Stmt
  | 0, _, _ => none
  | levels + 1, line, value => do
    let field ← value.record? ["cond", "then_body", "else_body"]
    let condition ← required (Expr.decode levels) (field "cond")
    let thenBody ← required (Stmt.decodeList levels) (field "then_body")
    let elseBody ← optional (Stmt.decodeList levels) (field "else_body")
    some (.branch line condition thenBody elseBody)

def Stmt.decodeFor : Nat → SourceLine → Json → Option Stmt
  | 0, _, _ => none
  | levels + 1, line, value => do
    let field ← value.record? ["var", "iter", "body"]
    let loopName ← required (Ident.decode levels) (field "var")
    let columns ← required (Expr.decode levels) (field "iter")
    let body ← required (Stmt.decodeList levels) (field "body")
    some (.forEach line loopName columns body)

def Stmt.decodeWhile : Nat → SourceLine → Json → Option Stmt
  | 0, _, _ => none
  | levels + 1, line, value => do
    let field ← value.record? ["cond", "body"]
    let condition ← required (Expr.decode levels) (field "cond")
    let body ← required (Stmt.decodeList levels) (field "body")
    some (.whileLoop line condition body)

def Stmt.decodeTry : Nat → SourceLine → Json → Option Stmt
  | 0, _, _ => none
  | levels + 1, line, value => do
    let field ← value.record? ["body", "catch", "finally_body"]
    let body ← required (Stmt.decodeList levels) (field "body")
    let handler ← optional (Handler.decode levels) (field "catch")
    let finallyBody ← optional (Stmt.decodeList levels) (field "finally_body")
    some (.attempt line body (handler.getD .absent) finallyBody)

def Handler.decode : Nat → Json → Option Handler
  | 0, _ => none
  | levels + 1, value => do
    let field ← value.record? ["ident", "body"]
    let name ← optional (Ident.decode levels) (field "ident")
    let body ← required (Stmt.decodeList levels) (field "body")
    some (.present name body)

def Stmt.decodeFunction : Nat → SourceLine → Json → Option Stmt
  | 0, _, _ => none
  | levels + 1, line, value => do
    let field ← value.record? ["name", "params", "body"]
    let name ← required (Ident.decode levels) (field "name")
    let params ← required (Ident.decodeList levels) (field "params")
    let body ← defaulted [] (Stmt.decodeList levels) (field "body")
    some (.function line name params body)

def Stmt.decodeList : Nat → Json → Option (List Stmt)
  | 0, _ => none
  | levels + 1, value => value.items? (Stmt.decode levels)
end

namespace Program

def decode : Nat → Json → Option Program
  | 0, _ => none
  | levels + 1, value => do
    let field ← value.record? ["statements"]
    let statements ← required (Stmt.decodeList levels) (field "statements")
    some ⟨statements⟩

/-- The program that a JSON value holds. -/
def ofJson? (value : Json) : Option Program :=
  decode depthLimit value

/-- The program that a JSON text holds. -/
def parse? (text : String) : Option Program :=
  (Json.parse? text).bind ofJson?

end Program
end ArrayLift
