import ArrayLift.Tree.Syntax
import ArrayLift.Json.Record

/-! Syntax trees as JSON values. -/
namespace ArrayLift
open Json

namespace Role

def name : Role → String
  | .unknown => "unknown"
  | .variable => "variable"
  | .function => "function"

def encode (role : Role) : Json := ofText role.name

end Role

namespace Number

/-- A number that is not finite has no JSON spelling and is null. -/
def encode : Number → Json
  | .int value => ofAlternative "int" (ofInt value.toInt)
  | .float (.finite negative rank) => ofAlternative "float" (.number (Binary64.numeral negative rank))
  | .float _ => ofAlternative "float" .null

end Number

namespace Literal

def encode : Literal → Json
  | .number value => ofAlternative "number" value.encode
  | .text value => ofAlternative "str" (ofText value)
  | .logical value => ofAlternative "logical" (.bool value)

end Literal

/-- What stands at a line. -/
def Json.atLine (line : SourceLine) (kind : Json) : Json :=
  ofFields [("kind", kind), ("line", ofNat line.toNat)]

/-- The record of an indexed expression. -/
def IndexForm.encode (form : IndexForm) (target : Json) (arguments : List Json) : Json :=
  let record := [("target", target), ("args", .array arguments)]
  match form with
  | .apply => ofAlternative "apply" (ofFields record)
  | .arrayRef => ofAlternative "array_ref" (ofFields record)
  | .cellRef => ofAlternative "cell_ref" (ofFields record)
  | .call results => ofAlternative "call" (ofFields (record ++ [("nargout", ofNat results)]))

def Brackets.name : Brackets → String
  | .matrix => "matrix"
  | .cell => "cell_array"

/-- The record of an identifier with its encoded default value. -/
def Ident.record (name : String) (init : Option Json) (role : Role) (reserved : Bool)
    (id : Option IdentId) : Json :=
  ofFields ([("name", ofText name)] ++ optionalField "init" init
    ++ [("role", role.encode), ("reserved", .bool reserved)]
    ++ optionalField "id" (id.map ofNat))

mutual
def Ident.encode : Ident → Json
  | .mk name none role reserved id => Ident.record name none role reserved id
  | .mk name (some init) role reserved id => Ident.record name (some (Expr.encode init)) role reserved id

def Expr.encode : Expr → Json
  | .ident line ident => atLine line (ofAlternative "ident" (Ident.encode ident))
  | .literal line value => atLine line value.encode
  | .operation line spelling operands none =>
    atLine line (ofAlternative "op" (ofFields
      [("op", ofText spelling), ("args", .array (Expr.encodeList operands))]))
  | .operation line spelling operands (some result) =>
    atLine line (ofAlternative "op" (ofFields
      [("op", ofText spelling), ("args", .array (Expr.encodeList operands)), ("ret", Ident.encode result)]))
  | .field line base name =>
    atLine line (ofAlternative "field" (ofFields
      [("object", Expr.encode base), ("selector", ofAlternative "name" (ofText name))]))
  | .dynamicField line base selector =>
    atLine line (ofAlternative "field" (ofFields
      [("object", Expr.encode base), ("selector", ofAlternative "dynamic" (Expr.encode selector))]))
  | .index line form target arguments =>
    atLine line (form.encode (Expr.encode target) (Expr.encodeList arguments))
  | .rows line brackets rows => atLine line (ofAlternative brackets.name (.array (Expr.encodeRows rows)))
  | .lambda line params body =>
    atLine line (ofAlternative "lambda" (ofFields
      [("params", .array (Ident.encodeList params)), ("body", Expr.encode body)]))

def Expr.encodeList : List Expr → List Json
  | [] => []
  | expr :: rest => Expr.encode expr :: Expr.encodeList rest

def Expr.encodeRows : List (List Expr) → List Json
  | [] => []
  | row :: rest => .array (Expr.encodeList row) :: Expr.encodeRows rest

def Ident.encodeList : List Ident → List Json
  | [] => []
  | ident :: rest => Ident.encode ident :: Ident.encodeList rest
end

def Declaration.name : Declaration → String
  | .global => "global"
  | .persistent => "persistent"

def Word.name : Word → String
  | .break => "break"
  | .continue => "continue"
  | .pass => "pass"
  | .nothing => "null"

mutual
def Stmt.encode : Stmt → Json
  | .expression line value => atLine line (ofAlternative "expr" value.encode)
  | .assign line targets value =>
    atLine line (ofAlternative "let" (ofFields
      [("targets", .array (Expr.encodeList targets)), ("value", value.encode)]))
  | .branch line condition thenBody none =>
    atLine line (ofAlternative "if" (ofFields
      [("cond", condition.encode), ("then_body", .array (Stmt.encodeList thenBody))]))
  | .branch line condition thenBody (some elseBody) =>
    atLine line (ofAlternative "if" (ofFields
      [("cond", condition.encode), ("then_body", .array (Stmt.encodeList thenBody)),
        ("else_body", .array (Stmt.encodeList elseBody))]))
  | .forEach line loopName columns body =>
    atLine line (ofAlternative "for" (ofFields
      [("var", loopName.encode), ("iter", columns.encode), ("body", .array (Stmt.encodeList body))]))
  | .whileLoop line condition body =>
    atLine line (ofAlternative "while" (ofFields
      [("cond", condition.encode), ("body", .array (Stmt.encodeList body))]))
  | .attempt line body handler none =>
    atLine line (ofAlternative "try" (ofFields
      ([("body", .array (Stmt.encodeList body))] ++ Handler.encodeField handler)))
  | .attempt line body handler (some finallyBody) =>
    atLine line (ofAlternative "try" (ofFields
      ([("body", .array (Stmt.encodeList body))] ++ Handler.encodeField handler
        ++ [("finally_body", .array (Stmt.encodeList finallyBody))])))
  | .function line name params body =>
    atLine line (ofAlternative "function" (ofFields
      [("name", name.encode), ("params", .array (Ident.encodeList params)),
        ("body", .array (Stmt.encodeList body))]))
  | .declare line declaration names =>
    atLine line (ofAlternative declaration.name (.array (Ident.encodeList names)))
  | .return line none => atLine line (ofAlternative "return" .null)
  | .return line (some value) => atLine line (ofAlternative "return" value.encode)
  | .word line word => atLine line (ofText word.name)
  | .comment line text => atLine line (ofAlternative "comment" (ofText text))

/-- The field of the handler, which is left out if there is none. -/
def Handler.encodeField : Handler → List (String × Json)
  | .absent => []
  | .present name body =>
    [("catch", ofFields (optionalField "ident" (name.map Ident.encode)
      ++ [("body", .array (Stmt.encodeList body))]))]

def Stmt.encodeList : List Stmt → List Json
  | [] => []
  | stmt :: rest => Stmt.encode stmt :: Stmt.encodeList rest
end

namespace Program

def encode (program : Program) : Json :=
  ofFields [("statements", .array (Stmt.encodeList program.statements))]

end Program
end ArrayLift
