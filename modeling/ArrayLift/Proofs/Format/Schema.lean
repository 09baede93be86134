import ArrayLift.Tree.Decoding

/-! The JSON format of syntax trees as data: records with their fields, choices with their alternatives, and one reader
for all of them. What a value spells does not depend on a limit of the depth; the limit only says whether it is read. -/
namespace ArrayLift

/-- What a tree holds, whatever its type. The values of a record stand in the order of its fields. -/
inductive Datum where
  /-- An option without a value, and what stands beside an alternative that holds nothing. -/
  | absent
  | text (value : String)
  | flag (value : Bool)
  | whole (value : Int)
  | float (value : Binary64)
  | list (items : List Datum)
  | record (values : List Datum)
  | choice (name : String) (content : Datum)

/-- The records of the format. -/
inductive RecordKind where
  | program
  | stmt
  | assign
  | branch
  | forEach
  | whileLoop
  | attempt
  | handler
  | function
  | expr
  | operation
  | field
  | index
  | call
  | lambda
  | ident
  deriving DecidableEq

/-- The choices of the format. -/
inductive ChoiceKind where
  | stmtKind
  | exprKind
  | selector
  | number
  | role
  deriving DecidableEq

/-- How one part of a tree is spelled. -/
inductive Schema where
  | text
  | flag
  | whole (least greatest : Int)
  | float
  | list (items : Schema)
  | record (kind : RecordKind)
  | choice (kind : ChoiceKind)
  deriving DecidableEq

namespace Schema

/-- A natural number of a count of bits. -/
def word (bits : Nat) : Schema :=
  .whole 0 (Nat.pow 2 bits - 1 : Nat)

def line : Schema := word 32

def expr : Schema := .record .expr

def exprs : Schema := .list expr

def ident : Schema := .record .ident

def idents : Schema := .list ident

def stmts : Schema := .list (.record .stmt)

end Schema

/-- May a field be missing? -/
inductive Presence where
  | required
  /-- The field may be missing or null. -/
  | optional
  /-- A missing field has a value. -/
  | defaulted (value : Datum)

structure Field where
  name : String
  schema : Schema
  presence : Presence := .required

/-- What stands beside the name of an alternative. -/
inductive Payload where
  | nothing
  | content (schema : Schema)
  /-- A value or null. -/
  | nullable (schema : Schema)

/-- The fields of a record in the order of their declaration. -/
def RecordKind.fields : RecordKind → List Field
  | .program => [⟨"statements", .stmts, .required⟩]
  | .stmt => [⟨"kind", .choice .stmtKind, .required⟩, ⟨"line", .line, .required⟩]
  | .assign => [⟨"targets", .exprs, .required⟩, ⟨"value", .expr, .required⟩]
  | .branch =>
    [⟨"cond", .expr, .required⟩, ⟨"then_body", .stmts, .required⟩, ⟨"else_body", .stmts, .optional⟩]
  | .forEach => [⟨"var", .ident, .required⟩, ⟨"iter", .expr, .required⟩, ⟨"body", .stmts, .required⟩]
  | .whileLoop => [⟨"cond", .expr, .required⟩, ⟨"body", .stmts, .required⟩]
  | .attempt =>
    [⟨"body", .stmts, .required⟩, ⟨"catch", .record .handler, .optional⟩, ⟨"finally_body", .stmts, .optional⟩]
  | .handler => [⟨"ident", .ident, .optional⟩, ⟨"body", .stmts, .required⟩]
  | .function =>
    [⟨"name", .ident, .required⟩, ⟨"params", .idents, .required⟩, ⟨"body", .stmts, .defaulted (.list [])⟩]
  | .expr => [⟨"kind", .choice .exprKind, .required⟩, ⟨"line", .line, .required⟩]
  | .operation => [⟨"op", .text, .required⟩, ⟨"args", .exprs, .required⟩, ⟨"ret", .ident, .optional⟩]
  | .field => [⟨"object", .expr, .required⟩, ⟨"selector", .choice .selector, .required⟩]
  | .index => [⟨"target", .expr, .required⟩, ⟨"args", .exprs, .required⟩]
  | .call =>
    [⟨"target", .expr, .required⟩, ⟨"args", .exprs, .required⟩, ⟨"nargout", .word 64, .defaulted (.whole 1)⟩]
  | .lambda => [⟨"params", .idents, .required⟩, ⟨"body", .expr, .required⟩]
  | .ident =>
    [⟨"name", .text, .required⟩, ⟨"init", .expr, .optional⟩,
      ⟨"role", .choice .role, .defaulted (.choice "unknown" .absent)⟩,
      ⟨"reserved", .flag, .defaulted (.flag false)⟩, ⟨"id", .word 32, .optional⟩]

/-- What stands beside an alternative with a given name; `none` if there is no such alternative. -/
def ChoiceKind.payload? (kind : ChoiceKind) (name : String) : Option Payload :=
  match kind with
  | .stmtKind =>
    match name with
    | "expr" => some (.content .expr)
    | "let" => some (.content (.record .assign))
    | "if" => some (.content (.record .branch))
    | "for" => some (.content (.record .forEach))
    | "while" => some (.content (.record .whileLoop))
    | "try" => some (.content (.record .attempt))
    | "function" => some (.content (.record .function))
    | "global" => some (.content .idents)
    | "persistent" => some (.content .idents)
    | "return" => some (.nullable .expr)
    | "break" => some .nothing
    | "continue" => some .nothing
    | "pass" => some .nothing
    | "null" => some .nothing
    | "comment" => some (.content .text)
    | _ => none
  | .exprKind =>
    match name with
    | "ident" => some (.content .ident)
    | "number" => some (.content (.choice .number))
    | "str" => some (.content .text)
    | "logical" => some (.content .flag)
    | "op" => some (.content (.record .operation))
    | "field" => some (.content (.record .field))
    | "apply" => some (.content (.record .index))
    | "array_ref" => some (.content (.record .index))
    | "cell_ref" => some (.content (.record .index))
    | "call" => some (.content (.record .call))
    | "matrix" => some (.content (.list .exprs))
    | "cell_array" => some (.content (.list .exprs))
    | "lambda" => some (.content (.record .lambda))
    | _ => none
  | .selector =>
    match name with
    | "name" => some (.content .text)
    | "dynamic" => some (.content .expr)
    | _ => none
  | .number =>
    match name with
    | "int" => some (.content (.whole Int64.minValue.toInt Int64.maxValue.toInt))
    | "float" => some (.content .float)
    | _ => none
  | .role =>
    match name with
    | "unknown" => some .nothing
    | "variable" => some .nothing
    | "function" => some .nothing
    | _ => none

namespace RecordKind

def names (kind : RecordKind) : List String :=
  kind.fields.map Field.name

theorem names_nodup (kind : RecordKind) : kind.names.Nodup := by
  cases kind <;> decide

/-- The schema of the field with a given name, if a record has one. -/
def schemaOf? (kind : RecordKind) : Json.Text → Option Schema
  | some name => (kind.fields.find? fun field => field.name == name).map Field.schema
  | none => none

end RecordKind

namespace Payload

def schema? : Payload → Option Schema
  | .nothing => none
  | .content schema => some schema
  | .nullable schema => some schema

/-- Read what stands beside the name of an alternative. -/
def read (readAs : Schema → Json → Option Datum) : Payload → Json → Option Datum
  | .nothing, .null => some .absent
  | .nothing, _ => none
  | .content schema, value => readAs schema value
  | .nullable _, .null => some .absent
  | .nullable schema, value => readAs schema value

end Payload

/-- The schema of what stands beside a given name, if it has one. -/
def ChoiceKind.schemaOf? (kind : ChoiceKind) : Json.Text → Option Schema
  | some name => (kind.payload? name).bind Payload.schema?
  | none => none

theorem ChoiceKind.schemaOf?_eq {kind : ChoiceKind} {name : String} {payload : Payload}
    (known : kind.payload? name = some payload) : kind.schemaOf? (some name) = payload.schema? := by
  rw [schemaOf?, known, Option.bind_some]

/-- Read a field that may be missing. -/
def Field.read (readAs : Schema → Json → Option Datum) (field : Field) : Option Json → Option Datum
  | none =>
    match field.presence with
    | .required => none
    | .optional => some .absent
    | .defaulted value => some value
  | some .null =>
    match field.presence with
    | .optional => some .absent
    | _ => readAs field.schema .null
  | some value => readAs field.schema value

/-- Read the fields of a record in their order. -/
def Field.readAll (readAs : Schema → Json → Option Datum) (content : String → Option Json) :
    List Field → Option (List Datum)
  | [] => some []
  | field :: rest => do
    let value ← field.read readAs (content field.name)
    let values ← Field.readAll readAs content rest
    some (value :: values)

namespace Schema

/-- Read a value without going into an array or an object. -/
def readFlat : Schema → Json → Option Datum
  | .text, value => value.text?.map .text
  | .flag, value => value.bool?.map .flag
  | .whole least greatest, value => (value.intIn? least greatest).map .whole
  | .float, .number numeral => (Binary64.ofNumeral? numeral).map .float
  | .choice kind, .string (some name) =>
    match kind.payload? name with
    | some .nothing => some (.choice name .absent)
    | _ => none
  | _, _ => none

/-- Read a value whose parts are read in a given way. -/
def readIn (readAs : Schema → Json → Option Datum) : Schema → Json → Option Datum
  | .list items, value => (value.items? (readAs items)).map .list
  | .record kind, value =>
    (value.record? kind.names).bind fun content => (Field.readAll readAs content kind.fields).map .record
  | .choice kind, .object [(some name, content)] =>
    ((kind.payload? name).bind fun payload => payload.read readAs content).map (.choice name)
  | schema, value => schema.readFlat value

/-- Read a value, with a limit for the levels of arrays and objects. -/
def read : Nat → Schema → Json → Option Datum
  | 0, schema, value => schema.readFlat value
  | levels + 1, schema, value => schema.readIn (read levels) value

mutual
/-- The levels of arrays and objects in a value, as far as they are part of a tree. -/
def depth : Schema → Json → Nat
  | .list items, .array values => depthItems items values + 1
  | .record kind, .array values => depthPlaces kind.fields values + 1
  | .record kind, .object members => depthMembers kind.schemaOf? members + 1
  | .choice kind, .object members => depthMembers kind.schemaOf? members + 1
  | _, _ => 0

def depthItems (items : Schema) : List Json → Nat
  | [] => 0
  | value :: rest => max (depth items value) (depthItems items rest)

/-- The fields of a record in their order. -/
def depthPlaces : List Field → List Json → Nat
  | field :: fields, value :: rest => max (depth field.schema value) (depthPlaces fields rest)
  | _, _ => 0

/-- Members of unknown keys do not count. -/
def depthMembers (schemaOf? : Json.Text → Option Schema) : List (Json.Text × Json) → Nat
  | [] => 0
  | (key, value) :: rest =>
    max (match schemaOf? key with
      | some schema => depth schema value
      | none => 0) (depthMembers schemaOf? rest)
end

end Schema
end ArrayLift
