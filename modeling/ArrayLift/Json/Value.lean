import ArrayLift.Json.Token

/-! JSON values as they are spelled: an object keeps the order and the repetitions of its members,
and a number its digits. -/
namespace ArrayLift

inductive Json where
  | null
  | bool (value : Bool)
  | number (numeral : Numeral)
  | string (text : Json.Text)
  | array (items : List Json)
  | object (members : List (Json.Text × Json))

namespace Json

/-- A container that is still open. -/
inductive Frame where
  /-- An array with its items so far, the last one first. -/
  | array (items : List Json)
  /-- An object with its members so far, the last one first, and the key of the next one. -/
  | object (members : List (Text × Json)) (key : Text)

/-- What may come next. -/
inductive Expects where
  /-- A value must follow. -/
  | value
  /-- An array has just been opened: a value or its end. -/
  | item
  /-- An object has just been opened: a key or its end. -/
  | member
  /-- A key must follow; the members so far are those given. -/
  | key (members : List (Text × Json))
  /-- A colon must follow the key. -/
  | colon (members : List (Text × Json)) (key : Text)
  /-- A value is complete. -/
  | behind (value : Json)

/-- The state of the builder: the open containers, the innermost first, and what may come next. -/
structure Build where
  frames : List Frame
  expects : Expects

/-- A token where a value may stand. -/
def value? (frames : List Frame) : Token → Option Build
  | .null => some ⟨frames, .behind .null⟩
  | .bool value => some ⟨frames, .behind (.bool value)⟩
  | .number numeral => some ⟨frames, .behind (.number numeral)⟩
  | .string text => some ⟨frames, .behind (.string text)⟩
  | .openArray => some ⟨.array [] :: frames, .item⟩
  | .openObject => some ⟨frames, .member⟩
  | _ => none

/-- A token behind a complete value. -/
def behind? (value : Json) : List Frame → Token → Option Build
  | .array items :: frames, .comma => some ⟨.array (value :: items) :: frames, .value⟩
  | .array items :: frames, .closeArray => some ⟨frames, .behind (.array (value :: items).reverse)⟩
  | .object members key :: frames, .comma => some ⟨frames, .key ((key, value) :: members)⟩
  | .object members key :: frames, .closeObject =>
    some ⟨frames, .behind (.object ((key, value) :: members).reverse)⟩
  | _, _ => none

/-- One token; `none` when no value continues that way. -/
def step? (build : Build) (token : Token) : Option Build :=
  let frames := build.frames
  match build.expects with
  | .value => value? frames token
  | .item =>
    match frames, token with
    | .array [] :: rest, .closeArray => some ⟨rest, .behind (.array [])⟩
    | _, _ => value? frames token
  | .member =>
    match token with
    | .string key => some ⟨frames, .colon [] key⟩
    | .closeObject => some ⟨frames, .behind (.object [])⟩
    | _ => none
  | .key members =>
    match token with
    | .string key => some ⟨frames, .colon members key⟩
    | _ => none
  | .colon members key =>
    match token with
    | .colon => some ⟨.object members key :: frames, .value⟩
    | _ => none
  | .behind value => behind? value frames token

/-- Run the builder over tokens. -/
def run? : Build → List Token → Option Build
  | build, [] => some build
  | build, token :: rest => (step? build token).bind fun next => run? next rest

/-- The value that a whole sequence of tokens spells. -/
def ofTokens? (tokens : List Token) : Option Json :=
  match run? ⟨[], .value⟩ tokens with
  | some ⟨[], .behind value⟩ => some value
  | _ => none

/-- The value that a whole text spells. -/
def parse? (text : String) : Option Json :=
  (Token.scan? text.toList).bind ofTokens?

end Json
end ArrayLift
