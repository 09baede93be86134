import ArrayLift.Json.Value

/-! How structured data stands in JSON: records as objects or as arrays of their fields in order,
alternatives as the name of the alternative alone or as an object with that single member. -/
namespace ArrayLift.Json

def text? : Json → Option String
  | .string text => text
  | _ => none

def bool? : Json → Option Bool
  | .bool value => some value
  | _ => none

/-- A whole number within bounds. -/
def intIn? (least greatest : Int) : Json → Option Int
  | .number numeral =>
    numeral.toInt?.bind fun value => if least ≤ value && value ≤ greatest then some value else none
  | _ => none

/-- A natural number of a count of bits. -/
def word? (bits : Nat) (value : Json) : Option Nat :=
  (value.intIn? 0 (Nat.pow 2 bits - 1 : Nat)).map Int.toNat

/-- The members of an object with a given key. -/
def membersAt (key : String) (members : List (Text × Json)) : List Json :=
  (members.filter fun member => member.1 == some key).map Prod.snd

/-- The field of an object, if it is there. -/
def field? (key : String) : Json → Option Json
  | .object members => (membersAt key members).head?
  | _ => none

/-- The fields that a record holds, by name. An object may hold members of other names, but none of
these twice, and every key must denote a text; an array holds the fields in order and may leave
out some at its end. -/
def record? (names : List String) : Json → Option (String → Option Json)
  | .object members =>
    if members.all (fun member => member.1.isSome)
        && names.all (fun name => (membersAt name members).length ≤ 1) then
      some fun name => (membersAt name members).head?
    else none
  | .array items =>
    if items.length ≤ names.length then some fun name => (names.zip items).lookup name else none
  | _ => none

/-- The name of an alternative with what stands beside it: nothing, or the single member of an
object. -/
def alternative? : Json → Option (String × Option Json)
  | .string (some name) => some (name, none)
  | .object [(some name, content)] => some (name, some content)
  | _ => none

/-- A field that must be there. -/
def required {α : Type} (decode : Json → Option α) (field : Option Json) : Option α :=
  field.bind decode

/-- A field that may be missing or null. -/
def optional {α : Type} (decode : Json → Option α) : Option Json → Option (Option α)
  | none | some .null => some none
  | some value => (decode value).map some

/-- A field that has a value when it is missing. -/
def defaulted {α : Type} (value : α) (decode : Json → Option α) : Option Json → Option α
  | none => some value
  | some field => decode field

/-- An alternative that holds nothing: its name alone, or null beside its name. -/
def holdsNothing : Option Json → Bool
  | none | some .null => true
  | _ => false

/-- The members of an object, in order. -/
def ofFields (fields : List (String × Json)) : Json :=
  .object (fields.map fun (name, value) => (some name, value))

def ofText (text : String) : Json :=
  .string (some text)

def ofNat (value : Nat) : Json :=
  .number (Numeral.ofNat value)

def ofInt (value : Int) : Json :=
  .number (Numeral.ofInt value)

/-- An alternative with its content. -/
def ofAlternative (name : String) (content : Json) : Json :=
  ofFields [(name, content)]

/-- A field that is left out when it has no value. -/
def optionalField (name : String) : Option Json → List (String × Json)
  | none => []
  | some value => [(name, value)]

end ArrayLift.Json
