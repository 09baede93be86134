import ArrayLift.Json.Value

/-! The text of a JSON value, without blanks. -/
namespace ArrayLift.Json

/-- The digits of a number in base sixteen, as many as there are places. -/
def hexDigits : (places : Nat) → Nat → List Char
  | 0, _ => []
  | places + 1, value => hexDigits places (value / 16) ++ [Nat.digitChar (value % 16)]

/-- How one character stands in a string. -/
def encodeChar (c : Char) : List Char :=
  if c = '"' then ['\\', '"']
  else if c = '\\' then ['\\', '\\']
  else if c = '\n' then ['\\', 'n']
  else if c = '\r' then ['\\', 'r']
  else if c = '\t' then ['\\', 't']
  else if c = '\x08' then ['\\', 'b']
  else if c = '\x0c' then ['\\', 'f']
  else if c.toNat < 0x20 then '\\' :: 'u' :: hexDigits 4 c.toNat
  else [c]

/-- A string with its quotes. A text that no string denotes is written as a lone half of a
surrogate pair, which reads back as such. -/
def quoted : Text → List Char
  | some text => '"' :: text.toList.flatMap encodeChar ++ ['"']
  | none => ['"', '\\', 'u', 'd', '8', '0', '0', '"']

mutual
/-- The text of a value. -/
def text : Json → List Char
  | .null => ['n', 'u', 'l', 'l']
  | .bool true => ['t', 'r', 'u', 'e']
  | .bool false => ['f', 'a', 'l', 's', 'e']
  | .number numeral => numeral.text
  | .string value => quoted value
  | .array items => '[' :: itemsText items ++ [']']
  | .object members => '\x7b' :: membersText members ++ ['\x7d']

/-- The items of an array with commas between them. -/
def itemsText : List Json → List Char
  | [] => []
  | [item] => text item
  | item :: rest => text item ++ ',' :: itemsText rest

/-- The members of an object with commas between them. -/
def membersText : List (Text × Json) → List Char
  | [] => []
  | [(key, value)] => quoted key ++ ':' :: text value
  | (key, value) :: rest => quoted key ++ ':' :: text value ++ ',' :: membersText rest
end

/-- The text of a value as a string. -/
def render (value : Json) : String :=
  String.ofList value.text

end ArrayLift.Json
