/-! Words that a Python name must not be, and the suffix that keeps a source name clear of them. -/
namespace ArrayLift

/-- A finite set of words that may not be used as names. -/
structure ReservedWords where
  words : List String
  distinct : words.Nodup

namespace ReservedWords

/-- The set without words. -/
def empty : ReservedWords := ⟨[], List.nodup_nil⟩

def contains (reserved : ReservedWords) (name : String) : Bool :=
  reserved.words.contains name

/-- Add one word; a word that is already there changes nothing. -/
def insert (reserved : ReservedWords) (word : String) : ReservedWords :=
  if known : word ∈ reserved.words then reserved
  else ⟨word :: reserved.words, List.nodup_cons.2 ⟨known, reserved.distinct⟩⟩

/-- Add several words. -/
def extend (reserved : ReservedWords) (words : List String) : ReservedWords :=
  words.foldl insert reserved

/-- The number of different words. -/
def size (reserved : ReservedWords) : Nat := reserved.words.length

def isEmpty (reserved : ReservedWords) : Bool := reserved.words.isEmpty

/-- Do both sets hold the same words? -/
def sameWords (left right : ReservedWords) : Bool :=
  left.words.all right.contains && right.words.all left.contains

/-- The keywords of Python, and the builtins and library names that source programs tend to use
as names of their own. -/
def defaultWords : List String :=
  ["and", "as", "assert", "async", "await", "break", "class", "continue", "def", "del", "elif",
    "else", "except", "exec", "finally", "for", "from", "global", "if", "import", "in", "is",
    "lambda", "nonlocal", "not", "or", "pass", "print", "raise", "return", "try", "while", "with",
    "yield", "None", "True", "False",
    "Data", "Float", "Int", "Numeric", "Oxphys", "array", "close", "float", "int", "input",
    "open", "range", "type", "write", "len"]

/-- The words reserved unless a caller says otherwise. -/
def standard : ReservedWords := empty.extend defaultWords

/-- What is put behind a source name that is reserved. -/
def collisionSuffix : String := "_"

/-- The Python name of a source name: suffixed when it is reserved. -/
def pythonName (name : String) (isReserved : Bool) : String :=
  if isReserved then name ++ collisionSuffix else name

end ReservedWords
end ArrayLift
