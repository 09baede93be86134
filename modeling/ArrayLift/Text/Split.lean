/-! Cutting a text at every occurrence of a character. -/
namespace ArrayLift.Text

/-- The parts between the separators, empty ones included; there is always at least one. -/
def splitAt (separator : Char) : List Char → List (List Char)
  | [] => [[]]
  | c :: rest =>
    if c = separator then [] :: splitAt separator rest
    else match splitAt separator rest with
      | [] => [[c]]
      | first :: others => (c :: first) :: others

/-- The parts as strings. -/
def parts (separator : Char) (text : String) : List String :=
  (splitAt separator text.toList).map String.ofList

end ArrayLift.Text
