import ArrayLift.Vocabulary.ReservedWords

/-! What a caller can choose about the compilation of one program. -/
namespace ArrayLift

/-- The settings that resolution and generation share. -/
structure Settings where
  /-- The number of blanks per level of indentation. -/
  indentWidth : Nat := 4
  /-- Is every diagnostic an error? -/
  strict : Bool := false
  /-- The file named in the comment behind each assignment; `none` leaves the comments out. -/
  sourceName : Option String := none
  /-- The names that are suffixed in the output. -/
  reserved : ReservedWords := ReservedWords.standard

namespace Settings

/-- A run of blanks. -/
def blanks (count : Nat) : String :=
  String.ofList (List.replicate count ' ')

/-- The blanks in front of a line at a level. -/
def indent (settings : Settings) (level : Nat) : String :=
  blanks (settings.indentWidth * level)

end Settings
end ArrayLift
