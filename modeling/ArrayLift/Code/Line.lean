import ArrayLift.Settings

/-! Lines of Python text apart from their layout: what a line says and how deep it stands is
decided by generation, how wide a level is and which comment follows an assignment by the
settings. -/
namespace ArrayLift.Code

/-- One line of output. -/
structure Line where
  level : Nat
  text : String
  /-- The source line of the assignment that the line holds. -/
  assignment : Option UInt32 := none
  deriving DecidableEq, Repr

namespace Line

/-- The line without text. -/
def blank : Line := ⟨0, "", none⟩

/-- The comment that tells which source line an assignment comes from. -/
def provenance (file : String) (line : UInt32) : String :=
  "  # " ++ file ++ ":" ++ toString line.toNat

/-- The code of the line with its trailing comment, without indentation. -/
def content (settings : Settings) (line : Line) : String :=
  match settings.sourceName, line.assignment with
  | some file, some number => line.text ++ provenance file number
  | _, _ => line.text

/-- The line as it is written: an empty text carries no indentation. -/
def render (settings : Settings) (line : Line) : String :=
  if line.text.isEmpty then "\n"
  else settings.indent line.level ++ line.content settings ++ "\n"

/-- Lines one below the other. -/
def layout (settings : Settings) (lines : List Line) : String :=
  String.join (lines.map (render settings))

end Line
end ArrayLift.Code
