import ArrayLift.Text.Blank

/-! Comments: the markers of the source language become the single marker of Python. -/
namespace ArrayLift.Code.Comment
open Text

/-- The characters that mark a comment in the source language. -/
def isMarker (c : Char) : Bool :=
  c = '%' || c = '#'

/-- The Python comment for the text of a source comment. Blank text gives an empty line; text
without a marker gets one and a blank; otherwise the run of markers becomes one marker. -/
def line (text : String) : String :=
  let trimmed := trimEnd text.toList
  let body := trimmed.dropWhile isMarker
  if body.all isBlank then ""
  else if body.length = trimmed.length then String.ofList ('#' :: ' ' :: trimStart body)
  else String.ofList ('#' :: body)

end ArrayLift.Code.Comment
