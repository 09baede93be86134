import ArrayLift.Proofs.Layout.Offside
import ArrayLift.Proofs.Layout.Solid

/-! Python text read by its indentation: the lines that are neither blank nor comments, put together as blocks. Lines
as they are laid out read back one by one. -/
namespace ArrayLift.Code

/-- The row of a line of text; a line that is blank, or only a comment, is none. -/
def Row.ofLine? (line : List Char) : Option Row :=
  match Text.trimStart line with
  | [] => none
  | first :: _ =>
    if first = '#' then none
    else some ⟨(line.takeWhile (· = ' ')).length, String.ofList (line.dropWhile (· = ' '))⟩

/-- The rows of a text. -/
def Row.ofText (text : String) : List Row :=
  (text.toList.splitOnP isBreak).filterMap Row.ofLine?

/-- The blocks of a text, if its indentation is that of Python. -/
def Block.ofText? (width : Nat) (text : String) : Option (List Block) :=
  Block.read width (Row.ofText text)

theorem trimStart_indented (count : Nat) (text : List Char) :
    Text.trimStart (List.replicate count ' ' ++ text) = Text.trimStart text := by
  induction count with
  | zero => rfl
  | succ count ih =>
    have blank : Text.isBlank ' ' = true := by decide
    simp_all [Text.trimStart, List.replicate_succ]

/-- A line that says something is a row. -/
theorem Row.ofLine?_opens (count : Nat) {text : List Char} (opened : opens text = true) :
    Row.ofLine? (List.replicate count ' ' ++ text) = some ⟨count, String.ofList text⟩ := by
  cases text with
  | nil => cases opened
  | cons first rest =>
    simp only [opens, Bool.and_eq_true, Bool.not_eq_true', decide_eq_true_eq] at opened
    obtain ⟨visible, code⟩ := opened
    have other : first ≠ ' ' := by
      rintro rfl
      cases visible
    have trimmed : Text.trimStart (first :: rest) = first :: rest := by simp [Text.trimStart, visible]
    simp [Row.ofLine?, trimStart_indented, trimmed, code, other, List.takeWhile_append_of_pos,
      List.dropWhile_append_of_pos]

/-- A comment is no row. -/
theorem Row.ofLine?_comment (count : Nat) (rest : List Char) :
    Row.ofLine? (List.replicate count ' ' ++ '#' :: rest) = none := by
  have trimmed : Text.trimStart ('#' :: rest) = '#' :: rest := by
    simp [Text.trimStart, Text.isBlank, Text.blankRanges]
  simp [Row.ofLine?, trimStart_indented, trimmed]

namespace Line

/-- The row that a line becomes. -/
def row? (settings : Settings) (line : Line) : Option Row :=
  if line.text.isEmpty then none
  else Row.ofLine? (List.replicate (settings.indentWidth * line.level) ' ' ++ (line.content settings).toList)

/-- The line as it is written, without its end. -/
def written (settings : Settings) (line : Line) : String :=
  if line.text.isEmpty then "" else settings.indent line.level ++ line.content settings

theorem render_eq (settings : Settings) (line : Line) : line.render settings = line.written settings ++ "\n" := by
  unfold render written
  split <;> rfl

/-- The last line ends like the others. -/
theorem layout_ends (settings : Settings) {lines : List Line} (some : lines ≠ []) :
    ∃ start, layout settings lines = start ++ "\n" := by
  obtain ⟨init, last, rfl⟩ := (List.eq_nil_or_concat lines).resolve_left some
  refine ⟨layout settings init ++ last.written settings, ?_⟩
  simp [layout, render_eq, String.append_assoc]

theorem ofLine?_written (settings : Settings) (line : Line) :
    Row.ofLine? (line.written settings).toList = line.row? settings := by
  unfold written row?
  split
  · rfl
  · simp [Settings.indent, Settings.blanks]

theorem unbroken_written (settings : Settings) {line : Line} (unbroken : Unbroken (line.content settings)) :
    Unbroken (line.written settings) := by
  unfold written
  split
  · decide
  · refine (unbroken_append ..).mpr ⟨fun c member => ?_, unbroken⟩
    rw [Settings.indent, Settings.blanks, String.toList_ofList] at member
    obtain rfl := List.eq_of_mem_replicate member
    decide

/-- Lines in which no line ends become their rows, one by one. -/
theorem ofText_layout (settings : Settings) {lines : List Line}
    (unbroken : ∀ line ∈ lines, Unbroken (line.content settings)) :
    Row.ofText (layout settings lines) = lines.filterMap (row? settings) := by
  induction lines with
  | nil => rfl
  | cons line rest ih =>
    obtain ⟨first, others⟩ := List.forall_mem_cons.mp unbroken
    have text : (layout settings (line :: rest)).toList =
        (line.written settings).toList ++ '\n' :: (layout settings rest).toList := by
      simp [layout, render_eq]
    rw [Row.ofText, text, List.splitOnP_append_cons_of_forall_mem (unbroken_written settings first) '\n' (by decide)]
    rw [List.filterMap_cons, List.filterMap_cons, ofLine?_written]
    rw [← Row.ofText, ih others]

end Line
end ArrayLift.Code
