import ArrayLift.Proofs.Layout.Origins
import ArrayLift.Proofs.Layout.Shows

/-! What comments do to the code of a program. A comment is written as its text has it, so that only the first line of
the text is sure to be a comment in Python too: comments add no code exactly if what follows a line break in them is
blank or a comment by itself. -/
namespace ArrayLift

def Origin.comment? : Origin → Option String
  | .assignment .. => none
  | .comment text => some text

/-- The texts of the comments of a program. -/
def Program.comments (program : Program) : List String :=
  program.origins.filterMap Origin.comment?

namespace Code

namespace Comment

/-- The lines of the text behind its first one, without the blanks around the text. -/
def furtherLines (text : String) : List (List Char) :=
  ((Text.trimStart (Text.trimEnd text.toList)).splitOnP isBreak).tail

/-- Every line behind the first is blank, or starts behind its blanks with the marker of Python. -/
def Inert (text : String) : Prop :=
  ∀ line ∈ furtherLines text, ∀ first ∈ (Text.trimStart line).head?, first = '#'

end Comment

theorem Row.ofLine?_eq_none_iff (line : List Char) :
    Row.ofLine? line = none ↔ ∀ first ∈ (Text.trimStart line).head?, first = '#' := by
  unfold Row.ofLine?
  split <;> simp_all

theorem Comment.inert_iff (text : String) : Inert text ↔ (furtherLines text).filterMap Row.ofLine? = [] := by
  simp only [Inert, List.filterMap_eq_nil_iff, Row.ofLine?_eq_none_iff]

/-! The rows of a comment. -/

/-- What stands in front of a text in its first line leaves the others as they are. -/
theorem splitOnP_append_of_forall_mem {p : Char → Bool} {before : List Char} (unbroken : ∀ c ∈ before, p c = false)
    (text : List Char) : (before ++ text).splitOnP p = (text.splitOnP p).modifyHead (before ++ ·) := by
  induction before with
  | nil => exact (congrFun List.modifyHead_id _).symm
  | cons c rest ih =>
    obtain ⟨first, later⟩ := List.forall_mem_cons.mp unbroken
    rw [List.cons_append, List.splitOnP_cons_eq_if_modifyHead, ih later, if_neg (by simp [first]),
      List.modifyHead_modifyHead]
    rfl

theorem isBreak_of_isMarker {c : Char} (marker : Comment.isMarker c = true) : isBreak c = false := by
  simp only [Comment.isMarker, Bool.or_eq_true, decide_eq_true_eq] at marker
  obtain rfl | rfl := marker <;> decide

theorem isBlank_of_isMarker {c : Char} (marker : Comment.isMarker c = true) : Text.isBlank c = false := by
  simp only [Comment.isMarker, Bool.or_eq_true, decide_eq_true_eq] at marker
  obtain rfl | rfl := marker <;> decide

/-- The end of a trimmed text is not blank. -/
theorem eq_nil_of_suffix_trimEnd {text ending : List Char} (suffix : ending <:+ Text.trimEnd text)
    (blank : ending.all Text.isBlank = true) : ending = [] := by
  obtain ⟨before, whole⟩ := suffix
  have start := List.head?_dropWhile_not Text.isBlank text.reverse
  rw [← List.reverse_reverse (text.reverse.dropWhile _), ← Text.trimEnd, ← whole, List.reverse_append] at start
  cases last : ending.reverse with
  | nil => exact List.reverse_eq_nil_iff.mp last
  | cons c rest =>
    have inside : c ∈ ending := List.mem_reverse.mp (last ▸ List.mem_cons_self)
    rw [last, List.cons_append] at start
    exact absurd (List.all_eq_true.mp blank c inside) (by simpa using start)

/-- Behind markers the lines of a text are those of what follows the markers. -/
theorem tail_splitOnP_markers {markers : List Char} (marked : ∀ c ∈ markers, Comment.isMarker c = true)
    (some : markers ≠ []) (body : List Char) :
    ((Text.trimStart (markers ++ body)).splitOnP isBreak).tail = (body.splitOnP isBreak).tail := by
  obtain ⟨first, rest, rfl⟩ := List.exists_cons_of_ne_nil some
  have visible := isBlank_of_isMarker (marked first List.mem_cons_self)
  rw [Text.trimStart, List.cons_append, List.dropWhile_cons_of_neg (by simp [visible]), ← List.cons_append,
    splitOnP_append_of_forall_mem fun c member => isBreak_of_isMarker (marked c member), List.tail_modifyHead]

theorem toList_written_lineAt (settings : Settings) (level : Nat) {text : String} (some : text ≠ "") :
    ((lineAt level text).written settings).toList =
      List.replicate (settings.indentWidth * level) ' ' ++ text.toList := by
  rw [Line.written, content_lineAt, if_neg (by simpa [lineAt] using some), String.toList_append, Settings.indent,
    Settings.blanks, String.toList_ofList]
  rfl

/-- In a line that starts with the marker nothing is code; what follows a line break may be. -/
theorem rows_marked (settings : Settings) (level : Nat) (middle : List Char)
    (unbroken : ∀ c ∈ middle, isBreak c = false) (text : List Char) :
    Row.ofText ((lineAt level (String.ofList ('#' :: middle ++ text))).written settings) =
      (text.splitOnP isBreak).tail.filterMap Row.ofLine? := by
  have inLine : ∀ c ∈ List.replicate (settings.indentWidth * level) ' ' ++ '#' :: middle, isBreak c = false := by
    simp only [List.mem_append, List.mem_replicate, List.mem_cons]
    rintro c (⟨-, rfl⟩ | rfl | inside)
    · decide
    · decide
    · exact unbroken c inside
  rw [Row.ofText, toList_written_lineAt settings level (by simp), String.toList_ofList, ← List.append_assoc,
    splitOnP_append_of_forall_mem inLine]
  obtain ⟨first, rest, parts⟩ := List.exists_cons_of_ne_nil (List.splitOnP_ne_nil isBreak text)
  simp [parts, Row.ofLine?_comment]

/-- The rows of a comment are those of the lines behind its first one, wherever it stands. -/
theorem rows_comment (settings : Settings) (level : Nat) (text : String) :
    Row.ofText ((lineAt level (Comment.line text)).written settings) =
      (Comment.furtherLines text).filterMap Row.ofLine? := by
  have marked : ∀ c ∈ (Text.trimEnd text.toList).takeWhile Comment.isMarker, Comment.isMarker c = true :=
    List.all_eq_true.mp List.all_takeWhile
  have suffix := List.dropWhile_suffix (l := Text.trimEnd text.toList) Comment.isMarker
  have whole := List.takeWhile_append_dropWhile (p := Comment.isMarker) (l := Text.trimEnd text.toList)
  have ended := eq_nil_of_suffix_trimEnd suffix
  simp only [Comment.line, Comment.furtherLines]
  generalize Text.trimEnd text.toList = trimmed at *
  split_ifs with blank same
  · -- Nothing but markers is left of the text, and so no line break.
    rw [ended blank, List.append_nil] at whole
    have inLine : ∀ c ∈ Text.trimStart trimmed, isBreak c = false := fun c member =>
      isBreak_of_isMarker (marked c (by rw [whole]; exact List.dropWhile_subset _ member))
    rw [List.splitOnP_eq_singleton inLine]
    rfl
  · rw [suffix.eq_of_length same]
    exact rows_marked settings level [' '] (List.forall_mem_singleton.mpr rfl) _
  · have some : trimmed.takeWhile Comment.isMarker ≠ [] := fun none => by
      rw [none, List.nil_append] at whole
      exact same (congrArg List.length whole)
    rw [← whole, tail_splitOnP_markers marked some, whole]
    exact rows_marked settings level [] (by simp) _

/-! The rows of a program. -/

theorem ofText_line (settings : Settings) (line : Line) (rest : List Line) :
    Row.ofText (Line.layout settings (line :: rest)) =
      Row.ofText (line.written settings) ++ Row.ofText (Line.layout settings rest) := by
  have text : (Line.layout settings (line :: rest)).toList =
      (line.written settings).toList ++ '\n' :: (Line.layout settings rest).toList := by
    simp [Line.layout, Line.render_eq]
  rw [Row.ofText, text, List.splitOnP_append_cons _ _ (by decide), List.filterMap_append]
  rfl

/-- A comment has no code in its lines exactly if it is inert. -/
theorem stmtLines_comment_iff (settings : Settings) (line : SourceLine) (text : String) (level : Nat)
    (keyword : String) :
    ∃ lines, stmtLines settings.reserved (.comment line text) level keyword = .ok lines ∧
      (Row.ofText (Line.layout settings lines) = [] ↔ Comment.Inert text) := by
  refine ⟨_, rfl, ?_⟩
  have alone := ofText_line settings (lineAt level (Comment.line text)) []
  rw [rows_comment] at alone
  rw [alone, Comment.inert_iff]
  exact iff_of_eq (congrArg (· = []) (List.append_nil _))

/-- The texts of comments may add rows, and do not unless one of them is not inert. -/
theorem Composed.rows {words : ReservedWords} {origins : List Origin} {lines bare : List Line}
    (composed : Composed words origins lines bare) (settings : Settings) :
    (Row.ofText (Line.layout settings bare)).Sublist (Row.ofText (Line.layout settings lines)) ∧
      (Row.ofText (Line.layout settings lines) = Row.ofText (Line.layout settings bare) ↔
        ∀ text ∈ origins.filterMap Origin.comment?, Comment.Inert text) := by
  induction composed with
  | nil => simp
  | other _ _ ih | assignment _ _ ih =>
    simp only [ofText_line]
    exact ⟨ih.1.append_left _, (List.append_cancel_left_eq ..).to_iff.trans ih.2⟩
  | comment level text _ ih =>
    obtain ⟨kept, same⟩ := ih
    have blank : Row.ofText ((lineAt level "").written settings) = [] := rfl
    simp only [ofText_line, rows_comment, blank, List.nil_append, List.filterMap_cons, Origin.comment?,
      List.forall_mem_cons, Comment.inert_iff text, ← same]
    refine ⟨kept.trans (List.sublist_append_right ..), fun all => ?_, fun ⟨silent, others⟩ => ?_⟩
    · -- The rows of the others are no fewer, so that nothing is left for the comment.
      have count := congrArg List.length all
      have fewer := kept.length_le
      have silent : (Comment.furtherLines text).filterMap Row.ofLine? = [] := by
        rw [← List.length_eq_zero_iff]
        simp only [List.length_append] at count
        omega
      exact ⟨silent, by simpa [silent] using all⟩
    · rw [silent, others, List.nil_append]

/-- What comments do to code. The lines of a comment, at any level, hold no code exactly if the comment is inert: each
line of its text behind the first is blank, or a comment by itself. Without the texts of the comments there is the same
fault, or a text without any other code; it has all of the code exactly if every comment of the program is inert. -/
theorem generate_comments_iff (settings : Settings) (program : Program) :
    (∀ text ∈ program.comments, ∀ line level keyword, ∃ lines,
      stmtLines settings.reserved (.comment line text) level keyword = .ok lines ∧
        (Row.ofText (Line.layout settings lines) = [] ↔ Comment.Inert text)) ∧
    Agree (fun text bare => (Row.ofText bare).Sublist (Row.ofText text) ∧
        (Row.ofText text = Row.ofText bare ↔ ∀ comment ∈ program.comments, Comment.Inert comment))
      (generate settings program) (generate settings program.uncommented) :=
  ⟨fun text _ line level keyword => stmtLines_comment_iff settings line text level keyword,
    .bind (programLines_traced settings.reserved program) fun _ _ composed => .pure (composed.rows settings)⟩

/-- A comment with an assignment in its second line. -/
def assignmentInComment : Program :=
  ⟨[.comment 1 "% a\nx = 1"]⟩

/-- The second line of the comment becomes code. -/
theorem assignmentInComment_assigns :
    generate {} assignmentInComment = .ok "# a\nx = 1\npass\n" ∧
    Row.ofText "# a\nx = 1\npass\n" = [⟨0, "x = 1"⟩, ⟨0, "pass"⟩] ∧
    generate {} assignmentInComment.uncommented = .ok "\npass\n" ∧
    Row.ofText "\npass\n" = [⟨0, "pass"⟩] ∧
    ¬Comment.Inert "% a\nx = 1" := by
  refine ⟨by decide, rfl, by decide +kernel, rfl, ?_⟩
  rw [Comment.inert_iff]
  decide

end Code
end ArrayLift
