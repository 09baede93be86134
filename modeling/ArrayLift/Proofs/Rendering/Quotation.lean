import ArrayLift.Text.Quoted
import Mathlib.Algebra.Ring.Parity
import Mathlib.Algebra.Group.Nat.Even

/-! Literals read back. A scan from left to right takes an escape for the character that it stands for, and ends at
the first quote that is no part of an escape. What is written between the quotes of a literal brings the scan to the
closing quote with the whole text, whatever follows there. -/
namespace ArrayLift.Text.Quoted

/-- What a backslash stands for together with the character behind it. -/
def escaped? : Char → Option Char
  | '\\' => some '\\'
  | '\'' => some '\''
  | 'n' => some '\n'
  | 't' => some '\t'
  | 'r' => some '\r'
  | _ => none

/-- The text up to the first quote that is no part of an escape, or up to the end, and what is left from there on.
An escape of another character, a lone backslash at the end and a raw line break cannot be read. -/
def scan? : List Char → Option (List Char × List Char)
  | [] => some ([], [])
  | ['\\'] => none
  | '\\' :: c :: rest =>
    (escaped? c).bind fun plain => (scan? rest).map fun found => (plain :: found.1, found.2)
  | c :: rest =>
    if c = '\'' then some ([], c :: rest)
    else if c = '\n' ∨ c = '\r' then none
    else (scan? rest).map fun found => (c :: found.1, found.2)

/-- Read a literal at the front of a text: what it denotes, and the text behind its closing quote. -/
def read? (text : String) : Option (String × String) :=
  match text.toList with
  | '\'' :: inside =>
    match scan? inside with
    | some (denoted, '\'' :: behind) => some (String.ofList denoted, String.ofList behind)
    | _ => none
  | _ => none

/-- The count of backslashes at the end of a text. -/
def slashes (text : List Char) : Nat :=
  (text.reverse.takeWhile fun c => c = '\\').length

/-- An odd count of backslashes stands right before every quote: pairs of backslashes, and the one that escapes it. -/
def EscapesQuotes (text : List Char) : Prop :=
  ∀ before behind, text = before ++ '\'' :: behind → Odd (slashes before)

/-- The characters that a backslash stands before. -/
def marks : List Char := ['\\', '\'', 'n', 't', 'r']

/-- A character stands for itself, or it is written as a backslash with a mark. -/
theorem encodeChar_cases (c : Char) :
    (encodeChar c = [c] ∧ c ∉ ['\\', '\'', '\n', '\t', '\r']) ∨
      ∃ mark ∈ marks, encodeChar c = ['\\', mark] ∧ escaped? mark = some c := by
  unfold encodeChar
  split_ifs with slash quote feed tab carriage
  case neg => exact .inl ⟨rfl, by simp [slash, quote, feed, tab, carriage]⟩
  all_goals
    subst c
    exact .inr ⟨_, by decide, rfl, rfl⟩

/-! The scan. -/

theorem scan?_encodeChar (c : Char) (rest : List Char) :
    scan? (encodeChar c ++ rest) = (scan? rest).map fun found => (c :: found.1, found.2) := by
  obtain ⟨same, plain⟩ | ⟨mark, _, same, stands⟩ := encodeChar_cases c
  · simp only [List.mem_cons, List.not_mem_nil, or_false, not_or] at plain
    obtain ⟨slash, quote, feed, _, carriage⟩ := plain
    simp [same, scan?, slash, quote, feed, carriage]
  · simp [same, scan?, stands]

/-- The scan comes through with the text, and goes on from there. -/
theorem scan?_encode (text rest : List Char) :
    scan? (encode text ++ rest) = (scan? rest).map fun found => (text ++ found.1, found.2) := by
  induction text with
  | nil => simp [encode]
  | cons c others ih =>
    rw [encode, List.flatMap_cons, List.append_assoc, scan?_encodeChar, ← encode, ih, Option.map_map]
    rfl

theorem toList_literal (text : String) : (literal text).toList = '\'' :: encode text.toList ++ ['\''] :=
  String.toList_ofList

theorem read?_literal (text rest : String) : read? (literal text ++ rest) = some (text, rest) := by
  have inside : (literal text ++ rest).toList = '\'' :: (encode text.toList ++ '\'' :: rest.toList) := by
    simp [toList_literal]
  have scanned : scan? (encode text.toList ++ '\'' :: rest.toList) = some (text.toList, '\'' :: rest.toList) := by
    simp [scan?_encode, scan?]
  simp only [read?, inside, scanned, String.ofList_toList]

/-! Backslashes and quotes. -/

theorem slashes_append (one other : List Char) :
    slashes (one ++ other) = slashes other + if slashes other = other.length then slashes one else 0 := by
  simp only [slashes, List.reverse_append, List.takeWhile_append, List.length_reverse]
  split_ifs <;> simp [*]

theorem even_slashes_encodeChar (c : Char) : Even (slashes (encodeChar c)) := by
  obtain ⟨same, plain⟩ | ⟨mark, member, same, _⟩ := encodeChar_cases c
  · have slash : c ≠ '\\' := fun equal => plain (by simp [equal])
    simp [same, slashes, slash]
  · rw [same]
    simp only [marks, List.mem_cons, List.not_mem_nil, or_false] at member
    rcases member with rfl | rfl | rfl | rfl | rfl <;> decide

theorem EscapesQuotes.append {one other : List Char} (left : EscapesQuotes one) (even : Even (slashes one))
    (right : EscapesQuotes other) : EscapesQuotes (one ++ other) := by
  intro before behind cut
  rcases List.append_eq_append_iff.mp cut with ⟨middle, rfl, later⟩ | ⟨middle, rfl, earlier⟩
  · -- the backslashes of the first text that are in reach of the quote come in pairs
    rw [slashes_append]
    refine (right middle behind later).add_even ?_
    split_ifs
    · exact even
    · exact Even.zero
  · cases middle with
    | nil => exact absurd (right [] behind earlier.symm) (by decide)
    | cons c rest =>
      obtain ⟨rfl, _⟩ := List.cons.inj earlier
      exact left before rest rfl

theorem escapesQuotes_encodeChar (c : Char) : EscapesQuotes (encodeChar c) := by
  intro before behind cut
  obtain ⟨same, plain⟩ | ⟨mark, _, same, _⟩ := encodeChar_cases c
  · have member : '\'' ∈ [c] := by simp [← same, cut]
    exact absurd (by simp [← List.mem_singleton.mp member]) plain
  · rw [same] at cut
    match before with
    | [] => cases cut
    | [slash] =>
      cases cut
      decide
    | _ :: _ :: _ => simp at cut

theorem escapesQuotes_encode (text : List Char) : EscapesQuotes (encode text) := by
  induction text with
  | nil =>
    intro before behind cut
    simp [encode] at cut
  | cons c rest ih => exact (escapesQuotes_encodeChar c).append (even_slashes_encodeChar c) ih

/-- Line feeds, carriage returns and tabs are always escaped. -/
theorem not_mem_encode {c : Char} (control : c ∈ ['\n', '\r', '\t']) (text : List Char) : c ∉ encode text := by
  intro member
  obtain ⟨source, _, encoded⟩ := List.mem_flatMap.mp member
  obtain ⟨same, plain⟩ | ⟨mark, listed, same, _⟩ := encodeChar_cases source
  · obtain rfl : c = source := List.mem_singleton.mp (same ▸ encoded)
    simp only [List.mem_cons, List.not_mem_nil, or_false] at control plain
    grind
  · simp only [same, marks, List.mem_cons, List.not_mem_nil, or_false] at encoded listed control
    grind

/-- A literal is one piece of a text. It stands between two quotes and has no raw line feed, carriage return or tab
and no other quote that is not escaped; the scan of what is inside gives the text back, so that different texts have
different literals; and read from the front of any text it ends where it was written to end. -/
theorem literal_read (text : String) :
    (literal text).toList = '\'' :: encode text.toList ++ ['\''] ∧
      ('\n' ∉ encode text.toList ∧ '\r' ∉ encode text.toList ∧ '\t' ∉ encode text.toList) ∧
      EscapesQuotes (encode text.toList) ∧ scan? (encode text.toList) = some (text.toList, []) ∧
      Function.Injective literal ∧ ∀ rest, read? (literal text ++ rest) = some (text, rest) := by
  refine ⟨toList_literal text, ⟨?_, ?_, ?_⟩, escapesQuotes_encode _, ?_, ?_, read?_literal text⟩
  · exact not_mem_encode (by simp) _
  · exact not_mem_encode (by simp) _
  · exact not_mem_encode (by simp) _
  · have scanned := scan?_encode text.toList []
    simpa [scan?] using scanned
  · intro one other same
    have read := read?_literal one ""
    rw [same, read?_literal] at read
    exact (congrArg Prod.fst (Option.some.inj read)).symm

-- the last two backslashes belong together, so the quote behind them is not escaped
example : read? "'it\\'s \\\\'n" = some ("it's \\", "n") := by decide

/-- Three quotes, which would open a literal of several lines, are never the front of a text that begins with a
literal, unless the literal is empty and a quote follows at once. -/
theorem opensLong_iff (text rest : String) :
    ['\'', '\'', '\''] <+: (literal text ++ rest).toList ↔ text = "" ∧ ['\''] <+: rest.toList := by
  have inside : (literal text ++ rest).toList = '\'' :: (encode text.toList ++ '\'' :: rest.toList) := by
    simp [toList_literal]
  rw [inside, List.cons_prefix_cons]
  cases chars : text.toList with
  | nil =>
    have empty : text = "" := String.toList_eq_nil_iff.mp chars
    simp [empty, encode]
  | cons c others =>
    have filled : text ≠ "" := fun empty => by simp [empty] at chars
    obtain ⟨same, plain⟩ | ⟨mark, _, same, _⟩ := encodeChar_cases c
    · have quote : '\'' ≠ c := fun equal => plain (by simp [← equal])
      simp [encode, same, filled, quote]
    · simp [encode, same, filled]

end ArrayLift.Text.Quoted
