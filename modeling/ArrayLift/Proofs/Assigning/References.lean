import Mathlib.Data.List.DropRight
import ArrayLift.Proofs.Assigning.Balance
import ArrayLift.Vocabulary.LibraryName

/-! What may stand on the left of an assignment in Python: names, and members and subscripts of what is referred to.
A call refers to something too, but nothing can be assigned to it. -/
namespace ArrayLift.Python

/-- What a reference is, from its outermost part. -/
inductive Reference where
  | name
  | member
  | subscript
  | call
  deriving DecidableEq, Repr

/-- The text is a reference of the kind. -/
inductive Refers : Reference → String → Prop where
  | name {text : String} (named : isName text = true) : Refers .name text
  | member {kind : Reference} {object name : String} (inner : Refers kind object) (named : isName name = true) :
      Refers .member (object ++ "." ++ name)
  | subscript {kind : Reference} {object index : String} (inner : Refers kind object) (balanced : Balanced index)
      (written : index ≠ "") : Refers .subscript (object ++ "[" ++ index ++ "]")
  | call {kind : Reference} {callee arguments : String} (inner : Refers kind callee) (balanced : Balanced arguments) :
      Refers .call (callee ++ "(" ++ arguments ++ ")")

/-- The left-hand sides of an assignment: what stands between the commas in front of the first equality sign, brackets
and literals left alone. -/
def leftSides? (text : String) : Option (List String) :=
  match pieces '=' text with
  | left :: _ :: _ => some ((pieces ',' left).map fun side => String.ofList (side.toList.rdropWhile (· = ' ')))
  | _ => none

/-- The statement assigns: something can be assigned to each of its left-hand sides, or it is a call that sets an
attribute. -/
def Assigns (text : String) : Prop :=
  match leftSides? text with
  | some sides => ∀ side ∈ sides, ∃ kind ≠ Reference.call, Refers kind side
  | none => ∃ arguments, Balanced arguments ∧ text = LibraryName.setAttribute.spelling ++ "(" ++ arguments ++ ")"

/-! Words. -/

theorem continuesWord_of_isWord {text : List Char} (word : isWord text = true) :
    ∀ c ∈ text, continuesWord c = true := by
  cases text with
  | nil => cases word
  | cons first rest =>
    obtain ⟨starts, continues⟩ := Bool.and_eq_true_iff.mp word
    rw [List.forall_mem_cons]
    exact ⟨continuesWord_of_startsWord starts, List.all_eq_true.mp continues⟩

theorem continuesWord_mark (mark : Char) (member : mark ∈ '=' :: ',' :: marks) : continuesWord mark = false := by
  have each : ('=' :: ',' :: marks).all (!continuesWord ·) = true := by decide
  simpa using List.all_eq_true.mp each mark member

theorem unmarked_of_isWord {text : List Char} (word : isWord text = true) : ∀ c ∈ text, c ∉ '=' :: ',' :: marks := by
  intro c member mark
  exact absurd (continuesWord_of_isWord word c member) (by simp [continuesWord_mark c mark])

theorem bare_of_isWord {text : String} (word : isWord text.toList = true) : Bare text := by
  intro c member mark
  exact unmarked_of_isWord word c member (by simp [mark])

theorem isWord_of_isName {text : String} (named : isName text = true) : isWord text.toList = true :=
  (Bool.and_eq_true_iff.mp named).1

namespace Refers

variable {kind : Reference} {text : String}

theorem balanced (refers : Refers kind text) : Balanced text := by
  induction refers with
  | name named => exact .bare (bare_of_isWord (isWord_of_isName named))
  | member inner named ih =>
    exact (ih.append (.bare (by decide))).append (.bare (bare_of_isWord (isWord_of_isName named)))
  | subscript inner balanced written ih => simpa only [String.append_assoc] using ih.append balanced.brackets
  | call inner balanced ih => simpa only [String.append_assoc] using ih.append balanced.parens

/-- Commas and equality signs in a reference are inside brackets. -/
theorem passes (refers : Refers kind text) {separator : Char} (outer : separator = '=' ∨ separator = ',') :
    Passes separator [] text.toList [] := by
  have word {name : String} (named : isName name = true) : Passes separator [] name.toList [] := by
    refine .bare fun c member => ?_
    have unmarked := unmarked_of_isWord (isWord_of_isName named) c member
    simp only [List.mem_cons, not_or] at unmarked
    rcases outer with rfl | rfl
    · exact ⟨unmarked.2.2, unmarked.1⟩
    · exact ⟨unmarked.2.2, unmarked.2.1⟩
  have enclosed {inner : String} (balanced : Balanced inner) :
      Passes separator [] ('(' :: inner.toList ++ [')']) [] ∧
        Passes separator [] ('[' :: inner.toList ++ [']']) [] := by
    rcases outer with rfl | rfl <;>
      exact ⟨.enclosed rfl (by decide) balanced, .enclosed rfl (by decide) balanced⟩
  induction refers with
  | name named => exact word named
  | member inner named ih =>
    have point : Passes separator [] ['.'] [] := by
      rcases outer with rfl | rfl <;> exact .single (by decide) rfl
    have both := (ih.append point).append (word named)
    simpa using both
  | subscript inner balanced written ih =>
    have both := ih.append (enclosed balanced).2
    simpa using both
  | call inner balanced ih =>
    have both := ih.append (enclosed balanced).1
    simpa using both

/-- A call ends with its parenthesis, and no other reference ends like that. -/
theorem last (refers : Refers kind text) :
    ∃ start c, text.toList = start ++ [c] ∧ c ≠ ' ' ∧ (c = ')' ↔ kind = .call) := by
  have word {name : String} (named : isName name = true) :
      ∃ start c, name.toList = start ++ [c] ∧ c ≠ ' ' ∧ c ≠ ')' := by
    have word := isWord_of_isName named
    rcases List.eq_nil_or_concat name.toList with empty | ⟨start, c, shape⟩
    · rw [empty] at word
      cases word
    · have continues := continuesWord_of_isWord word c (by simp [shape])
      refine ⟨start, c, by simpa using shape, ?_, ?_⟩ <;>
      · rintro rfl
        exact absurd continues (by decide)
  cases refers with
  | name named =>
    obtain ⟨start, c, shape, visible, other⟩ := word named
    exact ⟨start, c, shape, visible, by simp [other]⟩
  | @member _ object name inner named =>
    obtain ⟨start, c, shape, visible, other⟩ := word named
    exact ⟨object.toList ++ '.' :: start, c, by simp [shape], visible, by simp [other]⟩
  | @subscript _ object index inner balanced written =>
    exact ⟨object.toList ++ '[' :: index.toList, ']', by simp, by decide, by simp⟩
  | @call _ callee arguments inner balanced =>
    exact ⟨callee.toList ++ '(' :: arguments.toList, ')', by simp, by decide, by simp⟩

/-- Whether something can be assigned to it, the text of a reference alone tells. -/
theorem call_iff {other : Reference} (refers : Refers kind text) (same : Refers other text) :
    kind = .call ↔ other = .call := by
  obtain ⟨start, c, shape, _, call⟩ := refers.last
  obtain ⟨before, last, alike, _, called⟩ := same.last
  obtain ⟨-, ends⟩ := List.append_inj' (shape.symm.trans alike) rfl
  rw [← call, ← called, List.singleton_inj.mp ends]

/-- Blanks behind a reference are not part of it. -/
theorem rdropWhile_blanks (refers : Refers kind text) (count : Nat) :
    (text.toList ++ List.replicate count ' ').rdropWhile (· = ' ') = text.toList := by
  obtain ⟨start, c, shape, visible, _⟩ := refers.last
  induction count with
  | zero =>
    rw [List.replicate_zero, List.append_nil, shape]
    exact List.rdropWhile_concat_neg _ _ _ (by simpa using visible)
  | succ count ih =>
    rw [List.replicate_succ', ← List.append_assoc, List.rdropWhile_concat_pos _ _ _ (by simp)]
    exact ih

end Refers

/-! Statements. -/

/-- What stands in front of the first equality sign is cut at its commas. -/
theorem leftSides?_eq {left : String} (passes : Passes '=' [] left.toList []) (value : String) :
    leftSides? (left ++ "=" ++ value) =
      some ((pieces ',' left).map fun side => String.ofList (side.toList.rdropWhile (· = ' '))) := by
  have cut := pieces_cut passes value
  have some : piecesFrom '=' [] value.toList ≠ [] := piecesFrom_ne_nil [] value.toList
  obtain ⟨next, more, behind⟩ := List.exists_cons_of_ne_nil some
  change pieces '=' (left ++ "=" ++ value) = _ at cut
  rw [leftSides?, cut, pieces, behind]
  rfl

/-- References with commas between them. -/
theorem leftSides?_several {sides : List String} (written : sides ≠ [])
    (each : ∀ side ∈ sides, ∃ kind, Refers kind side) (value : String) :
    leftSides? (String.intercalate "," sides ++ "=" ++ value) = some sides := by
  have comma : Passes '=' [] ",".toList [] := .single (by decide) rfl
  have whole : Passes '=' [] (String.intercalate "," sides).toList [] := comma.intercalate fun side member => by
    obtain ⟨kind, refers⟩ := each side member
    exact refers.passes (.inl rfl)
  have cut : pieces ',' (String.intercalate "," sides) = sides := pieces_intercalate written fun side member => by
    obtain ⟨kind, refers⟩ := each side member
    exact refers.passes (.inr rfl)
  rw [leftSides?_eq whole, cut]
  refine congrArg some ((List.map_congr_left fun side member => ?_).trans (List.map_id sides))
  obtain ⟨kind, refers⟩ := each side member
  have trimmed := refers.rdropWhile_blanks 0
  rw [List.replicate_zero, List.append_nil] at trimmed
  rw [trimmed, String.ofList_toList, id]

/-- One reference with a blank behind it. -/
theorem leftSides?_spaced {kind : Reference} {side : String} (refers : Refers kind side) (value : String) :
    leftSides? (side ++ " " ++ "=" ++ value) = some [side] := by
  have spaced {separator : Char} (outer : separator = '=' ∨ separator = ',') :
      Passes separator [] (side ++ " ").toList [] := by
    rw [String.toList_append]
    refine (refers.passes outer).append ?_
    rcases outer with rfl | rfl <;> exact .single (by decide) rfl
  have trimmed := refers.rdropWhile_blanks 1
  rw [leftSides?_eq (spaced (.inl rfl)), pieces_whole (spaced (.inr rfl))]
  simp only [List.map_cons, List.map_nil, String.toList_append]
  exact congrArg (fun side => some [String.ofList side]) trimmed |>.trans (by rw [String.ofList_toList])

/-- A call has no left-hand sides. -/
theorem leftSides?_call {kind : Reference} {text : String} (refers : Refers kind text) : leftSides? text = none := by
  rw [leftSides?, pieces_whole (refers.passes (.inl rfl))]

/-- A statement with left-hand sides assigns exactly if none of them is a call. -/
theorem assigns_iff {text : String} {sides : List String} (found : leftSides? text = some sides)
    (each : ∀ side ∈ sides, ∃ kind, Refers kind side) : Assigns text ↔ ∀ side ∈ sides, ¬Refers .call side := by
  rw [Assigns, found]
  constructor
  · intro assigns side member called
    obtain ⟨kind, plain, refers⟩ := assigns side member
    exact plain ((refers.call_iff called).mpr rfl)
  · intro plain side member
    obtain ⟨kind, refers⟩ := each side member
    refine ⟨kind, ?_, refers⟩
    rintro rfl
    exact plain side member refers

end ArrayLift.Python
