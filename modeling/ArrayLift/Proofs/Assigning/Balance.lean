import ArrayLift.Proofs.Grouping.Lexemes
import ArrayLift.Text.Quoted

/-! Brackets and literals in a text of Python. A text is read character by character, with the characters that it still
awaits on a stack; a balanced text awaits nothing at its end. Where nothing is awaited, a text is cut into pieces. -/
namespace ArrayLift.Python

/-- What closes a bracket. -/
def closing? : Char → Option Char
  | '(' => some ')'
  | '[' => some ']'
  | '{' => some '}'
  | _ => none

def isClosing (c : Char) : Bool :=
  c = ')' || c = ']' || c = '}'

/-- Characters that stand in no expression outside a literal: they start a comment, another kind of literal or another
line. -/
def isForeign (c : Char) : Bool :=
  c = '"' || c = '#' || c = '\\' || c = '\n'

/-- What is awaited behind a character, the nearest first: what closes the open brackets, in a literal its closing
quote, and behind a backslash any character. -/
def awaits (awaited : List Char) (c : Char) : Option (List Char) :=
  if awaited.head? = some '\\' then some awaited.tail
  else if awaited.head? = some '\'' then
    if c = '\'' then some awaited.tail else some (if c = '\\' then c :: awaited else awaited)
  else if c = '\'' then some (c :: awaited)
  else if isForeign c then none
  else if isClosing c then if awaited.head? = some c then some awaited.tail else none
  else some ((closing? c).toList ++ awaited)

/-- Every bracket and every literal of the text is closed in the text. -/
def Balanced (text : String) : Prop :=
  text.toList.foldlM awaits [] = some []

instance (text : String) : Decidable (Balanced text) :=
  inferInstanceAs (Decidable (_ = _))

example : Balanced "f(a['(\\''],[b])" ∧ ¬Balanced "a[(b])" ∧ ¬Balanced "'a" := by decide

/-- The characters that change what is awaited, and those that no expression has outside a literal. -/
def marks : List Char :=
  ['\'', '"', '\\', '#', '\n', '(', ')', '[', ']', '{', '}']

/-- A text without brackets and literals. -/
def Bare (text : String) : Prop :=
  ∀ c ∈ text.toList, c ∉ marks

instance (text : String) : Decidable (Bare text) :=
  decidable_of_iff (text.toList.all (!marks.contains ·) = true) (by simp [Bare])

/-- No literal is open: what is awaited next closes a bracket, if anything is. -/
def Outside (awaited : List Char) : Prop :=
  ∀ next ∈ awaited.head?, isClosing next = true

theorem outside_nil : Outside [] := nofun

theorem outside_cons {closer : Char} (closes : isClosing closer = true) (awaited : List Char) :
    Outside (closer :: awaited) := by
  rintro _ ⟨⟩
  exact closes

theorem isClosing_of_closing? {c closer : Char} (found : closing? c = some closer) : isClosing closer = true := by
  unfold closing? at found
  split at found <;> cases found <;> rfl

section
variable {awaited : List Char} (outside : Outside awaited)
include outside

/-- Outside literals. -/
theorem awaits_outside (c : Char) :
    awaits awaited c =
      if c = '\'' then some (c :: awaited)
      else if isForeign c then none
      else if isClosing c then if awaited.head? = some c then some awaited.tail else none
      else some ((closing? c).toList ++ awaited) := by
  have backslash : awaited.head? ≠ some '\\' := by
    intro same
    exact absurd (outside _ same) (by decide)
  have quote : awaited.head? ≠ some '\'' := by
    intro same
    exact absurd (outside _ same) (by decide)
  rw [awaits, if_neg backslash, if_neg quote]

theorem awaits_unmarked {c : Char} (unmarked : c ∉ marks) : awaits awaited c = some awaited := by
  have others : ∀ mark ∈ marks, c ≠ mark := by
    rintro mark member rfl
    exact unmarked member
  have opens : closing? c = none := by
    unfold closing?
    split <;> first | rfl | exact absurd rfl (others _ (by decide))
  simp only [marks, List.mem_cons, List.not_mem_nil, or_false, not_or] at unmarked
  simp [awaits_outside outside, opens, isForeign, isClosing, unmarked]

theorem awaits_opening {c closer : Char} (opens : closing? c = some closer) :
    awaits awaited c = some (closer :: awaited) := by
  have bracket : c = '(' ∨ c = '[' ∨ c = '{' := by
    unfold closing? at opens
    split at opens <;> simp_all
  rw [awaits_outside outside]
  rcases bracket with rfl | rfl | rfl <;> cases opens <;> rfl

/-- What a text awaits does not depend on the brackets around it. -/
theorem awaits_append {start finish : List Char} {c : Char} (read : awaits start c = some finish) :
    awaits (start ++ awaited) c = some (finish ++ awaited) := by
  cases start with
  | nil =>
    rw [awaits_outside outside_nil] at read
    rw [List.nil_append, awaits_outside outside]
    grind
  | cons next rest =>
    simp only [awaits, List.cons_append, List.head?_cons, List.tail_cons] at read ⊢
    grind

end

theorem awaits_closing {closer : Char} (closes : isClosing closer = true) (awaited : List Char) :
    awaits (closer :: awaited) closer = some awaited := by
  have bracket : closer = ')' ∨ closer = ']' ∨ closer = '}' := by simpa [isClosing, or_assoc] using closes
  rw [awaits_outside (outside_cons closes awaited)]
  rcases bracket with rfl | rfl | rfl <;> rfl

/-! Texts. -/

theorem foldlM_awaits {outer : List Char} (outside : Outside outer) {text start finish : List Char}
    (read : text.foldlM awaits start = some finish) :
    text.foldlM awaits (start ++ outer) = some (finish ++ outer) := by
  induction text generalizing start with
  | nil =>
    cases read
    rfl
  | cons c rest ih =>
    rw [List.foldlM_cons] at read
    obtain ⟨next, first, behind⟩ := Option.bind_eq_some_iff.mp read
    rw [List.foldlM_cons, awaits_append outside first]
    exact ih behind

theorem foldlM_awaits_bare {text : List Char} (bare : ∀ c ∈ text, c ∉ marks) {awaited : List Char}
    (outside : Outside awaited) : text.foldlM awaits awaited = some awaited := by
  induction text with
  | nil => rfl
  | cons c rest ih =>
    obtain ⟨first, others⟩ := List.forall_mem_cons.mp bare
    rw [List.foldlM_cons, awaits_unmarked outside first]
    exact ih others

theorem Bare.append {one other : String} (first : Bare one) (second : Bare other) : Bare (one ++ other) := by
  intro c member
  rcases List.mem_append.mp (String.toList_append ▸ member) with left | right
  · exact first c left
  · exact second c right

namespace Balanced

variable {one other text : String}

/-- A balanced text awaits behind it what was awaited before. -/
theorem inside (balanced : Balanced text) {outer : List Char} (outside : Outside outer) :
    text.toList.foldlM awaits outer = some outer :=
  foldlM_awaits outside balanced

theorem bare (bare : Bare text) : Balanced text :=
  foldlM_awaits_bare bare outside_nil

theorem append (first : Balanced one) (second : Balanced other) : Balanced (one ++ other) := by
  rw [Balanced, String.toList_append, List.foldlM_append, first]
  exact second

/-- Brackets around a balanced text. -/
theorem enclosed {opening closer : Char} (opens : closing? opening = some closer) (inner : Balanced text) :
    Balanced (String.ofList [opening] ++ text ++ String.ofList [closer]) := by
  have closes := isClosing_of_closing? opens
  have between := inner.inside (outside_cons closes [])
  simp only [Balanced, String.toList_append, String.toList_ofList, List.singleton_append,
    List.foldlM_cons, awaits_opening outside_nil opens, Option.bind_eq_bind, Option.bind_some, List.foldlM_append,
    between, awaits_closing closes]
  rfl

theorem parens (inner : Balanced text) : Balanced ("(" ++ text ++ ")") :=
  inner.enclosed rfl

theorem brackets (inner : Balanced text) : Balanced ("[" ++ text ++ "]") :=
  inner.enclosed rfl

theorem intercalate {separator : String} (between : Balanced separator) {texts : List String}
    (each : ∀ text ∈ texts, Balanced text) : Balanced (separator.intercalate texts) := by
  induction texts with
  | nil => exact rfl
  | cons text rest ih =>
    obtain ⟨first, others⟩ := List.forall_mem_cons.mp each
    cases rest with
    | nil => simpa using first
    | cons next more =>
      rw [String.intercalate_cons_cons]
      exact (first.append between).append (ih others)

/-- How a character is written in a literal leaves the literal open. -/
theorem encodeChar (c : Char) : (Text.Quoted.encodeChar c).foldlM awaits ['\''] = some ['\''] := by
  unfold Text.Quoted.encodeChar
  split_ifs with slash quote feed tab carriage
  case neg => simp [awaits, slash, quote]
  all_goals rfl

theorem literal (value : String) : Balanced (Text.Quoted.literal value) := by
  have encoded (chars : List Char) : (Text.Quoted.encode chars).foldlM awaits ['\''] = some ['\''] := by
    induction chars with
    | nil => rfl
    | cons c rest ih =>
      rw [Text.Quoted.encode, List.flatMap_cons, List.foldlM_append, encodeChar]
      exact ih
  rw [Balanced, Text.Quoted.literal, String.toList_ofList, List.cons_append, List.foldlM_cons]
  change (Text.Quoted.encode value.toList ++ ['\'']).foldlM awaits ['\''] = some []
  rw [List.foldlM_append, encoded]
  rfl

end Balanced

/-! Pieces. -/

/-- A text cut at a separator, where nothing is awaited. What cannot be read is in one piece with what is in front. -/
def piecesFrom (separator : Char) : List Char → List Char → List (List Char)
  | _, [] => [[]]
  | awaited, c :: rest =>
    if awaited = [] ∧ c = separator then [] :: piecesFrom separator [] rest
    else match awaits awaited c with
      | some next => (piecesFrom separator next rest).modifyHead (c :: ·)
      | none => [c :: rest]

def pieces (separator : Char) (text : String) : List String :=
  (piecesFrom separator [] text.toList).map String.ofList

example : pieces ',' "a,b[c,d],'e,f'" = ["a", "b[c,d]", "'e,f'"] := by decide

/-- Reading the text takes what is awaited from the start to the finish and cuts nowhere in the text. -/
def Passes (separator : Char) (start text finish : List Char) : Prop :=
  ∀ rest, piecesFrom separator start (text ++ rest) = (piecesFrom separator finish rest).modifyHead (text ++ ·)

namespace Passes

variable {separator : Char} {start middle finish one other text : List Char}

theorem nil : Passes separator start [] start := by
  intro rest
  change _ = (piecesFrom separator start rest).modifyHead id
  rw [List.modifyHead_id]
  rfl

theorem append (first : Passes separator start one middle) (second : Passes separator middle other finish) :
    Passes separator start (one ++ other) finish := by
  intro rest
  rw [List.append_assoc, first, second, List.modifyHead_modifyHead]
  congr 1
  funext piece
  exact (List.append_assoc ..).symm

theorem single {c : Char} (whole : ¬(start = [] ∧ c = separator)) (read : awaits start c = some finish) :
    Passes separator start [c] finish := by
  intro rest
  rw [List.singleton_append, piecesFrom, if_neg whole, read]
  rfl

theorem bare (bare : ∀ c ∈ text, c ∉ marks ∧ c ≠ separator) : Passes separator [] text [] := by
  induction text with
  | nil => exact .nil
  | cons c rest ih =>
    obtain ⟨⟨unmarked, other⟩, others⟩ := List.forall_mem_cons.mp bare
    exact .append (.single (by simp [other]) (awaits_unmarked outside_nil unmarked)) (ih others)

/-- Nothing is cut inside a bracket. -/
theorem inner {closer : Char} (closes : isClosing closer = true) (read : text.foldlM awaits start = some finish) :
    Passes separator (start ++ [closer]) text (finish ++ [closer]) := by
  induction text generalizing start with
  | nil =>
    cases read
    exact .nil
  | cons c rest ih =>
    rw [List.foldlM_cons] at read
    obtain ⟨next, first, behind⟩ := Option.bind_eq_some_iff.mp read
    exact .append (.single (by simp) (awaits_append (outside_cons closes []) first)) (ih behind)

theorem enclosed {opening closer : Char} (opens : closing? opening = some closer) (other : opening ≠ separator)
    {text : String} (balanced : Balanced text) : Passes separator [] (opening :: text.toList ++ [closer]) [] := by
  have closes := isClosing_of_closing? opens
  have opened : Passes separator [] [opening] [closer] := .single (by simp [other]) (awaits_opening outside_nil opens)
  have within : Passes separator [closer] text.toList [closer] := .inner closes balanced
  have closed : Passes separator [closer] [closer] [] := .single (by simp) (awaits_closing closes [])
  exact (opened.append within).append closed

end Passes

section
variable {separator : Char}

theorem piecesFrom_ne_nil (awaited text : List Char) : piecesFrom separator awaited text ≠ [] := by
  induction text generalizing awaited with
  | nil => simp [piecesFrom]
  | cons c rest ih =>
    unfold piecesFrom
    split
    · simp
    · split
      · simpa using ih _
      · simp

theorem Passes.intercalate {between : String} (passes : Passes separator [] between.toList []) {texts : List String}
    (each : ∀ text ∈ texts, Passes separator [] text.toList []) :
    Passes separator [] (between.intercalate texts).toList [] := by
  induction texts with
  | nil => exact .nil
  | cons text rest ih =>
    obtain ⟨first, others⟩ := List.forall_mem_cons.mp each
    cases rest with
    | nil => simpa using first
    | cons next more =>
      rw [String.intercalate_cons_cons, String.toList_append, String.toList_append]
      exact (first.append passes).append (ih others)

theorem piecesFrom_cut {text : List Char} (passes : Passes separator [] text []) (rest : List Char) :
    piecesFrom separator [] (text ++ separator :: rest) = text :: piecesFrom separator [] rest := by
  rw [passes, piecesFrom, if_pos ⟨rfl, rfl⟩]
  simp

theorem piecesFrom_whole {text : List Char} (passes : Passes separator [] text []) :
    piecesFrom separator [] text = [text] := by
  have alone := passes []
  simpa [piecesFrom] using alone

theorem pieces_cut {text : String} (passes : Passes separator [] text.toList []) (rest : String) :
    pieces separator (text ++ String.ofList [separator] ++ rest) = text :: pieces separator rest := by
  have cut := piecesFrom_cut passes rest.toList
  simp [pieces, cut]

theorem pieces_whole {text : String} (passes : Passes separator [] text.toList []) :
    pieces separator text = [text] := by
  simp [pieces, piecesFrom_whole passes]

theorem pieces_intercalate {texts : List String} (some : texts ≠ [])
    (each : ∀ text ∈ texts, Passes separator [] text.toList []) :
    pieces separator ((String.ofList [separator]).intercalate texts) = texts := by
  induction texts with
  | nil => exact absurd rfl some
  | cons text rest ih =>
    obtain ⟨first, others⟩ := List.forall_mem_cons.mp each
    cases rest with
    | nil => simpa using pieces_whole first
    | cons next more => rw [String.intercalate_cons_cons, pieces_cut first, ih (by simp) others]

end

end ArrayLift.Python
