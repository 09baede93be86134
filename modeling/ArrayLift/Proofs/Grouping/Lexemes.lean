import ArrayLift.Proofs.Naming.DefaultWords
import Mathlib.Data.List.Basic

/-! The lexemes of a line of Python: words, decimal numbers and marks. A lexeme is as long as it can be, and blanks
end it. -/
namespace ArrayLift.Python

/-- May a word start with the character? -/
def startsWord (c : Char) : Bool :=
  c.isAlpha || c = '_'

def continuesWord (c : Char) : Bool :=
  c.isAlphanum || c = '_'

def isWord : List Char → Bool
  | [] => false
  | first :: rest => startsWord first && rest.all continuesWord

/-- The words that are not names. -/
def keywords : List String :=
  ["False", "None", "True", "and", "as", "assert", "async", "await", "break", "class", "continue", "def", "del",
    "elif", "else", "except", "finally", "for", "from", "global", "if", "import", "in", "is", "lambda", "nonlocal",
    "not", "or", "pass", "raise", "return", "try", "while", "with", "yield"]

theorem suffixed_not_mem_keywords (name : String) : name ++ ReservedWords.collisionSuffix ∉ keywords :=
  ReservedWords.suffixed_not_mem (by decide) name

def isName (text : String) : Bool :=
  isWord text.toList && !keywords.contains text

/-- How far a decimal number has come. -/
inductive NumberPart where
  | whole
  | fraction
  /-- At the letter before the power of ten. -/
  | mark
  | sign
  | power
  deriving DecidableEq, Repr

def NumberPart.next? : NumberPart → Char → Option NumberPart
  | .whole, c =>
    if c.isDigit then some .whole else if c = '.' then some .fraction
    else if c = 'e' || c = 'E' then some .mark else none
  | .fraction, c => if c.isDigit then some .fraction else if c = 'e' || c = 'E' then some .mark else none
  | .mark, c => if c.isDigit then some .power else if c = '+' || c = '-' then some .sign else none
  | .sign, c | .power, c => if c.isDigit then some .power else none

/-- May a number end here? -/
def NumberPart.isEnd : NumberPart → Bool
  | .whole | .fraction | .power => true
  | .mark | .sign => false

/-- How far the characters of a number have come; `none` if they start no number. -/
def numberPart? : List Char → Option NumberPart
  | [] => none
  | first :: rest => if first.isDigit then rest.foldlM NumberPart.next? .whole else none

def isNumber (text : String) : Bool :=
  (numberPart? text.toList).any NumberPart.isEnd

/-- The marks of more than one character. -/
def longMarks : List String :=
  ["!=", "%=", "&=", "**", "**=", "*=", "+=", "-=", "->", "...", "//", "//=", "/=", ":=", "<<", "<<=", "<=", "==",
    ">=", ">>", ">>=", "@=", "^=", "|="]

/-- Do the characters start a lexeme of more than one character? -/
def begins (start : List Char) : Bool :=
  isWord start || (numberPart? start).isSome || longMarks.any fun mark => start.isPrefixOf mark.toList

/-- The lexeme that ends here, if there is one. -/
def flush : List Char → List String
  | [] => []
  | pending => [String.ofList pending]

/-- The lexemes of a text behind the start of one. -/
def lexemesFrom : List Char → List Char → List String
  | pending, [] => flush pending
  | pending, c :: rest =>
    if c = ' ' then flush pending ++ lexemesFrom [] rest
    else if pending.isEmpty || begins (pending ++ [c]) then lexemesFrom (pending ++ [c]) rest
    else String.ofList pending :: lexemesFrom [c] rest

def lexemes (text : String) : List String :=
  lexemesFrom [] text.toList

example : lexemes "(a<=1.5e-3-b)" = ["(", "a", "<=", "1.5e-3", "-", "b", ")"] := by decide

/-! Lexemes with something behind them. -/

/-- A lexeme goes on through all these characters. -/
def Grows : List Char → List Char → Prop
  | _, [] => True
  | pending, c :: rest => c ≠ ' ' ∧ begins (pending ++ [c]) = true ∧ Grows (pending ++ [c]) rest

instance Grows.decide : ∀ pending more, Decidable (Grows pending more)
  | _, [] => isTrue trivial
  | pending, c :: rest =>
    have := Grows.decide (pending ++ [c]) rest
    inferInstanceAs (Decidable (_ ∧ _ ∧ _))

/-- The characters are a start of a lexeme. -/
def IsLexeme : List Char → Prop
  | [] => False
  | first :: rest => first ≠ ' ' ∧ Grows [first] rest

instance : ∀ chars, Decidable (IsLexeme chars)
  | [] => isFalse id
  | first :: rest => inferInstanceAs (Decidable (first ≠ ' ' ∧ Grows [first] rest))

/-- A lexeme does not go on into what is behind it. -/
def Apart (text : String) (behind : List Char) : Prop :=
  ∀ c ∈ behind.head?, c = ' ' ∨ begins (text.toList ++ [c]) = false

theorem lexemesFrom_grows {pending more : List Char} (started : pending ≠ []) (grows : Grows pending more)
    (behind : List Char) : lexemesFrom pending (more ++ behind) = lexemesFrom (pending ++ more) behind := by
  induction more generalizing pending with
  | nil => simp
  | cons c rest ih =>
    obtain ⟨some, goes, later⟩ := grows
    rw [List.cons_append, lexemesFrom, if_neg some, if_pos (by simp [goes]), ih (by simp) later, List.append_assoc]
    rfl

theorem lexemesFrom_blank (behind : List Char) : lexemesFrom [] (' ' :: behind) = lexemesFrom [] behind := rfl

theorem lexemesFrom_apart {text : String} (some : text.toList ≠ []) {behind : List Char} (apart : Apart text behind) :
    lexemesFrom text.toList behind = text :: lexemesFrom [] behind := by
  have ended : flush text.toList = [text] := by
    cases shape : text.toList with
    | nil => exact absurd shape some
    | cons first rest => simp only [flush, ← shape, String.ofList_toList]
  cases behind with
  | nil => exact ended
  | cons c rest =>
    rw [lexemesFrom]
    by_cases blank : c = ' '
    · subst blank
      rw [if_pos rfl, ended, lexemesFrom_blank]
      rfl
    · have stops := (apart c rfl).resolve_left blank
      have here : lexemesFrom [] (c :: rest) = lexemesFrom [c] rest := by simp [lexemesFrom, blank]
      rw [if_neg blank, if_neg (by simp [some, stops]), String.ofList_toList, here]

theorem lexemesFrom_lexeme {text : String} (lexeme : IsLexeme text.toList) {behind : List Char}
    (apart : Apart text behind) : lexemesFrom [] (text.toList ++ behind) = text :: lexemesFrom [] behind := by
  cases shape : text.toList with
  | nil =>
    rw [shape] at lexeme
    cases lexeme
  | cons first rest =>
    rw [shape] at lexeme
    obtain ⟨unblank, grows⟩ := lexeme
    have start : lexemesFrom [] (first :: rest ++ behind) = lexemesFrom [first] (rest ++ behind) := by
      simp [lexemesFrom, unblank]
    rw [start, lexemesFrom_grows (by simp) grows, List.singleton_append, ← shape]
    exact lexemesFrom_apart (by simp [shape]) apart

/-- What every start of it is the start of a lexeme is one. -/
theorem grows_of_closed (holds : List Char → Bool) (begun : ∀ start, holds start = true → begins start = true)
    (closed : ∀ start more, start ≠ [] → holds (start ++ more) = true → holds start = true)
    (unblank : ∀ start, holds (start ++ [' ']) = false) {pending more : List Char} (started : pending ≠ [])
    (whole : holds (pending ++ more) = true) : Grows pending more := by
  induction more generalizing pending with
  | nil => trivial
  | cons c rest ih =>
    have whole : holds ((pending ++ [c]) ++ rest) = true := by simpa using whole
    have here := closed (pending ++ [c]) rest (by simp) whole
    refine ⟨?_, begun _ here, ih (by simp) whole⟩
    rintro rfl
    rw [unblank] at here
    cases here

theorem isWord_closed (start more : List Char) (some : start ≠ []) (whole : isWord (start ++ more) = true) :
    isWord start = true := by
  cases start with
  | nil => exact absurd rfl some
  | cons first rest =>
    simp only [List.cons_append, isWord, List.all_append, Bool.and_eq_true] at whole ⊢
    exact ⟨whole.1, whole.2.1⟩

theorem numberPart?_append (start : List Char) (some : start ≠ []) (more : List Char) :
    numberPart? (start ++ more) = (numberPart? start).bind (more.foldlM NumberPart.next?) := by
  cases start with
  | nil => exact absurd rfl some
  | cons first rest =>
    simp only [List.cons_append, numberPart?]
    split
    · exact List.foldlM_append
    · rfl

theorem numberPart?_closed (start more : List Char) (some : start ≠ [])
    (whole : (numberPart? (start ++ more)).isSome = true) : (numberPart? start).isSome = true := by
  rw [numberPart?_append start some] at whole
  exact Option.isSome_of_isSome_bind whole

/-! Names and numbers, and what may stand behind them. -/

def isOperand (text : String) : Bool :=
  isName text || isNumber text

/-- What stands behind an operand: nothing, a blank, the end of a group or one of two marks. -/
def Stops (behind : List Char) : Prop :=
  ∀ c ∈ behind.head?, c = ' ' ∨ c = ')' ∨ c = '+' ∨ c = '-'

/-- The characters that long marks do not start with. -/
def isUnmarked (c : Char) : Bool :=
  startsWord c || c.isDigit || c = '(' || c = ')'

theorem no_longMark {first : Char} (unmarked : isUnmarked first = true) (rest : List Char) :
    (longMarks.any fun mark => (first :: rest).isPrefixOf mark.toList) = false := by
  have heads : ∀ mark ∈ longMarks, mark.toList.head?.all (fun c => !isUnmarked c) = true := by decide
  refine List.any_eq_false.mpr fun mark listed starts => ?_
  have head := heads mark listed
  obtain ⟨more, whole⟩ := List.isPrefixOf_iff_prefix.mp starts
  simp [← whole, unmarked] at head

/-- A parenthesis stands for itself. -/
theorem not_begins_paren {paren : Char} (which : paren = '(' ∨ paren = ')') (c : Char) :
    begins [paren, c] = false := by
  have unmarked : isUnmarked paren = true := by obtain rfl | rfl := which <;> decide
  have word : startsWord paren = false := by obtain rfl | rfl := which <;> decide
  have digit : paren.isDigit = false := by obtain rfl | rfl := which <;> decide
  simp only [begins, no_longMark unmarked, isWord, word, numberPart?, digit]
  rfl

theorem isDigit_of_number {first : Char} {rest : List Char} (number : (numberPart? (first :: rest)).isSome = true) :
    first.isDigit = true := by
  by_contra other
  simp [numberPart?, other] at number

/-- An operand is a word, or the characters of a number that may end with them. -/
theorem operand_cases {text : String} (operand : isOperand text = true) :
    ∃ first rest, text.toList = first :: rest ∧
      ((startsWord first = true ∧ isWord (first :: rest) = true) ∨
        (first.isDigit = true ∧ ∃ part, numberPart? (first :: rest) = some part ∧ part.isEnd = true)) := by
  simp only [isOperand, isName, isNumber, Bool.or_eq_true, Bool.and_eq_true] at operand
  cases shape : text.toList with
  | nil => simp [shape, isWord, numberPart?] at operand
  | cons first rest =>
    refine ⟨first, rest, rfl, ?_⟩
    rw [shape] at operand
    obtain ⟨word, _⟩ | number := operand
    · have starts := word
      simp only [isWord, Bool.and_eq_true] at starts
      exact .inl ⟨starts.1, word⟩
    · obtain ⟨part, known, ended⟩ := (Option.any_eq_true _ _).mp number
      have some : (numberPart? (first :: rest)).isSome = true := by rw [known]; rfl
      exact .inr ⟨isDigit_of_number some, part, known, ended⟩

theorem isUnmarked_of_operand {c : Char} (start : startsWord c = true ∨ c.isDigit = true) : isUnmarked c = true := by
  obtain word | digit := start <;> simp [isUnmarked, *]

/-- A word does not start like a number. -/
theorem isDigit_of_startsWord {c : Char} (starts : startsWord c = true) : c.isDigit = false := by
  refine Bool.eq_false_iff.mpr fun digit => ?_
  simp only [Char.isDigit, Bool.and_eq_true, decide_eq_true_eq, ge_iff_le, UInt32.le_iff_toNat_le] at digit
  obtain ⟨low, high⟩ := digit
  change 48 ≤ c.val.toNat at low
  change c.val.toNat ≤ 57 at high
  have shape : startsWord c =
      (decide (c.val ≥ 65 ∧ c.val ≤ 90) || (c.val ≥ 97 && c.val ≤ 122) || c = '_') := rfl
  simp only [shape, Bool.or_eq_true, Bool.and_eq_true, decide_eq_true_eq, ge_iff_le, UInt32.le_iff_toNat_le] at starts
  obtain (⟨above, _⟩ | ⟨above, _⟩) | rfl := starts
  · change 65 ≤ c.val.toNat at above
    omega
  · change 97 ≤ c.val.toNat at above
    omega
  · exact absurd high (by decide)

theorem continuesWord_of_startsWord {c : Char} (starts : startsWord c = true) : continuesWord c = true := by
  simp only [startsWord, Bool.or_eq_true] at starts
  simp only [continuesWord, Char.isAlphanum, Bool.or_eq_true]
  grind

theorem isWord_ended {c : Char} (other : continuesWord c = false) (start : List Char) :
    isWord (start ++ [c]) = false := by
  cases start with
  | nil =>
    have unstarted : startsWord c = false :=
      Bool.eq_false_iff.mpr fun starts => by simp [continuesWord_of_startsWord starts] at other
    simp [isWord, unstarted]
  | cons first rest => simp [isWord, other]

theorem numberPart?_ended {c : Char} (other : c.isDigit = false) (start : List Char)
    (stuck : ∀ part, numberPart? start = some part → part.next? c = none) : numberPart? (start ++ [c]) = none := by
  cases shape : start with
  | nil => simp [numberPart?, other]
  | cons first rest =>
    rw [← shape, numberPart?_append start (by simp [shape])]
    cases known : numberPart? start with
    | none => rfl
    | some part => simp [stuck part known]

theorem next?_blank (part : NumberPart) : part.next? ' ' = none := by
  cases part <;> decide

/-- A number that may end does so in front of what stops an operand. -/
theorem next?_stop {c : Char} (stop : c = ' ' ∨ c = ')' ∨ c = '+' ∨ c = '-') {part : NumberPart}
    (ended : part.isEnd = true) : part.next? c = none := by
  cases part with
  | mark | sign => cases ended
  | whole | fraction | power => obtain rfl | rfl | rfl | rfl := stop <;> decide

theorem lexeme_operand {text : String} (operand : isOperand text = true) : IsLexeme text.toList := by
  obtain ⟨first, rest, shape, kind⟩ := operand_cases operand
  rw [shape]
  obtain ⟨starts, word⟩ | ⟨digit, part, known, _⟩ := kind
  · refine ⟨fun blank => ?_, ?_⟩
    · exact absurd (blank ▸ starts) (by decide)
    · exact grows_of_closed isWord (fun start holds => by simp [begins, holds]) isWord_closed (isWord_ended (by decide))
        (by simp) word
  · refine ⟨fun blank => ?_, ?_⟩
    · exact absurd (blank ▸ digit) (by decide)
    · refine grows_of_closed (fun start => (numberPart? start).isSome)
        (fun start holds => by simp [begins, holds]) numberPart?_closed (fun start => ?_) (by simp) (by simp [known])
      rw [numberPart?_ended (by decide) start fun part _ => next?_blank part]
      rfl

theorem apart_operand {text : String} (operand : isOperand text = true) {behind : List Char} (stops : Stops behind) :
    Apart text behind := by
  intro c next
  have stop := stops c next
  have unword : continuesWord c = false := by obtain rfl | rfl | rfl | rfl := stop <;> decide
  have undigit : c.isDigit = false := by obtain rfl | rfl | rfl | rfl := stop <;> decide
  have word : isWord (text.toList ++ [c]) = false := isWord_ended unword text.toList
  obtain ⟨first, rest, shape, kind⟩ := operand_cases operand
  have mark := no_longMark (isUnmarked_of_operand (kind.imp And.left And.left)) (rest ++ [c])
  have number : numberPart? (text.toList ++ [c]) = none := by
    refine numberPart?_ended undigit _ fun part known => ?_
    rw [shape] at known
    obtain ⟨starts, _⟩ | ⟨_, own, same, ended⟩ := kind
    · simp [numberPart?, isDigit_of_startsWord starts] at known
    · obtain rfl : own = part := Option.some.inj (same.symm.trans known)
      exact next?_stop stop ended
  refine .inr ?_
  rw [shape] at word number ⊢
  simp only [begins, word, number, ← List.cons_append] at mark ⊢
  simpa using mark

/-- A blank ends a lexeme. -/
theorem lexemesFrom_spaced {text : String} (lexeme : IsLexeme text.toList) (behind : List Char) :
    lexemesFrom [] (text.toList ++ ' ' :: behind) = text :: lexemesFrom [] behind := by
  rw [lexemesFrom_lexeme lexeme (fun c next => .inl (by simpa using next.symm)), lexemesFrom_blank]

end ArrayLift.Python
