import ArrayLift.Proofs.Grouping.Lexemes

/-! The grammar of Python expressions from names, numbers, parentheses, signs and the operators between two operands,
and the trees that they mean. -/
namespace ArrayLift.Python

/-- How tight an expression holds together, the loosest first. -/
inductive Level where
  | disjunction
  | conjunction
  | comparison
  | sum
  | product
  | sign
  | power
  /-- Names, numbers and what stands in parentheses. -/
  | atom
  deriving DecidableEq, Repr

namespace Level

/-- No level has rank zero. -/
def rank : Level → Nat
  | disjunction => 1
  | conjunction => 2
  | comparison => 3
  | sum => 4
  | product => 5
  | sign => 6
  | power => 7
  | atom => 8

end Level

/-- The operators between two operands with their levels. -/
def operators : List (String × Level) :=
  [("or", .disjunction), ("and", .conjunction), ("<", .comparison), ("<=", .comparison), (">", .comparison),
    (">=", .comparison), ("==", .comparison), ("!=", .comparison), ("+", .sum), ("-", .sum), ("*", .product),
    ("/", .product), ("**", .power)]

def operatorLevel? (operator : String) : Option Level :=
  operators.lookup operator

/-- An expression as it is written, with its parentheses. -/
inductive Phrase where
  | atom (text : String)
  | group (inner : Phrase)
  | minus (operand : Phrase)
  | between (operator : String) (left right : Phrase)
  deriving DecidableEq, Repr

/-- What is computed from what. -/
inductive Tree where
  | leaf (text : String)
  | negated (operand : Tree)
  | binary (operator : String) (left right : Tree)
  /-- A comparison that goes on from another one: both have to hold, and they share the operand between them. -/
  | chained (before : Tree) (operator : String) (right : Tree)
  deriving DecidableEq, Repr

namespace Phrase

def level : Phrase → Level
  | atom _ | group _ => .atom
  | minus _ => .sign
  | between operator _ _ => (operatorLevel? operator).getD .atom

def tokens : Phrase → List String
  | atom text => [text]
  | group inner => "(" :: (inner.tokens ++ [")"])
  | minus operand => "-" :: operand.tokens
  | between operator left right => left.tokens ++ operator :: right.tokens

/-- Every operand holds together as tight as its place demands. Operators group to the left; the left operand of a
power is at least of a level of its own. -/
def Nested (base : Level) : Phrase → Prop
  | atom text => isOperand text = true
  | group inner => inner.Nested base
  | minus operand => Level.sign.rank ≤ operand.level.rank ∧ operand.Nested base
  | between operator left right =>
    left.Nested base ∧ right.Nested base ∧ ∃ level, operatorLevel? operator = some level ∧
      if level = .power then base.rank ≤ left.level.rank ∧ Level.sign.rank ≤ right.level.rank
      else level.rank ≤ left.level.rank ∧ level.rank < right.level.rank

/-- The grammar of Python: powers group to the right, because the base of a power has no operator outside of
parentheses. -/
def Proper (phrase : Phrase) : Prop :=
  phrase.Nested .atom

/-- What Python takes an expression for. A comparison behind another one goes on from it. -/
def tree : Phrase → Tree
  | atom text => .leaf text
  | group inner => inner.tree
  | minus operand => .negated operand.tree
  | between operator left right =>
    if operatorLevel? operator = some .comparison ∧ left.level = .comparison then
      .chained left.tree operator right.tree
    else .binary operator left.tree right.tree

/-- The operations of a phrase one inside the other, as it is built. -/
def grouping : Phrase → Tree
  | atom text => .leaf text
  | group inner => inner.grouping
  | minus operand => .negated operand.grouping
  | between operator left right => .binary operator left.grouping right.grouping

end Phrase

/-- Python takes a text for a tree: the lexemes of the text are those of an expression that means the tree. -/
def Reads (text : String) (tree : Tree) : Prop :=
  ∃ phrase : Phrase, phrase.Proper ∧ phrase.tokens = lexemes text ∧ phrase.tree = tree

namespace Phrase

/-- An operator with blanks around it; in sums it has none. -/
def spaced (operator : String) : String :=
  if operatorLevel? operator = some .sum then operator else " " ++ operator ++ " "

/-- A text of a phrase. -/
def text : Phrase → String
  | atom text => text
  | group inner => "(" ++ inner.text ++ ")"
  | minus operand => "-" ++ " " ++ operand.text
  | between operator left right => left.text ++ spaced operator ++ right.text

end Phrase

/-! The lexemes of the text of a phrase are its tokens. -/

theorem mem_operators {operator : String} {level : Level} (known : operatorLevel? operator = some level) :
    (operator, level) ∈ operators := by
  obtain ⟨before, behind, whole, _⟩ := List.lookup_eq_some_iff.mp known
  rw [whole]
  exact List.mem_append_right _ List.mem_cons_self

theorem lexeme_operator {operator : String} {level : Level} (known : operatorLevel? operator = some level) :
    IsLexeme operator.toList := by
  have each : ∀ entry ∈ operators, IsLexeme entry.1.toList := by decide
  exact each _ (mem_operators known)

theorem lexemesFrom_open (behind : List Char) :
    lexemesFrom [] ('(' :: behind) = "(" :: lexemesFrom [] behind := by
  have lexeme : IsLexeme "(".toList := by decide
  exact lexemesFrom_lexeme lexeme fun c _ => .inr (not_begins_paren (.inl rfl) c)

theorem lexemesFrom_close (behind : List Char) :
    lexemesFrom [] (')' :: behind) = ")" :: lexemesFrom [] behind := by
  have lexeme : IsLexeme ")".toList := by decide
  exact lexemesFrom_lexeme lexeme fun c _ => .inr (not_begins_paren (.inr rfl) c)

/-- No long mark goes on from the mark of a sum with what an expression starts with. -/
theorem not_begins_sum {operator : String} (sum : operatorLevel? operator = some .sum) {c : Char}
    (start : isUnmarked c = true ∨ c = '-') : begins (operator.toList ++ [c]) = false := by
  have equals : c ≠ '=' := by
    rintro rfl
    exact absurd start (by decide)
  have greater : c ≠ '>' := by
    rintro rfl
    exact absurd start (by decide)
  have which : operator = "+" ∨ operator = "-" := by
    simpa [operators] using mem_operators sum
  obtain rfl | rfl := which
  · have word : startsWord '+' = false := by decide
    have digit : '+'.isDigit = false := by decide
    simp [begins, isWord, word, numberPart?, digit, longMarks, List.isPrefixOf, equals]
  · have word : startsWord '-' = false := by decide
    have digit : '-'.isDigit = false := by decide
    simp [begins, isWord, word, numberPart?, digit, longMarks, List.isPrefixOf, equals, greater]

/-- The first character of the text of a phrase. -/
theorem Phrase.start_text {base : Level} {phrase : Phrase} (nested : phrase.Nested base) :
    ∃ first rest, phrase.text.toList = first :: rest ∧ (isUnmarked first = true ∨ first = '-') := by
  induction phrase with
  | atom text =>
    obtain ⟨first, rest, shape, kind⟩ := operand_cases nested
    exact ⟨first, rest, shape, .inl (isUnmarked_of_operand (kind.imp And.left And.left))⟩
  | group inner => exact ⟨'(', inner.text.toList ++ [')'], by simp [Phrase.text], .inl (by decide)⟩
  | minus operand => exact ⟨'-', ' ' :: operand.text.toList, by simp [Phrase.text], .inr rfl⟩
  | between operator left right ihLeft ihRight =>
    obtain ⟨first, rest, shape, start⟩ := ihLeft nested.1
    exact ⟨first, rest ++ (Phrase.spaced operator ++ right.text).toList, by simp [Phrase.text, shape], start⟩

/-- An operator ends the operand before it, and is a lexeme of its own. -/
theorem lexemesFrom_operator {operator : String} {level : Level} (known : operatorLevel? operator = some level)
    {first : Char} (start : isUnmarked first = true ∨ first = '-') (behind : List Char) :
    Stops ((Phrase.spaced operator).toList ++ first :: behind) ∧
      lexemesFrom [] ((Phrase.spaced operator).toList ++ first :: behind) =
        operator :: lexemesFrom [] (first :: behind) := by
  have lexeme := lexeme_operator known
  unfold Phrase.spaced
  split
  case isTrue sum =>
    refine ⟨?_, lexemesFrom_lexeme lexeme fun c next => .inr (not_begins_sum sum ?_)⟩
    · have which : operator = "+" ∨ operator = "-" := by simpa [operators] using mem_operators sum
      obtain rfl | rfl := which <;> simp [Stops]
    · obtain rfl : first = c := by simpa using next
      exact start
  case isFalse =>
    refine ⟨by simp [Stops], ?_⟩
    simp only [String.toList_append, List.append_assoc]
    exact lexemesFrom_spaced lexeme (first :: behind)

theorem Phrase.lexemesFrom_text {base : Level} {phrase : Phrase} (nested : phrase.Nested base) {behind : List Char}
    (stops : Stops behind) :
    lexemesFrom [] (phrase.text.toList ++ behind) = phrase.tokens ++ lexemesFrom [] behind := by
  induction phrase generalizing behind with
  | atom text => exact lexemesFrom_lexeme (lexeme_operand nested) (apart_operand nested stops)
  | group inner ih =>
    have ended : Stops (')' :: behind) := by simp [Stops]
    have shape : (Phrase.group inner).text.toList ++ behind = '(' :: (inner.text.toList ++ ')' :: behind) := by
      simp [Phrase.text]
    rw [shape, lexemesFrom_open, ih nested ended, lexemesFrom_close]
    simp [Phrase.tokens]
  | minus operand ih =>
    have lexeme : IsLexeme "-".toList := by decide
    have shape : (Phrase.minus operand).text.toList ++ behind = "-".toList ++ ' ' :: (operand.text.toList ++ behind) := by
      simp [Phrase.text]
    rw [shape, lexemesFrom_spaced lexeme, ih nested.2 stops]
    rfl
  | between operator left right ihLeft ihRight =>
    obtain ⟨inLeft, inRight, level, known, _⟩ := nested
    obtain ⟨first, rest, opening, start⟩ := Phrase.start_text inRight
    obtain ⟨ended, split⟩ := lexemesFrom_operator known start (rest ++ behind)
    have shape : (Phrase.between operator left right).text.toList ++ behind =
        left.text.toList ++ ((Phrase.spaced operator).toList ++ first :: (rest ++ behind)) := by
      simp [Phrase.text, opening]
    rw [shape, ihLeft inLeft ended, split, ← List.cons_append, ← opening, ihRight inRight stops]
    simp [Phrase.tokens]

/-- The lexemes of the text of a phrase are its tokens. -/
theorem Phrase.lexemes_text {base : Level} {phrase : Phrase} (nested : phrase.Nested base) :
    lexemes phrase.text = phrase.tokens := by
  have ended : Stops [] := by simp [Stops]
  simpa [lexemes, lexemesFrom, flush] using Phrase.lexemesFrom_text nested ended

end ArrayLift.Python
