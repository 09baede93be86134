import ArrayLift.Code.Expression
import ArrayLift.Proofs.Grouping.Literals
import ArrayLift.Proofs.Grouping.Nesting
import ArrayLift.Proofs.Naming.DefaultWords

/-! Arithmetic and logical terms of the source language. The text of a term is that of a Python expression whose
operators group to the left; so it is read as the term is grouped unless the term has a power of a power, or a
comparison behind a comparison. -/
namespace ArrayLift

open Python (Level Phrase Tree)

/-- The level of an operator between two operands in the source language. The two languages order the levels that
they share alike. -/
def Operator.level? : Operator → Option Level
  | .shortOr => some .disjunction
  | .shortAnd => some .conjunction
  | .equal | .notEqual | .less | .lessEqual | .greater | .greaterEqual => some .comparison
  | .plus | .minus => some .sum
  | .times | .divide | .elementTimes | .elementDivide | .elementLeftDivide => some .product
  | .power | .elementPower => some .power
  | _ => none

/-- A term of names, numbers, parentheses, signs and operators between two operands. -/
inductive Term where
  | name (line : SourceLine) (ident : Ident)
  | number (line : SourceLine) (value : Number)
  | parens (line : SourceLine) (inner : Term)
  | minus (line : SourceLine) (operand : Term)
  | binary (line : SourceLine) (spelling : String) (left right : Term)

namespace Term

def expr : Term → Expr
  | name line ident => .ident line ident
  | number line value => .literal line (.number value)
  | parens line inner => .operation line Operator.parens.canonical [inner.expr] none
  | minus line operand => .operation line Operator.minus.canonical [operand.expr] none
  | binary line spelling left right => .operation line spelling [left.expr, right.expr] none

/-- The level of the operator with a spelling. -/
def spellingLevel? (spelling : String) : Option Level :=
  (Operator.ofSpelling? spelling).bind Operator.level?

def level : Term → Level
  | name .. | number .. | parens .. => .atom
  | minus .. => .sign
  | binary _ spelling .. => (spellingLevel? spelling).getD .atom

/-- What an exponent may be without parentheses: signs in front of what holds together. -/
def IsExponent : Term → Prop
  | minus _ operand => operand.IsExponent
  | term => term.level = .atom

instance decideExponent : ∀ term : Term, Decidable term.IsExponent
  | minus _ operand => decideExponent operand
  | name .. | number .. | parens .. | binary .. => inferInstanceAs (Decidable (_ = _))

/-- The Python name of an identifier. -/
def nameText (words : ReservedWords) (ident : Ident) : String :=
  ReservedWords.pythonName ident.name (ident.reserved || words.contains ident.name)

/-- The term is one that the source language has without further parentheses: every operand holds together as tight as
its place demands, and operators group to the left. The names are names in Python, as all words are that the standard
renders, and the numbers have no sign of their own. -/
def Obeys (words : ReservedWords) : Term → Prop
  | name _ ident => ident.init = none ∧ Python.isName (nameText words ident) = true
  | number _ value => value.isUnsigned = true
  | parens _ inner => inner.Obeys words
  | minus _ operand => Level.sign.rank ≤ operand.level.rank ∧ operand.Obeys words
  | binary _ spelling left right =>
    left.Obeys words ∧ right.Obeys words ∧ ∃ level ∈ spellingLevel? spelling,
      level.rank ≤ left.level.rank ∧ if level = .power then right.IsExponent else level.rank < right.level.rank

instance decideObeys (words : ReservedWords) : ∀ term : Term, Decidable (term.Obeys words)
  | name .. => inferInstanceAs (Decidable (_ ∧ _))
  | number .. => inferInstanceAs (Decidable (_ = _))
  | parens _ inner => decideObeys words inner
  | minus _ operand =>
    have := decideObeys words operand
    inferInstanceAs (Decidable (_ ∧ _))
  | binary _ _ left right =>
    have := decideObeys words left
    have := decideObeys words right
    inferInstanceAs (Decidable (_ ∧ _ ∧ _))

/-- What is computed from what, with the operators of Python: left division has its operands exchanged, and the sum of
two numbers is a number. -/
def grouping (words : ReservedWords) : Term → Tree
  | name _ ident => .leaf (nameText words ident)
  | number _ value => .leaf value.toText
  | parens _ inner => inner.grouping words
  | minus _ operand => .negated (operand.grouping words)
  | binary _ spelling left right =>
    match Operator.ofSpelling? spelling with
    | none => .leaf spelling
    | some .elementLeftDivide =>
      .binary Operator.elementLeftDivide.target (right.grouping words) (left.grouping words)
    | some .plus =>
      match Code.foldedSum? left.expr right.expr with
      | some sum => .leaf sum.toText
      | none => .binary Operator.plus.target (left.grouping words) (right.grouping words)
    | some operator => .binary operator.target (left.grouping words) (right.grouping words)

/-- No power has a bare power for its base, and no comparison a bare comparison for its left operand. -/
def Unchained : Term → Prop
  | name .. | number .. => True
  | parens _ inner => inner.Unchained
  | minus _ operand => operand.Unchained
  | binary _ spelling left right =>
    left.Unchained ∧ right.Unchained ∧ (spellingLevel? spelling = some .power → left.level ≠ .power) ∧
      (spellingLevel? spelling = some .comparison → left.level ≠ .comparison)

instance decideUnchained : ∀ term : Term, Decidable term.Unchained
  | name .. | number .. => isTrue trivial
  | parens _ inner => decideUnchained inner
  | minus _ operand => decideUnchained operand
  | binary _ _ left right =>
    have := decideUnchained left
    have := decideUnchained right
    inferInstanceAs (Decidable (_ ∧ _ ∧ _))

/-- An operand that stands in parentheses unless it is a name or stands in some already. -/
def enclose (term : Term) (phrase : Phrase) : Phrase :=
  if Code.isAtomic term.expr then phrase else .group phrase

/-- The Python expression for two terms with an operator between them: sums stand in parentheses, and so do the
operands of a left division. -/
def join (spelling : String) (left right : Term) (one other : Phrase) : Phrase :=
  match Operator.ofSpelling? spelling with
  | none => .atom spelling
  | some .elementLeftDivide =>
    .between Operator.elementLeftDivide.target (right.enclose other) (left.enclose one)
  | some .plus =>
    match Code.foldedSum? left.expr right.expr with
    | some sum => .atom sum.toText
    | none => .group (.between Operator.plus.target one other)
  | some .minus => .group (.between Operator.minus.target one other)
  | some operator => .between operator.target one other

/-- The Python expression for a term. -/
def phrase (words : ReservedWords) : Term → Phrase
  | name _ ident => .atom (nameText words ident)
  | number _ value => .atom value.toText
  | parens _ inner => .group (inner.phrase words)
  | minus _ operand => .minus (operand.phrase words)
  | binary _ spelling left right => join spelling left right (left.phrase words) (right.phrase words)

end Term

/-! The operators of terms. -/

theorem Operator.mem_spellings {spelling : String} {operator : Operator}
    (found : ofSpelling? spelling = some operator) : spelling ∈ operator.spellings := by
  have holds := List.find?_some found
  simpa using holds

/-- Python has the operators of terms on the same levels. -/
theorem Operator.operatorLevel?_target {operator : Operator} {level : Level} (known : operator.level? = some level) :
    Python.operatorLevel? operator.target = some level := by
  have table : ∀ operator ∈ all, operator.level?.all (fun level => Python.operatorLevel? operator.target = some level) := by
    decide
  have member : operator ∈ all := by cases operator <;> decide
  simpa [known] using table operator member

/-- The spelling of an operator of terms in Python is that of the table. -/
theorem Operator.respell_eq {spelling : String} {operator : Operator} (found : ofSpelling? spelling = some operator)
    {level : Level} (known : operator.level? = some level) : respell spelling = operator.target := by
  have spelled := mem_spellings found
  unfold respell
  rw [found]
  cases operator <;> first
    | rfl
    | (cases known; done)
    | simpa [spellings, alternatives, canonical, target, target?] using spelled

namespace Code

/-- The text of an operator without a form of its own. -/
theorem compose_between {spelling : String} {operator : Operator} (found : Operator.ofSpelling? spelling = some operator)
    {level : Level} (known : operator.level? = some level) (tight : level ≠ .sum)
    (straight : operator ≠ .elementLeftDivide) (line : SourceLine) {left right : Expr} {one other : String} :
    compose line spelling [⟨left, .ok one⟩, ⟨right, .ok other⟩] none =
      .ok (one ++ " " ++ operator.target ++ " " ++ other) := by
  have respelled := Operator.respell_eq found known
  unfold compose
  rw [found]
  cases operator <;> first
    | rfl
    | exact absurd rfl straight
    | exact absurd (Option.some.inj known.symm) tight
    | (cases known; done)
    | simp only [composePlain, respelled]; rfl

end Code

namespace Term

/-- Where the keywords of Python are reserved, every word becomes a name. -/
theorem isName_nameText {words : ReservedWords} (guarded : ∀ keyword ∈ Python.keywords, words.contains keyword = true)
    {ident : Ident} (word : Python.isWord ident.name.toList = true) : Python.isName (nameText words ident) = true := by
  unfold nameText ReservedWords.pythonName
  split
  case isTrue =>
    have suffixed : Python.isWord (ident.name ++ ReservedWords.collisionSuffix).toList = true := by
      have mark : Python.continuesWord '_' = true := by decide
      cases shape : ident.name.toList with
      | nil => simp [shape, Python.isWord] at word
      | cons first rest => simpa [shape, Python.isWord, ReservedWords.collisionSuffix, mark] using word
    rw [Python.isName, suffixed]
    simp [Python.suffixed_not_mem_keywords]
  case isFalse free =>
    have unlisted : ident.name ∉ Python.keywords := fun listed => free (by simp [guarded _ listed])
    simp [Python.isName, word, unlisted]

/-- The level of a term with an operator is that of the operator. -/
theorem level_binary {spelling : String} {level : Level} (known : spellingLevel? spelling = some level)
    (line : SourceLine) (left right : Term) : (binary line spelling left right).level = level := by
  simp [Term.level, known]

theorem level_exponent {term : Term} (exponent : term.IsExponent) : term.level = .sign ∨ term.level = .atom := by
  cases term with
  | minus => exact .inl rfl
  | name | number | parens | binary => exact .inr exponent

/-- The forms of an operator between two terms. -/
inductive Form (spelling : String) (left right : Term) (level : Level) (one other : Phrase) : Phrase → Prop where
  | folded (sum : Number) (found : Operator.ofSpelling? spelling = some .plus) (loose : level = .sum)
      (folds : Code.foldedSum? left.expr right.expr = some sum) :
      Form spelling left right level one other (.atom sum.toText)
  | sum (operator : Operator) (found : Operator.ofSpelling? spelling = some operator) (loose : level = .sum)
      (which : operator = .plus ∧ Code.foldedSum? left.expr right.expr = none ∨ operator = .minus) :
      Form spelling left right level one other (.group (.between operator.target one other))
  | divide (found : Operator.ofSpelling? spelling = some .elementLeftDivide) (product : level = .product) :
      Form spelling left right level one other
        (.between Operator.elementLeftDivide.target (right.enclose other) (left.enclose one))
  | plain (operator : Operator) (found : Operator.ofSpelling? spelling = some operator)
      (known : operator.level? = some level) (tight : level ≠ .sum) (straight : operator ≠ .elementLeftDivide) :
      Form spelling left right level one other (.between operator.target one other)

theorem form_join {spelling : String} {level : Level} (known : spellingLevel? spelling = some level)
    (left right : Term) (one other : Phrase) :
    Form spelling left right level one other (join spelling left right one other) := by
  obtain ⟨operator, found, here⟩ := Option.bind_eq_some_iff.mp known
  unfold join
  rw [found]
  cases operator with
  | plus =>
    have loose : level = .sum := (Option.some.inj here).symm
    cases folds : Code.foldedSum? left.expr right.expr with
    | some sum => exact .folded sum found loose folds
    | none => exact .sum .plus found loose (.inl ⟨rfl, folds⟩)
  | minus => exact .sum .minus found (Option.some.inj here).symm (.inr rfl)
  | elementLeftDivide => exact .divide found (Option.some.inj here).symm
  | _ => exact .plain _ found here (by rintro rfl; cases here) (by simp)

/-- A phrase holds together as its term does, or tighter where parentheses stand around a sum. -/
theorem level_phrase {words : ReservedWords} {term : Term} (obeys : term.Obeys words) :
    (term.phrase words).level = term.level ∨ term.level = .sum ∧ (term.phrase words).level = .atom := by
  cases term with
  | name | number | parens | minus => exact .inl rfl
  | binary line spelling left right =>
    obtain ⟨_, _, level, known, _⟩ := obeys
    have form := form_join known left right (left.phrase words) (right.phrase words)
    rw [level_binary known, phrase]
    generalize join .. = whole at form
    cases form with
    | folded _ _ loose | sum _ _ loose => exact .inr ⟨loose, rfl⟩
    | divide _ product => exact .inl (product ▸ rfl)
    | plain operator _ here => exact .inl (Phrase.level_between (Operator.operatorLevel?_target here) _ _)

theorem rank_phrase {words : ReservedWords} {term : Term} (obeys : term.Obeys words) :
    term.level.rank ≤ (term.phrase words).level.rank := by
  obtain same | ⟨loose, tight⟩ := level_phrase obeys
  · exact same ▸ Nat.le_refl _
  · rw [loose, tight]
    decide

theorem level_enclose {words : ReservedWords} {term : Term} (obeys : term.Obeys words) :
    (term.enclose (term.phrase words)).level = .atom := by
  unfold enclose
  split
  case isTrue atomic =>
    cases term with
    | name | number | parens => rfl
    | minus =>
      have found : Operator.ofSpelling? Operator.minus.canonical = some .minus := by decide
      simp [Code.isAtomic, expr, found] at atomic
    | binary line spelling left right =>
      obtain ⟨_, _, level, known, _⟩ := obeys
      obtain ⟨operator, found, here⟩ := Option.bind_eq_some_iff.mp known
      simp only [Code.isAtomic, expr, found] at atomic
      cases operator <;> first | (cases here; done) | cases atomic
  case isFalse => rfl

theorem enclose_leftward {term : Term} {phrase : Phrase} (leftward : phrase.Leftward) :
    (term.enclose phrase).Leftward := by
  unfold enclose
  split <;> exact leftward

theorem grouped_enclose (term : Term) (phrase : Phrase) :
    Code.Operand.grouped ⟨term.expr, .ok phrase.text⟩ = .ok (term.enclose phrase).text := by
  unfold Code.Operand.grouped enclose
  split <;> rfl

theorem numbers_of_folded {left right : Term} {sum : Number}
    (folds : Code.foldedSum? left.expr right.expr = some sum) :
    ∃ one other, left = number left.expr.line one ∧ right = number right.expr.line other ∧ one.add other = sum := by
  cases left with
  | number line one =>
    cases right with
    | number _ other =>
      simp only [expr, Code.foldedSum?, Option.ite_none_right_eq_some, Option.some.injEq] at folds
      exact ⟨one, other, rfl, rfl, folds.2⟩
    | name | parens | minus | binary => cases folds
  | name | parens | minus | binary => cases folds

/-- The operators of a phrase of a term group to the left. -/
theorem phrase_leftward {words : ReservedWords} {term : Term} (obeys : term.Obeys words) :
    (term.phrase words).Leftward := by
  induction term with
  | name line ident => simp [phrase, Phrase.Leftward, Phrase.Nested, Python.isOperand, obeys.2]
  | number line value => exact Python.isOperand_number obeys
  | parens line inner ih => exact ih obeys
  | minus line operand ih => exact ⟨Nat.le_trans obeys.1 (rank_phrase obeys.2), ih obeys.2⟩
  | binary line spelling left right ihLeft ihRight =>
    obtain ⟨obeysLeft, obeysRight, level, known, before, behind⟩ := obeys
    have leftwardLeft := ihLeft obeysLeft
    have leftwardRight := ihRight obeysRight
    have leastLeft := rank_phrase obeysLeft
    have leastRight := rank_phrase obeysRight
    -- What the level of the operator demands of the operands.
    have fits (notPower : level ≠ .power) : level.rank ≤ (left.phrase words).level.rank ∧
        level.rank < (right.phrase words).level.rank := by
      rw [if_neg notPower] at behind
      omega
    have form := form_join known left right (left.phrase words) (right.phrase words)
    rw [phrase]
    generalize join .. = whole at form
    cases form with
    | folded sum _ _ folds =>
      obtain ⟨one, other, oneShape, otherShape, rfl⟩ := numbers_of_folded folds
      rw [oneShape] at obeysLeft
      rw [otherShape] at obeysRight
      exact Python.isOperand_number (Number.isUnsigned_add obeysLeft obeysRight)
    | sum operator _ loose which =>
      subst loose
      refine ⟨leftwardLeft, leftwardRight, .sum, ?_, fits (by simp)⟩
      obtain ⟨rfl, _⟩ | rfl := which <;> rfl
    | divide _ product =>
      refine ⟨enclose_leftward leftwardRight, enclose_leftward leftwardLeft, .product, rfl, ?_⟩
      rw [level_enclose obeysRight, level_enclose obeysLeft]
      decide
    | plain operator _ here _ _ =>
      refine ⟨leftwardLeft, leftwardRight, level, Operator.operatorLevel?_target here, ?_⟩
      split
      case isTrue power =>
        subst power
        have least : Level.sign.rank ≤ right.level.rank := by
          obtain same | same := level_exponent behind
          · exact same ▸ Nat.le_refl _
          · rw [same]
            decide
        exact ⟨Nat.le_trans before leastLeft, Nat.le_trans least leastRight⟩
      case isFalse notPower => exact fits notPower

/-- The phrase groups as the term does. -/
theorem grouping_phrase (words : ReservedWords) (term : Term) :
    (term.phrase words).grouping = term.grouping words := by
  have within (term : Term) (phrase : Phrase) : (term.enclose phrase).grouping = phrase.grouping := by
    unfold enclose
    split <;> rfl
  induction term with
  | name | number => rfl
  | parens line inner ih => exact ih
  | minus line operand ih => exact congrArg Tree.negated ih
  | binary line spelling left right ihLeft ihRight =>
    rw [phrase, grouping, ← ihLeft, ← ihRight, join]
    cases Operator.ofSpelling? spelling with
    | none => rfl
    | some operator =>
      cases operator with
      | elementLeftDivide => simp only [Phrase.grouping, within]
      | plus => cases Code.foldedSum? left.expr right.expr <;> rfl
      | _ => rfl

/-- The level of a phrase that does not depend on parentheses around sums. -/
theorem level_phrase_iff {words : ReservedWords} {term : Term} (obeys : term.Obeys words) {level : Level}
    (notSum : level ≠ .sum) (notAtom : level ≠ .atom) :
    (term.phrase words).level = level ↔ term.level = level := by
  obtain same | ⟨loose, tight⟩ := level_phrase obeys
  · rw [same]
  · rw [loose, tight]
    exact iff_of_false notAtom.symm notSum.symm

/-- Nothing is chained in the phrase exactly if nothing is in the term. -/
theorem unchained_phrase {words : ReservedWords} {term : Term} (obeys : term.Obeys words) :
    (term.phrase words).Unchained ↔ term.Unchained := by
  have within (term : Term) (phrase : Phrase) : (term.enclose phrase).Unchained ↔ phrase.Unchained := by
    unfold enclose
    split <;> exact Iff.rfl
  induction term with
  | name | number => exact Iff.rfl
  | parens line inner ih => exact ih obeys
  | minus line operand ih => exact ih obeys.2
  | binary line spelling left right ihLeft ihRight =>
    obtain ⟨obeysLeft, obeysRight, level, known, _⟩ := obeys
    rw [Option.mem_def] at known
    have form := form_join known left right (left.phrase words) (right.phrase words)
    simp only [phrase, Unchained, ← ihLeft obeysLeft, ← ihRight obeysRight, known]
    generalize join .. = whole at form
    cases form with
    | folded sum _ loose folds =>
      obtain ⟨one, other, oneShape, otherShape, _⟩ := numbers_of_folded folds
      rw [oneShape, otherShape]
      simp [loose, Phrase.Unchained, phrase]
    | sum operator _ loose which =>
      have here : Python.operatorLevel? operator.target = some .sum := by obtain ⟨rfl, _⟩ | rfl := which <;> rfl
      rw [Phrase.Unchained, Phrase.unchained_between here (by simp) (by simp), loose]
      simp
    | divide _ product =>
      have here : Python.operatorLevel? Operator.elementLeftDivide.target = some .product := rfl
      rw [Phrase.unchained_between here (by simp) (by simp), within, within, product, and_comm]
      simp
    | plain operator _ here _ _ =>
      rw [Phrase.Unchained, Operator.operatorLevel?_target here]
      have power : (left.phrase words).level = .power ↔ left.level = .power :=
        level_phrase_iff obeysLeft (by simp) (by simp)
      have comparison : (left.phrase words).level = .comparison ↔ left.level = .comparison :=
        level_phrase_iff obeysLeft (by simp) (by simp)
      rw [Ne, power, Ne, comparison]

/-- Operators stand between blanks, but not in sums. -/
theorem text_between {operator : String} {level : Level} (known : Python.operatorLevel? operator = some level)
    (tight : level ≠ .sum) (left right : Phrase) :
    (Phrase.between operator left right).text = left.text ++ " " ++ operator ++ " " ++ right.text := by
  have wide : Phrase.spaced operator = " " ++ operator ++ " " := by simp [Phrase.spaced, known, tight]
  simp only [Phrase.text, wide, String.append_assoc]

/-- The text of a term is that of its phrase. -/
theorem exprText_expr {words : ReservedWords} {term : Term} (obeys : term.Obeys words) :
    Code.exprText words term.expr = .ok (term.phrase words).text := by
  induction term with
  | name line ident =>
    obtain ⟨name, init, role, reserved, id⟩ := ident
    obtain rfl : init = none := obeys.1
    rfl
  | number line value => rfl
  | parens line inner ih =>
    have found : Operator.ofSpelling? Operator.parens.canonical = some .parens := by decide
    simp only [expr, Code.exprText, Code.operandsOf, ih obeys, Code.compose, found]
    rfl
  | minus line operand ih =>
    have found : Operator.ofSpelling? Operator.minus.canonical = some .minus := by decide
    simp only [expr, Code.exprText, Code.operandsOf, ih obeys.2, Code.compose, found]
    rfl
  | binary line spelling left right ihLeft ihRight =>
    obtain ⟨obeysLeft, obeysRight, level, known, _⟩ := obeys
    have form := form_join known left right (left.phrase words) (right.phrase words)
    simp only [expr, Code.exprText, Code.operandsOf, ihLeft obeysLeft, ihRight obeysRight, phrase]
    generalize join .. = whole at form
    cases form with
    | folded sum found _ folds =>
      simp only [Code.compose, found, folds]
      rfl
    | sum operator found _ which =>
      obtain ⟨rfl, folds⟩ | rfl := which
      · simp only [Code.compose, found, folds]
        rfl
      · simp only [Code.compose, found]
        rfl
    | divide found _ =>
      have known : Python.operatorLevel? Operator.elementLeftDivide.target = some .product := rfl
      rw [text_between known (by simp)]
      simp only [Code.compose, found, grouped_enclose]
      rfl
    | plain operator found here tight straight =>
      rw [Code.compose_between found here tight straight, text_between (Operator.operatorLevel?_target here) tight]

/-- The text of the phrase of a term is read as the term is grouped exactly if nothing in the term is chained. -/
theorem reads_phrase_iff {words : ReservedWords} {term : Term} (obeys : term.Obeys words) :
    Python.Reads (term.phrase words).text (term.grouping words) ↔ term.Unchained := by
  have leftward := phrase_leftward obeys
  have reads := Phrase.reads_text leftward
  rw [← unchained_phrase obeys, ← Phrase.tree_regroup_iff leftward, ← grouping_phrase]
  exact ⟨reads.unique, fun same => same ▸ reads⟩

/-- The text of a term is Python for a single tree. That is the term as it is grouped exactly if nothing in the term is
chained. -/
theorem reads_grouping_iff {words : ReservedWords} {term : Term} (obeys : term.Obeys words) :
    ∃ text, Code.exprText words term.expr = .ok text ∧ (∃! tree, Python.Reads text tree) ∧
      (Python.Reads text (term.grouping words) ↔ term.Unchained) := by
  have reads := Phrase.reads_text (phrase_leftward obeys)
  exact ⟨_, exprText_expr obeys, ⟨_, reads, fun _ again => again.unique reads⟩, reads_phrase_iff obeys⟩

/-- A name on the first line. -/
def named (text : String) : Term :=
  name 1 (.named text)

/-- A comparison and a quotient: `-y ^ -2 <= z && x .\ (1 + 2)`. -/
def conjunction : Term :=
  .binary 1 "&&"
    (.binary 1 "<=" (.minus 1 (.binary 1 "^" (named "y") (.minus 1 (.number 1 (.int 2))))) (named "z"))
    (.binary 1 ".\\" (named "x") (.parens 1 (.binary 1 "+" (.number 1 (.int 1)) (.number 1 (.int 2)))))

theorem reads_conjunction :
    conjunction.Obeys .standard ∧ Python.Reads "- y ** - 2 <= z and (3) / x" (conjunction.grouping .standard) := by
  have obeys : conjunction.Obeys .standard := by
    rw [ReservedWords.standard_eq]
    decide
  have unchained : conjunction.Unchained := by decide
  have text : (conjunction.phrase .standard).text = "- y ** - 2 <= z and (3) / x" := by
    rw [ReservedWords.standard_eq]
    decide +kernel
  obtain ⟨rendered, same, _, grouped⟩ := reads_grouping_iff obeys
  rw [exprText_expr obeys, text] at same
  obtain rfl := Except.ok.inj same
  exact ⟨obeys, grouped.mpr unchained⟩

/-- Two operators of one spelling, the first of them first: `(a ^ b) ^ c` without its parentheses. -/
def chain (spelling : String) : Term :=
  .binary 1 spelling (.binary 1 spelling (named "a") (named "b")) (named "c")

/-- Powers of powers and comparisons behind comparisons are not read as they are grouped. -/
theorem chain_regrouped :
    ((chain "^").Obeys .standard ∧ Code.exprText .standard (chain "^").expr = .ok "a ** b ** c" ∧
      ¬ Python.Reads "a ** b ** c" ((chain "^").grouping .standard)) ∧
    (chain "<").Obeys .standard ∧ Code.exprText .standard (chain "<").expr = .ok "a < b < c" ∧
      ¬ Python.Reads "a < b < c" ((chain "<").grouping .standard) := by
  have powers : (chain "^").Obeys .standard := by
    rw [ReservedWords.standard_eq]
    decide
  have comparisons : (chain "<").Obeys .standard := by
    rw [ReservedWords.standard_eq]
    decide
  have powersText : ((chain "^").phrase .standard).text = "a ** b ** c" := by
    rw [ReservedWords.standard_eq]
    rfl
  have comparisonsText : ((chain "<").phrase .standard).text = "a < b < c" := by
    rw [ReservedWords.standard_eq]
    rfl
  rw [exprText_expr powers, exprText_expr comparisons, ← powersText, ← comparisonsText, reads_phrase_iff powers,
    reads_phrase_iff comparisons]
  exact ⟨⟨powers, rfl, by decide⟩, comparisons, rfl, by decide⟩

end Term

end ArrayLift
