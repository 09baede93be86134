import ArrayLift.Proofs.Grouping.Reader

/-! Expressions whose operators all group to the left, as the source language has them, and what Python makes of
their tokens: powers are regrouped to the right, and comparisons behind comparisons become chains. -/
namespace ArrayLift.Python
namespace Phrase

/-- An expression in which the operators all group to the left, powers among them. -/
def Leftward (phrase : Phrase) : Prop :=
  phrase.Nested .power

/-- A power whose base is what an expression ends with. -/
def raise (operator : String) (exponent : Phrase) : Phrase → Phrase
  | atom text => .between operator (.atom text) exponent
  | group inner => .between operator (.group inner) exponent
  | minus operand => .minus (raise operator exponent operand)
  | between outer left right => .between outer left (raise operator exponent right)

/-- The same tokens with powers grouped to the right. -/
def regroup : Phrase → Phrase
  | atom text => .atom text
  | group inner => .group inner.regroup
  | minus operand => .minus operand.regroup
  | between operator left right =>
    if operatorLevel? operator = some .power then raise operator right.regroup left.regroup
    else .between operator left.regroup right.regroup

theorem tokens_raise (operator : String) (exponent phrase : Phrase) :
    (raise operator exponent phrase).tokens = phrase.tokens ++ operator :: exponent.tokens := by
  induction phrase with
  | atom | group => rfl
  | minus operand ih => simp [raise, tokens, ih]
  | between outer left right _ ih => simp [raise, tokens, ih]

theorem tokens_regroup (phrase : Phrase) : phrase.regroup.tokens = phrase.tokens := by
  induction phrase with
  | atom => rfl
  | group inner ih => simp [regroup, tokens, ih]
  | minus operand ih => simp [regroup, tokens, ih]
  | between operator left right ihLeft ihRight =>
    unfold regroup
    split <;> simp [tokens, tokens_raise, ihLeft, ihRight]

theorem power_of_tight {operator : String} {left right : Phrase} {level : Level}
    (known : operatorLevel? operator = some level)
    (tight : Level.sign.rank ≤ (between operator left right).level.rank) : level = .power := by
  rw [level_between known] at tight
  exact (rank_operator known).resolve_right (Nat.not_lt.mpr tight)

/-- A power of what is at least a sign belongs to the grammar. -/
theorem proper_raise {operator : String} (power : operatorLevel? operator = some .power) {exponent : Phrase}
    (proper : exponent.Proper) (tight : Level.sign.rank ≤ exponent.level.rank) {phrase : Phrase}
    (whole : phrase.Proper) (least : Level.sign.rank ≤ phrase.level.rank) :
    (raise operator exponent phrase).Proper ∧ Level.sign.rank ≤ (raise operator exponent phrase).level.rank ∧
      (Level.power.rank ≤ phrase.level.rank → (raise operator exponent phrase).level = .power) := by
  induction phrase with
  | atom | group =>
    refine ⟨⟨whole, proper, .power, power, ?_⟩, ?_, fun _ => level_between power _ _⟩
    · rw [if_pos rfl]
      exact ⟨Nat.le_refl _, tight⟩
    · rw [raise, level_between power]
      decide
  | minus operand ih =>
    obtain ⟨inner, held, _⟩ := ih whole.2 whole.1
    exact ⟨⟨held, inner⟩, Nat.le_refl _, fun above => absurd above (Nat.not_le.mpr (by decide : 6 < 7))⟩
  | between outer left right _ ih =>
    obtain ⟨inLeft, inRight, level, known, fits⟩ := whole
    obtain rfl := power_of_tight known least
    rw [if_pos rfl] at fits
    obtain ⟨inner, held, _⟩ := ih inRight fits.2
    refine ⟨⟨inLeft, inner, .power, known, ?_⟩, ?_, fun _ => level_between known _ _⟩
    · rw [if_pos rfl]
      exact ⟨fits.1, held⟩
    · rw [raise, level_between known]
      decide

/-- Regrouped, an expression belongs to the grammar and holds together as tight as before. -/
theorem proper_regroup {phrase : Phrase} (leftward : phrase.Leftward) :
    phrase.regroup.Proper ∧ phrase.regroup.level = phrase.level := by
  induction phrase with
  | atom => exact ⟨leftward, rfl⟩
  | group inner ih => exact ⟨(ih leftward).1, rfl⟩
  | minus operand ih =>
    obtain ⟨proper, same⟩ := ih leftward.2
    refine ⟨⟨?_, proper⟩, rfl⟩
    rw [same]
    exact leftward.1
  | between operator left right ihLeft ihRight =>
    obtain ⟨inLeft, inRight, level, known, fits⟩ := leftward
    obtain ⟨properLeft, sameLeft⟩ := ihLeft inLeft
    obtain ⟨properRight, sameRight⟩ := ihRight inRight
    rw [← sameLeft, ← sameRight] at fits
    rw [level_between known]
    unfold regroup
    split at fits
    case isTrue power =>
      subst power
      have least : Level.sign.rank ≤ left.regroup.level.rank := Nat.le_trans (by decide) fits.1
      obtain ⟨proper, _, same⟩ := proper_raise known properRight fits.2 properLeft least
      rw [if_pos known]
      exact ⟨proper, same fits.1⟩
    case isFalse other =>
      rw [if_neg (by simp [known, other])]
      refine ⟨⟨properLeft, properRight, level, known, ?_⟩, level_between known _ _⟩
      rw [if_neg other]
      exact fits

/-- What Python reads from the text of an expression whose operators group to the left. -/
theorem reads_text {phrase : Phrase} (leftward : phrase.Leftward) : Reads phrase.text phrase.regroup.tree :=
  ⟨phrase.regroup, (proper_regroup leftward).1, phrase.tokens_regroup.trans (lexemes_text leftward).symm, rfl⟩

end Phrase

/-! When the grouping stays. -/

def Tree.size : Tree → Nat
  | leaf _ => 1
  | negated operand => 1 + operand.size
  | binary _ left right | chained left _ right => 1 + left.size + right.size

namespace Phrase

attribute [local simp] tree grouping

/-- No power has a power for its base, and no comparison goes on from another one, unless parentheses stand around
them. -/
def Unchained : Phrase → Prop
  | atom _ => True
  | group inner => inner.Unchained
  | minus operand => operand.Unchained
  | between operator left right =>
    left.Unchained ∧ right.Unchained ∧ (operatorLevel? operator = some .power → left.level ≠ .power) ∧
      (operatorLevel? operator = some .comparison → left.level ≠ .comparison)

theorem unchained_between {operator : String} {level : Level} (known : operatorLevel? operator = some level)
    (notPower : level ≠ .power) (notComparison : level ≠ .comparison) (left right : Phrase) :
    (between operator left right).Unchained ↔ left.Unchained ∧ right.Unchained := by
  simp [Unchained, known, notPower, notComparison]

theorem size_between (operator : String) (left right : Phrase) :
    (between operator left right).tree.size = 1 + left.tree.size + right.tree.size := by
  rw [tree]
  split <;> rfl

theorem size_raise (operator : String) (exponent phrase : Phrase) :
    (raise operator exponent phrase).tree.size = 1 + phrase.tree.size + exponent.tree.size := by
  induction phrase with
  | atom | group => exact size_between ..
  | minus operand ih =>
    simp only [raise, tree, Tree.size, ih]
    omega
  | between outer left right _ ih =>
    rw [raise, size_between, size_between, ih]
    omega

/-- Regrouping keeps the number of operations. -/
theorem size_regroup (phrase : Phrase) : phrase.regroup.tree.size = phrase.grouping.size := by
  induction phrase with
  | atom => rfl
  | group inner ih => exact ih
  | minus operand ih => simp only [regroup, tree, grouping, Tree.size, ih]
  | between operator left right ihLeft ihRight =>
    unfold regroup
    split
    · rw [size_raise, ihLeft, ihRight]
      rfl
    · rw [size_between, ihLeft, ihRight]
      rfl

/-- A power of a power is not read as it is grouped. -/
theorem raise_ne_grouping {operator : String} {exponent left right : Phrase} (power : left.regroup.level = .power) :
    (raise operator exponent left.regroup).tree ≠ (between operator left right).grouping := by
  intro same
  have size := left.size_regroup
  cases shape : left.regroup with
  | atom | group | minus => simp [shape, level] at power
  | between outer base inner =>
    rw [shape] at power same size
    have known : operatorLevel? outer = some .power := by
      cases found : operatorLevel? outer with
      | none => simp [level, found] at power
      | some level => rw [← power, level_between found]
    rw [size_between] at size
    simp only [raise, tree, known, grouping] at same
    -- The base is smaller than the power that it would have to be.
    have base : base.tree = left.grouping := by simp at same; exact same.2.1
    rw [base] at size
    omega

/-- What is at least a power is one or stands for itself. -/
theorem level_of_tight {phrase : Phrase} (tight : Level.power.rank ≤ phrase.level.rank) :
    phrase.level = .power ∨ phrase.level = .atom := by
  generalize phrase.level = level at tight
  cases level <;> first | exact .inl rfl | exact .inr rfl | exact absurd tight (by decide)

/-- A power is read as it is grouped exactly if its base is none. -/
theorem tree_raise_iff {operator : String} (power : operatorLevel? operator = some .power) {left right : Phrase}
    (proper : left.regroup.Proper) (tight : Level.power.rank ≤ left.regroup.level.rank) :
    (raise operator right.regroup left.regroup).tree = (between operator left right).grouping ↔
      left.regroup.tree = left.grouping ∧ right.regroup.tree = right.grouping ∧ left.regroup.level ≠ .power := by
  obtain chained | atomic := level_of_tight tight
  · exact iff_of_false (raise_ne_grouping chained) fun kept => kept.2.2 chained
  · cases shape : left.regroup with
    | atom | group => simp [raise, power, level]
    | minus =>
      rw [shape] at atomic
      cases atomic
    | between outer base inner =>
      rw [shape] at atomic proper
      obtain ⟨_, _, level, known, _⟩ := proper
      obtain rfl : level = .atom := (level_between known base inner).symm.trans atomic
      exact absurd (rank_operator known) (by decide)

/-- Python reads an expression as it is grouped exactly if nothing in it is chained. -/
theorem tree_regroup_iff {phrase : Phrase} (leftward : phrase.Leftward) :
    phrase.regroup.tree = phrase.grouping ↔ phrase.Unchained := by
  induction phrase with
  | atom => simp [regroup, Unchained]
  | group inner ih => exact ih leftward
  | minus operand ih => simpa [regroup, Unchained] using ih leftward.2
  | between operator left right ihLeft ihRight =>
    obtain ⟨inLeft, inRight, level, known, fits⟩ := leftward
    obtain ⟨proper, same⟩ := proper_regroup inLeft
    rw [regroup, Unchained, ← ihLeft inLeft, ← ihRight inRight, ← same, known]
    split
    case isTrue power =>
      obtain rfl : level = .power := Option.some.inj power
      rw [if_pos rfl, ← same] at fits
      rw [tree_raise_iff known proper fits.1]
      simp
    case isFalse other =>
      have unpowered : level ≠ .power := fun power => other (congrArg some power)
      simp only [tree, grouping, known, Option.some.injEq, unpowered, false_imp_iff, true_and]
      split
      case isTrue chain => simp [chain]
      case isFalse => simp; grind

end Phrase
end ArrayLift.Python
