import ArrayLift.Numeral.Reading
import Mathlib.Algebra.GroupWithZero.Nat

/-! A decimal spelling is read as a finite number. -/
namespace ArrayLift.Binary64

theorem roundHalfEven_bounds (numerator denominator : Nat) :
    numerator / denominator ≤ roundHalfEven numerator denominator ∧
      roundHalfEven numerator denominator ≤ numerator / denominator + 1 := by
  simp only [roundHalfEven]
  repeat' split
  all_goals omega

/-- The leading bits of a magnitude, as many as the format keeps. -/
theorem leading_lt (value : Nat) : value / 2 ^ (Nat.log2 value - 52) < 2 ^ 53 := by
  have size : value < 2 ^ (Nat.log2 value + 1) := Nat.lt_log2_self
  refine Nat.div_lt_of_lt_mul (Nat.lt_of_lt_of_le size ?_)
  rw [← Nat.pow_add]
  exact Nat.pow_le_pow_right (by decide) (by omega)

/-- A rank lies at most two ranges behind the bits that are rounded away. -/
theorem nearestRank_le (numerator denominator : Nat) :
    nearestRank numerator denominator ≤ (Nat.log2 (numerator / denominator) - 52 + 2) * rangeSize := by
  have rounded := (roundHalfEven_bounds numerator
    (denominator * 2 ^ (Nat.log2 (numerator / denominator) - 52))).2
  rw [← Nat.div_div_eq_div_mul] at rounded
  have leading := leading_lt (numerator / denominator)
  simp only [nearestRank, rangeSize, Nat.pow_eq, Nat.add_mul]
  omega

/-- The magnitude of a rank that lies in the first ranges. -/
theorem steps_lt {rank ranges : Nat} (within : rank ≤ (ranges + 1) * rangeSize) : steps rank < 2 ^ (ranges + 54) := by
  have range : rank / rangeSize ≤ ranges + 1 :=
    Nat.div_le_of_le_mul (Nat.mul_comm (ranges + 1) rangeSize ▸ within)
  have offset : rank % rangeSize < rangeSize := Nat.mod_lt _ (by decide)
  have size : rangeSize = 2 ^ 52 := rfl
  have power : 2 ^ (rank / rangeSize - 1) ≤ 2 ^ ranges := Nat.pow_le_pow_right (by decide) (by omega)
  simp only [steps, Nat.pow_eq]
  split
  · calc rank % rangeSize < 2 ^ 52 := offset
      _ ≤ 2 ^ (ranges + 54) := Nat.pow_le_pow_right (by decide) (by omega)
  · calc (rangeSize + rank % rangeSize) * 2 ^ (rank / rangeSize - 1) ≤ 2 ^ 53 * 2 ^ ranges :=
          Nat.mul_le_mul (by omega) power
      _ = 2 ^ (53 + ranges) := (Nat.pow_add 2 53 ranges).symm
      _ < 2 ^ (ranges + 54) := Nat.pow_lt_pow_right (by decide) (by omega)

/-- Rounding keeps the greatest power of two in a magnitude. -/
theorem le_steps_nearestRank {numerator : Nat} (large : 52 ≤ Nat.log2 numerator) :
    2 ^ Nat.log2 numerator ≤ steps (nearestRank numerator 1) := by
  have nonzero : numerator ≠ 0 := by
    rintro rfl
    exact absurd large (by decide)
  obtain ⟨excess, same⟩ : ∃ excess, Nat.log2 numerator = 52 + excess := ⟨_, (Nat.add_sub_cancel' large).symm⟩
  have leading : 2 ^ 52 ≤ numerator / 2 ^ excess := by
    refine (Nat.le_div_iff_mul_le (Nat.two_pow_pos excess)).mpr ?_
    rw [← Nat.pow_add, ← same]
    exact Nat.log2_self_le nonzero
  have rank : (excess + 1) * 2 ^ 52 ≤ nearestRank numerator 1 := by
    have rounded := (roundHalfEven_bounds numerator (2 ^ excess)).1
    simp only [nearestRank, Nat.div_one, same, Nat.add_sub_cancel_left, Nat.one_mul, rangeSize, Nat.pow_eq, Nat.add_mul]
    omega
  have range : excess + 1 ≤ nearestRank numerator 1 / 2 ^ 52 := (Nat.le_div_iff_mul_le (by decide)).mpr rank
  simp only [steps, rangeSize, Nat.pow_eq]
  rw [if_neg (Nat.ne_of_gt (Nat.lt_of_lt_of_le (Nat.succ_pos excess) range)), same, Nat.pow_add]
  exact Nat.mul_le_mul (Nat.le_add_right _ _) (Nat.pow_le_pow_right (by decide) (Nat.le_sub_of_add_le range))

/-- One is a power of two; the exponent is kept as a variable, so that no proof computes the power. -/
theorem one_eq : ∃ bits, bits = 1074 ∧ one = Nat.pow 2 bits := by
  unfold one
  exact ⟨_, rfl, rfl⟩

/-- A division by a power of ten moves a magnitude up by two ranges at most. -/
theorem overTen_le {rank ranges exponent : Nat} (within : rank ≤ (ranges + 1) * rangeSize) :
    overTen rank exponent ≤ (ranges + 3) * rangeSize := by
  obtain ⟨bits, many, size⟩ := one_eq
  rw [Nat.pow_eq] at size
  have positive := Nat.two_pow_pos bits
  rw [← size] at positive
  rw [overTen]
  generalize one = one at *
  generalize power : Nat.pow 10 exponent * one = numerator
  have large : one ≤ numerator := power ▸ Nat.le_mul_of_pos_left _ (Nat.pow_pos (by decide))
  have log : bits ≤ Nat.log2 numerator := (Nat.le_log2 (by omega)).mpr (size ▸ large)
  have divisor : one ≤ steps (nearestRank numerator 1) :=
    calc one ≤ 2 ^ Nat.log2 numerator := size ▸ Nat.pow_le_pow_right (by decide) log
      _ ≤ steps (nearestRank numerator 1) := le_steps_nearestRank (by omega)
  generalize steps (nearestRank numerator 1) = divisor' at divisor
  have quotient : steps rank * one / divisor' ≤ steps rank :=
    Nat.div_le_of_le_mul (Nat.mul_comm (steps rank) one ▸ Nat.mul_le_mul_right _ divisor)
  refine Nat.le_trans (nearestRank_le (steps rank * one) divisor') (Nat.mul_le_mul_right _ ?_)
  have bound : Nat.log2 (steps rank * one / divisor') < ranges + 54 := by
    by_cases zero : steps rank * one / divisor' = 0
    · rw [zero, Nat.log2_zero]
      omega
    · exact (Nat.log2_lt zero).mpr (Nat.lt_of_le_of_lt quotient (steps_lt within))
  omega

theorem absorb_le : ∀ (digits : List (Fin 10)) {significand : Nat}, significand ≤ significandLimit →
    (absorb significand digits).1 ≤ significandLimit
  | [], _, small => small
  | digit :: rest, significand, small => by
    simp only [absorb]
    split
    · exact absorb_le rest ‹_›
    · exact small

/-- The magnitude of a significand, before it is scaled. -/
theorem significand_le {significand : Nat} (small : significand ≤ significandLimit) :
    nearestRank (significand * one) 1 ≤ (1087 + 1) * rangeSize := by
  obtain ⟨bits, many, size⟩ := one_eq
  rw [Nat.pow_eq] at size
  have below : significand * one < 2 ^ (64 + bits) := by
    rw [Nat.pow_add, ← size]
    exact Nat.mul_lt_mul_of_pos_right (Nat.lt_of_le_of_lt small (by decide)) (size ▸ Nat.two_pow_pos bits)
  refine Nat.le_trans (nearestRank_le _ _) (Nat.mul_le_mul_right _ ?_)
  rw [Nat.div_one]
  generalize significand * one = numerator at below
  by_cases zero : numerator = 0
  · rw [zero, Nat.log2_zero]
    decide
  · have := (Nat.log2_lt zero).mpr below
    omega

theorem scaledDown_lt {rank exponent : Nat} (small : rank ≤ (1087 + 1) * rangeSize) :
    scaledDown rank exponent < rankLimit := by
  have once (exponent : Nat) : overTen rank exponent ≤ (1089 + 1) * rangeSize := overTen_le small
  have twice (one other : Nat) : overTen (overTen rank one) other ≤ (1091 + 1) * rangeSize := overTen_le (once one)
  have limit : (1091 + 1) * rangeSize < rankLimit := by decide
  have limit' : (1089 + 1) * rangeSize < rankLimit := by decide
  rw [scaledDown]
  split
  · exact Nat.lt_of_le_of_lt (once exponent) limit'
  split
  · exact Nat.lt_of_le_of_lt (twice tenLimit _) limit
  · decide

theorem scaledUp?_lt {rank exponent scaled : Nat} (found : scaledUp? rank exponent = some scaled) :
    scaled < rankLimit := by
  simp only [scaledUp?] at found
  split at found
  · cases found
    decide
  split at found
  · rw [Option.ite_none_right_eq_some] at found
    obtain ⟨fits, same⟩ := found
    rwa [← Option.some.inj same]
  · cases found

/-- A scaled magnitude is finite. -/
theorem scaled_lt {rank scaled : Nat} {exponent : Int} (small : rank ≤ (1087 + 1) * rangeSize)
    (found : (if exponent < 0 then some (scaledDown rank exponent.natAbs) else scaledUp? rank exponent.toNat) =
      some scaled) : scaled < rankLimit := by
  split at found
  · rw [← Option.some.inj found]
    exact scaledDown_lt small
  · exact scaledUp?_lt found

/-- A spelling is read as a finite number if it is read at all. -/
theorem isFinite_of_ofNumeral? {numeral : Numeral} {value : Binary64} (read : ofNumeral? numeral = some value) :
    value.isFinite := by
  obtain ⟨rank, scaled, rfl⟩ := Option.map_eq_some_iff.mp read
  have whole := absorb_le (Numeral.digitsOf (Numeral.length numeral.whole) numeral.whole) (Nat.zero_le significandLimit)
  have small : rank < rankLimit := scaled_lt (significand_le (absorb_le numeral.fraction whole)) scaled
  rw [ofRank, dif_pos small]
  rfl

end ArrayLift.Binary64
