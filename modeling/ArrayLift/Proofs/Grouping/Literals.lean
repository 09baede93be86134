import ArrayLift.Numeral.Number
import ArrayLift.Proofs.Grouping.Lexemes

/-! The texts of numbers without a sign are operands, and sums of such numbers have no sign. -/
namespace ArrayLift

/-- Is the number written without a sign? -/
def Binary64.isUnsigned : Binary64 → Bool
  | .finite negative _ | .infinite negative => !negative
  | .notANumber => false

def Number.isUnsigned : Number → Bool
  | .int value => 0 ≤ value.toInt
  | .float value => value.isUnsigned

namespace Binary64

theorem isUnsigned_ofRank (rank : Nat) : (ofRank false rank).isUnsigned = true := by
  unfold ofRank
  split <;> rfl

theorem isUnsigned_ofInt {value : Int} (positive : 0 ≤ value) : (ofInt value).isUnsigned = true := by
  have sign : decide (value < 0) = false := decide_eq_false (Int.not_lt.mpr positive)
  simp only [ofInt, nearest, sign, isUnsigned_ofRank]

theorem isUnsigned_add {left right : Binary64} (leftUnsigned : left.isUnsigned = true)
    (rightUnsigned : right.isUnsigned = true) : (left.add right).isUnsigned = true := by
  cases left with
  | notANumber => cases leftUnsigned
  | infinite leftSign =>
    obtain rfl : leftSign = false := by simpa [isUnsigned] using leftUnsigned
    cases right with
    | notANumber => cases rightUnsigned
    | infinite rightSign =>
      obtain rfl : rightSign = false := by simpa [isUnsigned] using rightUnsigned
      rfl
    | finite => rfl
  | finite leftSign leftRank =>
    obtain rfl : leftSign = false := by simpa [isUnsigned] using leftUnsigned
    cases right with
    | notANumber => cases rightUnsigned
    | infinite => exact rightUnsigned
    | finite rightSign rightRank =>
      obtain rfl : rightSign = false := by simpa [isUnsigned] using rightUnsigned
      have sign : decide ((steps leftRank : Int) + (steps rightRank : Int) < 0) = false :=
        decide_eq_false (by omega)
      simp only [add, signedSteps, Bool.false_eq_true, if_false, Bool.and_self, sign, nearest]
      split <;> exact isUnsigned_ofRank _

end Binary64

theorem Number.isUnsigned_toFloat {value : Number} (unsigned : value.isUnsigned = true) :
    value.toFloat.isUnsigned = true := by
  cases value with
  | int => exact Binary64.isUnsigned_ofInt (by simpa [isUnsigned] using unsigned)
  | float => exact unsigned

theorem Number.isUnsigned_add {left right : Number} (leftUnsigned : left.isUnsigned = true)
    (rightUnsigned : right.isUnsigned = true) : (left.add right).isUnsigned = true := by
  have floats := Binary64.isUnsigned_add (isUnsigned_toFloat leftUnsigned) (isUnsigned_toFloat rightUnsigned)
  match left, right with
  | .int left, .int right =>
    simp only [isUnsigned, decide_eq_true_eq] at leftUnsigned rightUnsigned
    simp only [add]
    split
    case isTrue fits =>
      simp only [Bool.and_eq_true, decide_eq_true_eq] at fits
      have largest : Int64.maxValue.toInt = 9223372036854775807 := by decide
      have exact : (Int64.ofInt (left.toInt + right.toInt)).toInt = left.toInt + right.toInt :=
        Int64.toInt_ofInt_of_le fits.1 (by have := fits.2; omega)
      simp only [isUnsigned, exact, decide_eq_true_eq]
      omega
    case isFalse => exact floats
  | .int _, .float _ | .float _, .int _ | .float _, .float _ => exact floats

namespace Python

theorem foldlM_digits {part : NumberPart} (stays : ∀ c : Char, c.isDigit = true → part.next? c = some part)
    {digits : List Char} (each : ∀ c ∈ digits, c.isDigit = true) : digits.foldlM NumberPart.next? part = some part := by
  induction digits with
  | nil => rfl
  | cons c rest ih =>
    obtain ⟨first, others⟩ := List.forall_mem_cons.mp each
    simp [stays c first, ih others]

theorem digits_nat (value : Nat) :
    ∃ first rest, (toString value).toList = first :: rest ∧ ∀ c ∈ first :: rest, c.isDigit = true := by
  rw [Nat.toString_eq_repr, Nat.toList_repr]
  have digits : ∀ c ∈ Nat.toDigits 10 value, c.isDigit = true :=
    fun c member => Nat.isDigit_of_mem_toDigits (by decide) (by decide) member
  cases shape : Nat.toDigits 10 value with
  | nil => exact absurd shape Nat.toDigits_ne_nil
  | cons first rest => exact ⟨first, rest, rfl, shape ▸ digits⟩

theorem numberPart?_nat (value : Nat) : numberPart? (toString value).toList = some .whole := by
  obtain ⟨first, rest, shape, digits⟩ := digits_nat value
  obtain ⟨digit, others⟩ := List.forall_mem_cons.mp digits
  rw [shape, numberPart?, if_pos digit]
  exact foldlM_digits (fun c isDigit => by simp [NumberPart.next?, isDigit]) others

/-- A whole number of digits behind the mark of a power of ten or behind its sign. -/
theorem foldlM_power {part : NumberPart} (start : ∀ c : Char, c.isDigit = true → part.next? c = some .power)
    (value : Nat) : (toString value).toList.foldlM NumberPart.next? part = some .power := by
  obtain ⟨first, rest, shape, digits⟩ := digits_nat value
  obtain ⟨digit, others⟩ := List.forall_mem_cons.mp digits
  rw [shape, List.foldlM_cons, start first digit]
  exact foldlM_digits (fun c isDigit => by simp [NumberPart.next?, isDigit]) others

theorem foldlM_exponent (exponent : Int) :
    (toString exponent).toList.foldlM NumberPart.next? .mark = some .power := by
  rw [Int.toString_eq_repr, Int.repr_eq_if]
  split
  · rw [← Nat.toString_eq_repr]
    exact foldlM_power (fun c isDigit => by simp [NumberPart.next?, isDigit]) _
  · rw [String.toList_append, ← Nat.toString_eq_repr]
    have behindSign : ∀ c : Char, c.isDigit = true → NumberPart.sign.next? c = some .power :=
      fun c isDigit => by simp [NumberPart.next?, isDigit]
    exact foldlM_power behindSign _

theorem isDigit_digitChar : ∀ digit : Fin 10, (Nat.digitChar digit.val).isDigit = true := by
  decide

/-- The digits behind the point. -/
theorem foldlM_fraction (fraction : List (Fin 10)) :
    ∃ part, (if fraction.isEmpty then [] else '.' :: fraction.map fun (digit : Fin 10) => Nat.digitChar digit.val).foldlM
        NumberPart.next? .whole = some part ∧ (part = .whole ∨ part = .fraction) := by
  cases fraction with
  | nil => exact ⟨.whole, rfl, .inl rfl⟩
  | cons first rest =>
    have digits : ∀ c ∈ (first :: rest).map fun (digit : Fin 10) => Nat.digitChar digit.val, c.isDigit = true := by
      rw [List.forall_mem_map]
      exact fun digit _ => isDigit_digitChar digit
    refine ⟨.fraction, ?_, .inr rfl⟩
    exact foldlM_digits (fun c isDigit => by simp [NumberPart.next?, isDigit]) digits

theorem isNumber_numeral {numeral : Numeral} (unsigned : numeral.negative = false) :
    isNumber (String.ofList numeral.text) = true := by
  obtain ⟨part, fraction, which⟩ := foldlM_fraction numeral.fraction
  have digits : (toString numeral.whole).toList ≠ [] := by simp
  have mark : part.next? 'e' = some .mark := by obtain rfl | rfl := which <;> rfl
  have ends : part.isEnd = true := by obtain rfl | rfl := which <;> rfl
  simp only [isNumber, String.toList_ofList, Numeral.text, unsigned, Bool.false_eq_true, if_false, List.nil_append,
    List.append_assoc, numberPart?_append _ digits, numberPart?_nat, Option.bind_some, List.foldlM_append]
  rw [fraction]
  cases numeral.exponent with
  | none => simpa using ends
  | some exponent =>
    have tail := foldlM_exponent exponent
    rw [Int.toString_eq_repr] at tail
    simp [mark, tail, NumberPart.isEnd]

theorem isOperand_float {value : Binary64} (unsigned : value.isUnsigned = true) :
    isOperand value.toText = true := by
  cases value with
  | notANumber => cases unsigned
  | infinite negative =>
    obtain rfl : negative = false := by simpa [Binary64.isUnsigned] using unsigned
    decide
  | finite negative rank =>
    obtain rfl : negative = false := by simpa [Binary64.isUnsigned] using unsigned
    have sign : (Binary64.numeral false rank).negative = false := by
      unfold Binary64.numeral Decimal.numeral
      split
      · rfl
      · split <;> rfl
    simp only [isOperand, Binary64.toText, isNumber_numeral sign, Bool.or_true]

/-- A number without a sign is an operand. -/
theorem isOperand_number {value : Number} (unsigned : value.isUnsigned = true) : isOperand value.toText = true := by
  cases value with
  | float => exact isOperand_float unsigned
  | int value =>
    have positive : 0 ≤ value.toInt := by simpa [Number.isUnsigned] using unsigned
    have text : toString value.toInt = toString value.toInt.toNat := by
      rw [Int.toString_eq_repr, Int.repr_eq_if, if_pos positive, Nat.toString_eq_repr]
    have ends : (Option.some NumberPart.whole).any NumberPart.isEnd = true := rfl
    simp only [isOperand, isNumber, Number.toText, text, numberPart?_nat, ends, Bool.or_true]

end Python
end ArrayLift
