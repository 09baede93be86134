import ArrayLift.Numeral.Binary64
import ArrayLift.Numeral.Spelling

/-! The floating-point number that a decimal spelling is read as: the leading digits, up to 64 bits
of them, are rounded to a floating-point number, and that is multiplied or divided by a power of
ten, which is rounded again. -/
namespace ArrayLift.Binary64

/-- The largest significand that is taken from the digits of a spelling. -/
def significandLimit : Nat := Nat.pow 2 64 - 1

/-- The largest power of ten that a single multiplication or division uses. -/
def tenLimit : Nat := 308

/-- Append digits to a significand as long as it stays in its limit; the second part counts the
digits that are left. -/
def absorb : Nat → List (Fin 10) → Nat × Nat
  | significand, [] => (significand, 0)
  | significand, digit :: rest =>
    let next := significand * 10 + digit.val
    if next ≤ significandLimit then absorb next rest else (significand, rest.length + 1)

/-- The magnitude divided by a power of ten: in two divisions if the power is too large for one.
What is left after two divisions by the largest power is zero. -/
def scaledDown (rank exponent : Nat) : Nat :=
  if exponent ≤ tenLimit then overTen rank exponent
  else if exponent ≤ 2 * tenLimit then overTen (overTen rank tenLimit) (exponent - tenLimit)
  else 0

/-- The magnitude multiplied by a power of ten; `none` if it is infinite. -/
def scaledUp? (rank exponent : Nat) : Option Nat :=
  if rank = 0 then some 0
  else if exponent ≤ tenLimit then
    let scaled := timesTen rank exponent
    if scaled < rankLimit then some scaled else none
  else none

/-- The number that a spelling is read as; `none` if it is infinite. -/
def ofNumeral? (numeral : Numeral) : Option Binary64 :=
  let whole := absorb 0 (Numeral.digitsOf (Numeral.length numeral.whole) numeral.whole)
  let all := absorb whole.1 numeral.fraction
  let exponent : Int := whole.2 - (numeral.fraction.length - all.2 : Nat) + numeral.exponent.getD 0
  let rank := nearestRank (all.1 * one) 1
  let scaled :=
    if exponent < 0 then some (scaledDown rank exponent.natAbs) else scaledUp? rank exponent.toNat
  scaled.map (ofRank numeral.negative)

end ArrayLift.Binary64
