import ArrayLift.Numeral.Binary64
import ArrayLift.Numeral.Spelling

/-! The shortest decimal spelling of a floating-point number: the fewest digits that no other number
of the format is closer to, of these the nearest, and of two equally near the larger. -/
namespace ArrayLift

/-- A positive decimal number: the point stands behind the first `point` digits, in front of them
if it is not positive. -/
structure Decimal where
  digits : List (Fin 10)
  point : Int
  deriving DecidableEq, Repr

namespace Decimal

/-- The digits without the zeros at the end. -/
def withoutTrailingZeros (digits : List (Fin 10)) : List (Fin 10) :=
  (digits.reverse.dropWhile fun digit => digit.val = 0).reverse

/-- Positional notation ends at ten to this power. -/
def positionalEnd : Int := 16

/-- Magnitudes below a tenth of ten to this power leave positional notation. -/
def positionalStart : Int := -3

/-- The digits with the point among them, or zeros to reach it; there is always a digit behind
the point. -/
def positional (negative : Bool) (decimal : Decimal) : Numeral :=
  let zeros := List.replicate (-decimal.point).toNat Numeral.zeroDigit
  let size := decimal.digits.length
  let whole := decimal.digits.take decimal.point.toNat
    ++ List.replicate (decimal.point.toNat - size) Numeral.zeroDigit
  let fraction := zeros ++ decimal.digits.drop decimal.point.toNat
  ⟨negative, Numeral.valueOf whole, if fraction.isEmpty then [Numeral.zeroDigit] else fraction, none⟩

/-- One digit in front of the point, the others behind it, and the power of ten. -/
def scientific (negative : Bool) (decimal : Decimal) : Numeral :=
  ⟨negative, Numeral.valueOf (decimal.digits.take 1), decimal.digits.drop 1, some (decimal.point - 1)⟩

/-- The spelling of a decimal number: a point or a power of ten is always part of it. -/
def numeral (negative : Bool) (decimal : Decimal) : Numeral :=
  if positionalStart ≤ decimal.point && decimal.point ≤ positionalEnd then
    decimal.positional negative
  else decimal.scientific negative

end Decimal

namespace Binary64

/-- The number of significant digits that always suffices. -/
def mostDigits : Nat := 17

/-- The place of the decimal point of a positive magnitude: the magnitude is below ten to this
power, and not below a tenth of that. -/
def decimalPoint (rank : Nat) : Int :=
  (Numeral.length (steps rank * Nat.pow 10 324 / one) : Int) - 324

/-- Is a decimal, given as a quotient of steps, read as the magnitude of this rank? It is when it
lies between the middles to both neighbours; the middles themselves belong to an even rank. -/
def reads (rank numerator denominator : Nat) : Bool :=
  let value := 2 * numerator
  let lower := (steps (rank - 1) + steps rank) * denominator
  let upper := (steps rank + steps (rank + 1)) * denominator
  if rank % 2 = 0 then lower ≤ value && value ≤ upper
  else lower < value && value < upper

/-- Of the two decimals with a count of digits around the magnitude, the nearer one that is read
as it. -/
def withDigits? (rank : Nat) (point : Int) (count : Nat) : Option Nat :=
  let scale := point - count
  let up := Nat.pow 10 (-scale).toNat
  let down := Nat.pow 10 scale.toNat
  let numerator := steps rank * up
  let denominator := one * down
  let below := numerator / denominator
  let remainder := numerator % denominator
  match reads rank (below * denominator) up, reads rank ((below + 1) * denominator) up with
  | true, true => some (if 2 * remainder < denominator then below else below + 1)
  | true, false => some below
  | false, true => some (below + 1)
  | false, false => none

/-- Try more and more digits. -/
def shortestFrom (rank : Nat) (point : Int) : (left count : Nat) → Decimal
  | 0, _ => ⟨[], point⟩
  | left + 1, count =>
    match withDigits? rank point count with
    | some value =>
      if Nat.pow 10 count ≤ value then ⟨[1], point + 1⟩
      else ⟨Decimal.withoutTrailingZeros (Numeral.digitsOf count value), point⟩
    | none => shortestFrom rank point left (count + 1)

/-- The shortest decimal of a positive magnitude. -/
def shortest (rank : Nat) : Decimal :=
  shortestFrom rank (decimalPoint rank) mostDigits 1

/-- The spelling of a finite number. -/
def numeral (negative : Bool) (rank : Nat) : Numeral :=
  if rank = 0 then ⟨negative, 0, [Numeral.zeroDigit], none⟩
  else (shortest rank).numeral negative

/-- The text of a number. -/
def toText : Binary64 → String
  | .finite negative rank => String.ofList (numeral negative rank).text
  | .infinite negative => if negative then "-inf" else "inf"
  | .notANumber => "NaN"

end Binary64
end ArrayLift
