/-! Decimal numbers as they are spelled: sign, whole part, digits behind the point, exponent. -/
namespace ArrayLift

/-- A number as it is spelled. The digits behind the point are kept one by one, because zeros at
their end are part of the spelling; a whole part has no leading zeros, so its value says it all. -/
structure Numeral where
  negative : Bool
  whole : Nat
  fraction : List (Fin 10)
  exponent : Option Int
  deriving DecidableEq, Repr

namespace Numeral

/-- The last digit of a number. -/
def lastDigit (value : Nat) : Fin 10 :=
  Fin.ofNat 10 value

/-- The digit zero. -/
def zeroDigit : Fin 10 := ⟨0, by decide⟩

/-- The digits of a number, the last one first, as many as there are places. -/
def digitsReversed : (places : Nat) → Nat → List (Fin 10)
  | 0, _ => []
  | places + 1, value => lastDigit value :: digitsReversed places (value / 10)

/-- The last digits of a number, as many as there are places. -/
def digitsOf (places value : Nat) : List (Fin 10) :=
  (digitsReversed places value).reverse

/-- The number that digits spell. -/
def valueOf (digits : List (Fin 10)) : Nat :=
  digits.foldl (fun value digit => value * 10 + digit.val) 0

/-- The count of digits of a number in its usual spelling. -/
def length (value : Nat) : Nat :=
  (toString value).length

/-- A spelling without point and exponent. -/
def ofNat (value : Nat) : Numeral :=
  ⟨false, value, [], none⟩

def ofInt (value : Int) : Numeral :=
  ⟨value < 0, value.natAbs, [], none⟩

/-- The characters of the spelling. -/
def text (numeral : Numeral) : List Char :=
  (if numeral.negative then ['-'] else [])
    ++ (toString numeral.whole).toList
    ++ (if numeral.fraction.isEmpty then []
        else '.' :: numeral.fraction.map fun (digit : Fin 10) => Nat.digitChar digit.val)
    ++ (match numeral.exponent with
        | some exponent => 'e' :: (toString exponent).toList
        | none => [])

/-- A spelling without point and exponent is whole; a negative zero counts as no whole number. -/
def toInt? (numeral : Numeral) : Option Int :=
  if numeral.fraction.isEmpty && numeral.exponent.isNone then
    if numeral.negative then
      if numeral.whole = 0 then none else some (-(numeral.whole : Int))
    else some numeral.whole
  else none

end Numeral
end ArrayLift
