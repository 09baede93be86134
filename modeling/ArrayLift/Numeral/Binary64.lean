/-! Floating-point numbers of 64 bits by exact arithmetic. The finite magnitudes are numbered from
zero upward by their rank, and each one is a whole number of smallest steps of 2^-1074, so that
rounding, sums, products and quotients are computed with natural numbers alone. -/
namespace ArrayLift

/-- The number of finite magnitudes that follow each other at the same distance. -/
abbrev Binary64.rangeSize : Nat := Nat.pow 2 52

/-- The number of finite magnitudes. -/
abbrev Binary64.rankLimit : Nat := 2047 * Binary64.rangeSize

/-- A floating-point number of 64 bits. -/
inductive Binary64 where
  /-- The finite number whose magnitude has the given rank among all finite magnitudes. -/
  | finite (negative : Bool) (rank : Fin Binary64.rankLimit)
  | infinite (negative : Bool)
  | notANumber
  deriving DecidableEq, Repr

namespace Binary64

/-- The magnitude of a rank in steps of 2^-1074: in the first range the magnitudes are one step
apart, and so in the second one; from there on the distance doubles with every range. -/
def steps (rank : Nat) : Nat :=
  let range := rank / rangeSize
  let offset := rank % rangeSize
  if range = 0 then offset else (rangeSize + offset) * Nat.pow 2 (range - 1)

/-- The quotient rounded to the nearest whole number, a half to the even neighbour. -/
def roundHalfEven (numerator denominator : Nat) : Nat :=
  let quotient := numerator / denominator
  let twice := 2 * (numerator % denominator)
  if twice < denominator then quotient
  else if denominator < twice then quotient + 1
  else if quotient % 2 = 0 then quotient else quotient + 1

/-- The rank of the magnitude that is nearest to a quotient of steps. Above 2^53 steps the last
bits are rounded away; a carry leads into the next range by itself. -/
def nearestRank (numerator denominator : Nat) : Nat :=
  let excess := Nat.log2 (numerator / denominator) - 52
  excess * rangeSize + roundHalfEven numerator (denominator * Nat.pow 2 excess)

/-- The number with a sign and the rank of its magnitude; ranks past the last are infinite. -/
def ofRank (negative : Bool) (rank : Nat) : Binary64 :=
  if fits : rank < rankLimit then .finite negative ⟨rank, fits⟩ else .infinite negative

/-- The number nearest to a quotient of steps. -/
def nearest (negative : Bool) (numerator denominator : Nat) : Binary64 :=
  ofRank negative (nearestRank numerator denominator)

/-- The number of steps in one. -/
def one : Nat := Nat.pow 2 1074

/-- The number nearest to a whole number. -/
def ofInt (value : Int) : Binary64 :=
  nearest (value < 0) (value.natAbs * one) 1

def isFinite : Binary64 → Bool
  | .finite .. => true
  | _ => false

def isNegative : Binary64 → Bool
  | .finite negative _ => negative
  | .infinite negative => negative
  | .notANumber => false

/-- A finite number in signed steps. -/
def signedSteps (negative : Bool) (rank : Nat) : Int :=
  if negative then -(steps rank : Int) else steps rank

/-- The sum, rounded to nearest. An exact sum of zero is negative only if both terms are. -/
def add : Binary64 → Binary64 → Binary64
  | .finite leftSign left, .finite rightSign right =>
    let sum := signedSteps leftSign left + signedSteps rightSign right
    if sum = 0 then ofRank (leftSign && rightSign) 0
    else nearest (sum < 0) sum.natAbs 1
  | .infinite leftSign, .infinite rightSign =>
    if leftSign = rightSign then .infinite leftSign else .notANumber
  | .infinite sign, .finite .. => .infinite sign
  | .finite .., .infinite sign => .infinite sign
  | _, _ => .notANumber

/-- The magnitude of a rank times a power of ten, rounded to nearest. The power itself is first
rounded to nearest. -/
def timesTen (rank exponent : Nat) : Nat :=
  nearestRank (steps rank * steps (nearestRank (Nat.pow 10 exponent * one) 1)) one

/-- The magnitude of a rank divided by a power of ten, rounded to nearest. The power itself is
first rounded to nearest. -/
def overTen (rank exponent : Nat) : Nat :=
  nearestRank (steps rank * one) (steps (nearestRank (Nat.pow 10 exponent * one) 1))

end Binary64
end ArrayLift
