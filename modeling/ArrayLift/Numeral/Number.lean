import ArrayLift.Numeral.Shortest

/-! Number literals: whole numbers of 64 bits and floating-point numbers. -/
namespace ArrayLift

/-- The value of a number literal. -/
inductive Number where
  | int (value : Int64)
  | float (value : Binary64)
  deriving DecidableEq

namespace Number

/-- The literal as a floating-point number. -/
def toFloat : Number → Binary64
  | .int value => Binary64.ofInt value.toInt
  | .float value => value

/-- The sum of two literals: whole as long as both are and the sum has 64 bits. -/
def add : Number → Number → Number
  | .int left, .int right =>
    let sum := left.toInt + right.toInt
    if Int64.minValue.toInt ≤ sum && sum ≤ Int64.maxValue.toInt then .int (Int64.ofInt sum)
    else .float ((Number.int left).toFloat.add (Number.int right).toFloat)
  | left, right => .float (left.toFloat.add right.toFloat)

/-- The literal as Python reads it back. -/
def toText : Number → String
  | .int value => toString value.toInt
  | .float value => value.toText

end Number
end ArrayLift
