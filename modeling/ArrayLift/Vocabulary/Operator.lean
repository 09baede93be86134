/-! The operators of the source language: how each is spelled there, how Python spells it, and
where its operands stand. The order of `Operator.all` is the order of the vocabulary. -/
namespace ArrayLift

/-- Where the operands of an operator stand relative to its spelling. -/
inductive Fixity where
  | between
  | before
  | after
  /-- The operator stands alone and takes no operand. -/
  | alone
  /-- The operator encloses its single operand. -/
  | enclosing
  /-- The operator takes a list of operands of any length. -/
  | listed
  deriving DecidableEq, Repr

/-- The operators of the source language. -/
inductive Operator where
  | plus
  | minus
  | times
  | divide
  | power
  | elementTimes
  | elementDivide
  | elementPower
  | leftDivide
  | elementLeftDivide
  | elementTimesAssign
  | elementDivideAssign
  | equal
  | notEqual
  | less
  | lessEqual
  | greater
  | greaterEqual
  | not
  | elementAnd
  | elementOr
  | shortAnd
  | shortOr
  | transpose
  | range
  | colon
  | lastIndex
  | parens
  | handle
  deriving DecidableEq, Repr

namespace Operator

/-- Every operator once, in the order of the vocabulary. -/
def all : List Operator :=
  [.plus, .minus, .times, .divide, .power, .elementTimes, .elementDivide, .elementPower,
    .leftDivide, .elementLeftDivide, .elementTimesAssign, .elementDivideAssign, .equal,
    .notEqual, .less, .lessEqual, .greater, .greaterEqual, .not, .elementAnd, .elementOr,
    .shortAnd, .shortOr, .transpose, .range, .colon, .lastIndex, .parens, .handle]

/-- The spelling that names the operator when a single one is asked for. -/
def canonical : Operator → String
  | .plus => "+"
  | .minus => "-"
  | .times => "*"
  | .divide => "/"
  | .power => "^"
  | .elementTimes => ".*"
  | .elementDivide => "./"
  | .elementPower => ".^"
  | .leftDivide => "\\"
  | .elementLeftDivide => ".\\"
  | .elementTimesAssign => ".*="
  | .elementDivideAssign => "./="
  | .equal => "=="
  | .notEqual => "~="
  | .less => "<"
  | .lessEqual => "<="
  | .greater => ">"
  | .greaterEqual => ">="
  | .not => "!"
  | .elementAnd => "&"
  | .elementOr => "|"
  | .shortAnd => "&&"
  | .shortOr => "||"
  | .transpose => "'"
  | .range => "::"
  | .colon => ":"
  | .lastIndex => "end"
  | .parens => "parens"
  | .handle => "@"

/-- The further spellings that the source language accepts for the operator. -/
def alternatives : Operator → List String
  | .power => ["**"]
  | .notEqual => ["!="]
  | .not => ["~"]
  | .transpose => [".'"]
  | _ => []

/-- Every accepted spelling, the canonical one first. -/
def spellings (operator : Operator) : List String :=
  operator.canonical :: operator.alternatives

/-- The Python spelling, where it differs from the source spelling. -/
def target? : Operator → Option String
  | .power | .elementPower => some "**"
  | .elementTimes | .elementTimesAssign => some "*"
  | .elementDivide | .elementLeftDivide | .elementDivideAssign => some "/"
  | .notEqual => some "!="
  | .not => some "not"
  | .elementAnd | .shortAnd => some "and"
  | .elementOr | .shortOr => some "or"
  | _ => none

/-- The Python spelling; an operator without one of its own keeps its canonical spelling. -/
def target (operator : Operator) : String :=
  operator.target?.getD operator.canonical

/-- Where the operands stand. -/
def fixity : Operator → Fixity
  | .not | .handle => .before
  | .transpose => .after
  | .range | .colon => .listed
  | .lastIndex => .alone
  | .parens => .enclosing
  | _ => .between

/-- The operator with a given spelling; letter case matters. -/
def ofSpelling? (spelling : String) : Option Operator :=
  all.find? fun operator => operator.spellings.contains spelling

/-- The Python spelling of a source spelling; one that is unknown or shared stays as it is. -/
def respell (spelling : String) : String :=
  ((ofSpelling? spelling).bind target?).getD spelling

end Operator
end ArrayLift
