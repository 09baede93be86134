import ArrayLift.Tree.Syntax

/-! Why no Python text exists for a tree. Only trees that no front end should produce have none. -/
namespace ArrayLift.Code

/-- The first malformed node of a tree, by its cause. -/
inductive Fault where
  /-- An operator whose count of operands is fixed has another count. -/
  | operands (line : SourceLine) (spelling : String) (expected found : Nat)
  /-- A range has a count of operands other than none, two or three. -/
  | range (line : SourceLine) (found : Nat)
  /-- An assignment has no target. -/
  | noTarget (line : SourceLine)
  /-- A declaration has no names. -/
  | noNames (line : SourceLine)
  deriving DecidableEq, Repr

namespace Fault

def line : Fault → SourceLine
  | .operands line .. => line
  | .range line _ => line
  | .noTarget line => line
  | .noNames line => line

/-- What kind of node is malformed. -/
def node : Fault → String
  | .operands .. => "operator"
  | .range .. => "range"
  | .noTarget _ => "assignment"
  | .noNames _ => "declaration"

/-- What is wrong with it. -/
def detail : Fault → String
  | .operands _ spelling expected found =>
    "'" ++ spelling ++ "' expects " ++ toString expected ++ " operand(s), found " ++ toString found
  | .range _ found => "expected 0, 2 or 3 operands, found " ++ toString found
  | .noTarget _ => "has no target"
  | .noNames _ => "declares no names"

def message (fault : Fault) : String :=
  "line " ++ toString fault.line.toNat ++ ": malformed " ++ fault.node ++ ": " ++ fault.detail

def code : String := "mlpy::emit::malformed"

def help : String := "the syntax tree does not match what the front end should produce"

end Fault
end ArrayLift.Code
