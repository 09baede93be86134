/-! The names that generated Python takes from its array library, with what each one does. -/
namespace ArrayLift

/-- A function, constant or binding that the array library provides to generated code. -/
inductive LibraryName where
  | copy
  | concat
  | emptyArray
  | cellArray
  | indexRange
  | endMarker
  | logicalNot
  | logicalAnd
  | logicalOr
  | getAttribute
  | setAttribute
  | linearSolve
  | functionMark
  | varargin
  | nargin
  | nargout
  | trueConstant
  | falseConstant
  | workspace
  deriving DecidableEq, Repr

namespace LibraryName

/-- Every name once, in the order of the vocabulary. -/
def all : List LibraryName :=
  [.copy, .concat, .emptyArray, .cellArray, .indexRange, .endMarker, .logicalNot, .logicalAnd,
    .logicalOr, .getAttribute, .setAttribute, .linearSolve, .functionMark, .varargin, .nargin,
    .nargout, .trueConstant, .falseConstant, .workspace]

/-- How Python spells the name. -/
def spelling : LibraryName → String
  | .copy => "copy"
  | .concat => "concat"
  | .emptyArray => "matlabarray"
  | .cellArray => "cellarray"
  | .indexRange => "arange"
  | .endMarker => "end"
  | .logicalNot => "logical_not"
  | .logicalAnd => "logical_and"
  | .logicalOr => "logical_or"
  | .getAttribute => "getattr"
  | .setAttribute => "setattr"
  | .linearSolve => "numpy.linalg.solve"
  | .functionMark => "function"
  | .varargin => "varargin"
  | .nargin => "nargin"
  | .nargout => "nargout"
  | .trueConstant => "true"
  | .falseConstant => "false"
  | .workspace => "workspace_"

/-- What the name stands for, in one line. -/
def description : LibraryName → String
  | .copy => "Materialize an independent copy of a value."
  | .concat => "Build an array from a list of rows."
  | .emptyArray => "Construct an empty array with source shape semantics."
  | .cellArray => "Build a cell array from a list of rows."
  | .indexRange => "Construct an inclusive, 1-based index range."
  | .endMarker => "Deferred end-of-dimension marker, resolved by the indexed array."
  | .logicalNot => "Elementwise negation."
  | .logicalAnd => "Elementwise conjunction."
  | .logicalOr => "Elementwise disjunction."
  | .getAttribute => "Dynamic field read."
  | .setAttribute => "Dynamic field write."
  | .linearSolve => "Solve `a x = b` for left division."
  | .functionMark => "Decorator that packs `varargin`/`nargin`/`nargout`."
  | .varargin => "Implicit binding: trailing positional arguments."
  | .nargin => "Implicit binding: number of actual arguments."
  | .nargout => "Keyword argument naming the requested output count."
  | .trueConstant => "Logical true constant."
  | .falseConstant => "Logical false constant."
  | .workspace => "Dictionary simulating the script workspace."

/-- The name with a given Python spelling. -/
def ofSpelling? (name : String) : Option LibraryName :=
  all.find? fun candidate => candidate.spelling == name

/-- The bindings that every generated function makes before its own statements, in order. -/
def implicitBindings : List LibraryName :=
  [.varargin, .nargin]

/-- What every generated parameter list ends with. -/
def variadicTail : List String :=
  ["*args", "**kwargs"]

/-- The attribute that transposes an array. -/
def transposeAttribute : String := "T"

/-- The method of the workspace that takes loaded variables in. -/
def workspaceMerge : String := "update"

/-- The called names whose result is merged into the workspace. -/
def workspaceLoaders : List String := ["load"]

/-- Does a call of this name fill the workspace of its caller? -/
def isWorkspaceLoader (name : String) : Bool :=
  workspaceLoaders.contains name

end LibraryName
end ArrayLift
