import ArrayLift.Tree.Decoding
import ArrayLift.Tree.Encoding

/-! What resolution reports about a program, and how a report is shown. -/
namespace ArrayLift

inductive Severity where
  | note
  | warning
  | error
  deriving DecidableEq, Repr

/-- What a diagnostic is about. -/
inductive Concern where
  /-- A name is indexed as only arrays are, and nothing defines it. -/
  | ambiguousIndex
  /-- Several targets are assigned from a value that is only one. -/
  | arityMismatch
  deriving DecidableEq, Repr

structure Diagnostic where
  line : SourceLine
  message : String
  severity : Severity
  concern : Concern
  notes : List String
  hints : List String
  deriving DecidableEq, Repr

namespace Severity

def name : Severity → String
  | .note => "note"
  | .warning => "warning"
  | .error => "error"

def ofName? : String → Option Severity
  | "note" => some .note
  | "warning" => some .warning
  | "error" => some .error
  | _ => none

end Severity

namespace Concern

def name : Concern → String
  | .ambiguousIndex => "ambiguous_index"
  | .arityMismatch => "arity_mismatch"

def ofName? : String → Option Concern
  | "ambiguous_index" => some .ambiguousIndex
  | "arity_mismatch" => some .arityMismatch
  | _ => none

/-- The code that stays the same whatever the message says. -/
def code : Concern → String
  | .ambiguousIndex => "mlpy::resolve::ambiguous_index"
  | .arityMismatch => "mlpy::resolve::arity_mismatch"

end Concern

namespace Diagnostic

/-- A diagnostic without notes and hints. -/
def plain (concern : Concern) (severity : Severity) (message : String) (line : SourceLine) : Diagnostic :=
  ⟨line, message, severity, concern, [], []⟩

def warning (concern : Concern) (message : String) (line : SourceLine) : Diagnostic :=
  plain concern .warning message line

def withNote (diagnostic : Diagnostic) (note : String) : Diagnostic :=
  { diagnostic with notes := diagnostic.notes ++ [note] }

def withHint (diagnostic : Diagnostic) (hint : String) : Diagnostic :=
  { diagnostic with hints := diagnostic.hints ++ [hint] }

/-- Make it an error, whatever it was. -/
def escalate (diagnostic : Diagnostic) : Diagnostic :=
  { diagnostic with severity := .error }

/-- The report of a name that is indexed as only arrays are. -/
def ambiguousIndex (name : String) (line : SourceLine) : Diagnostic :=
  (warning .ambiguousIndex
    ("'" ++ name ++ "' is indexed like an array but is never defined; treating it as a function call")
    line).withHint
    ("Assign '" ++ name ++ "' before indexing it, or declare a function named '" ++ name ++ "'")

/-- The report of several targets assigned from a single value, which is described in words. -/
def arityMismatch (targets : Nat) (source : String) (line : SourceLine) : Diagnostic :=
  (warning .arityMismatch ("cannot assign " ++ toString targets ++ " values from " ++ source)
    line).withNote
    "Only function calls and cell references can produce several values"

/-- The diagnostic in one line. -/
def summary (diagnostic : Diagnostic) : String :=
  "line " ++ toString diagnostic.line.toNat ++ ": " ++ diagnostic.message

/-- All hints together, if there are any. -/
def help? (diagnostic : Diagnostic) : Option String :=
  if diagnostic.hints.isEmpty then none else some (String.intercalate "\n" diagnostic.hints)

/-- The control sequences of a terminal that set off parts of a report. -/
structure Palette where
  red : String
  cyan : String
  yellow : String
  bold : String
  reset : String

/-- No control sequences. -/
def Palette.plain : Palette := ⟨"", "", "", "", ""⟩

def Palette.colored : Palette :=
  ⟨"\x1b[31m", "\x1b[36m", "\x1b[33m", "\x1b[1m", "\x1b[0m"⟩

def Palette.ofSeverity (palette : Palette) : Severity → String
  | .error => palette.red
  | .warning => palette.yellow
  | .note => palette.cyan

/-- A labelled remark under a report. -/
def remark (palette : Palette) (label text : String) : String :=
  "  " ++ palette.cyan ++ "= " ++ label ++ ":" ++ palette.reset ++ " " ++ text ++ "\n"

/-- The report as it is shown: a headline, the place, the notes and the hints. -/
def report (file : String) (palette : Palette) (diagnostic : Diagnostic) : String :=
  palette.bold ++ palette.ofSeverity diagnostic.severity ++ diagnostic.severity.name
    ++ palette.reset ++ palette.bold ++ ": " ++ diagnostic.message ++ palette.reset ++ "\n  "
    ++ palette.cyan ++ "-->" ++ palette.reset ++ " " ++ file ++ ":"
    ++ toString diagnostic.line.toNat ++ "\n"
    ++ String.join (diagnostic.notes.map (remark palette "note"))
    ++ String.join (diagnostic.hints.map (remark palette "hint"))

open Json

def encode (diagnostic : Diagnostic) : Json :=
  ofFields
    [("line", ofNat diagnostic.line.toNat), ("message", ofText diagnostic.message),
      ("severity", ofText diagnostic.severity.name), ("kind", ofText diagnostic.concern.name),
      ("notes", .array (diagnostic.notes.map ofText)), ("hints", .array (diagnostic.hints.map ofText))]

/-- An alternative that holds nothing, found by its name. -/
def decodeName {α : Type} (ofName? : String → Option α) (value : Json) : Option α := do
  let (name, content) ← value.alternative?
  if holdsNothing content then ofName? name else none

/-- The diagnostic that a JSON value holds. Its depth stays far below the limit. -/
def ofJson? (value : Json) : Option Diagnostic := do
  let field ← value.record? ["line", "message", "severity", "kind", "notes", "hints"]
  let line ← required SourceLine.decode (field "line")
  let message ← required text? (field "message")
  let severity ← required (decodeName Severity.ofName?) (field "severity")
  let concern ← required (decodeName Concern.ofName?) (field "kind")
  let notes ← required (items? text?) (field "notes")
  let hints ← required (items? text?) (field "hints")
  some ⟨line, message, severity, concern, notes, hints⟩

end Diagnostic
end ArrayLift
