import ArrayLift.Resolution.Analysis
import ArrayLift.Resolution.Annotation
import ArrayLift.Settings

/-! Resolution of a program: identifiers are numbered, the walk decides what they denote, and the
tree is annotated with it. The tree is annotated in any case; with strict settings a diagnostic is
an error. -/
namespace ArrayLift

/-- A resolved program and everything that was learned on the way. -/
structure Resolution where
  program : Program
  analysis : Analysis
  /-- The count of annotations that were not there before. -/
  changes : Nat

namespace Resolution

def diagnostics (resolution : Resolution) : List Diagnostic :=
  resolution.analysis.diagnostics

/-- The errors of strict settings: every diagnostic, escalated. -/
def strictErrors (settings : Settings) (resolution : Resolution) : List Diagnostic :=
  if settings.strict then resolution.diagnostics.map Diagnostic.escalate else []

/-- Does resolution fail? -/
def isRejected (settings : Settings) (resolution : Resolution) : Bool :=
  !(resolution.strictErrors settings).isEmpty

end Resolution

/-- The walks over a loop are bounded by the count of identifiers; three are enough. -/
def Program.walkLimit (count : Nat) : Nat := count + 3

/-- Resolve a program. -/
def Program.resolve (settings : Settings) (program : Program) : Resolution :=
  let (numbered, count) := program.withIds
  let analysis := (numbered.findings (walkLimit count)).analysis
  let (annotated, changes) := numbered.annotate analysis.table settings.reserved
  ⟨annotated, analysis, changes⟩

/-- The message of a resolution that fails with strict settings. -/
def strictMessage (errors : List Diagnostic) : String :=
  toString errors.length ++ " resolution diagnostic(s) in strict mode"

def strictCode : String := "mlpy::resolve::strict"

def strictHelp : String := "rerun without --strict to compile with warnings"

end ArrayLift
