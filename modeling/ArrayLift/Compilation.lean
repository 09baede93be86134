import ArrayLift.Resolution.Resolve
import ArrayLift.Code.Statement

/-! Compilation: resolution, then Python text. -/
namespace ArrayLift

/-- The Python text of a program with the diagnostics of its resolution. -/
structure Compilation where
  code : String
  diagnostics : List Diagnostic
  changes : Nat

/-- Why a program has no Python text. -/
inductive CompileError where
  /-- Settings are strict, and these are the diagnostics as errors. -/
  | strict (errors : List Diagnostic)
  | malformed (fault : Code.Fault)

/-- The program as it is after resolution, and what resolution says of it. -/
def Program.checked (settings : Settings) (program : Program) : Program × Except CompileError Resolution :=
  let resolution := program.resolve settings
  (resolution.program,
    if resolution.isRejected settings then .error (.strict (resolution.strictErrors settings))
    else .ok resolution)

/-- The program as it is after resolution, and its compilation. -/
def Program.compile (settings : Settings) (program : Program) : Program × Except CompileError Compilation :=
  let (annotated, checked) := program.checked settings
  (annotated, do
    let resolution ← checked
    match Code.generate settings annotated with
    | .ok code => .ok ⟨code, resolution.diagnostics, resolution.changes⟩
    | .error fault => .error (.malformed fault))

/-- The compilation of a program as it stands, without resolution. -/
def Program.compileAsIs (settings : Settings) (program : Program) : Except CompileError Compilation :=
  match Code.generate settings program with
  | .ok code => .ok ⟨code, [], 0⟩
  | .error fault => .error (.malformed fault)

end ArrayLift
