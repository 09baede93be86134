import ArrayLift.CommandLine.Program

/-! The program on a real machine. -/
namespace ArrayLift

/-- The fault behind an error of the system. -/
def FileFault.ofError : IO.Error → FileFault
  | .noFileOrDirectory .. => .missing
  | .alreadyExists .. => .exists
  | .inappropriateType _ 20 _ => .notDirectory
  | .inappropriateType _ 21 _ => .isDirectory
  | error => .other (toString error)

/-- A step whose error is part of its result. -/
def attempt {α : Type} (step : IO α) : IO (Except FileFault α) := do
  try
    let value ← step
    pure (.ok value)
  catch error => pure (.error (FileFault.ofError error))

/-- The operations of the real machine. -/
def realHost : Host IO where
  read path := attempt (IO.FS.readBinFile path)
  createDirectory path := attempt (IO.FS.createDir path)
  write path text := attempt (IO.FS.writeFile path text)
  print text := do
    let stream ← IO.getStdout
    stream.putStr text
    stream.flush
  complain text := do
    let stream ← IO.getStderr
    stream.putStr text
    stream.flush
  colored := do
    let stream ← IO.getStderr
    stream.isTty

end ArrayLift

def main (arguments : List String) : IO UInt32 := do
  let status ← ArrayLift.CommandLine.run ArrayLift.realHost arguments
  pure status.toUInt32
