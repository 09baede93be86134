import ArrayLift.CommandLine.Path

/-! What the command line needs from the machine it runs on: files, directories and two streams of
text. -/
namespace ArrayLift

/-- Why a file or a directory cannot be used. -/
inductive FileFault where
  | missing
  | exists
  | notDirectory
  | isDirectory
  | other (text : String)
  deriving DecidableEq, Repr

/-- The words of the system. -/
def FileFault.text : FileFault → String
  | .missing => "No such file or directory (os error 2)"
  | .exists => "File exists (os error 17)"
  | .notDirectory => "Not a directory (os error 20)"
  | .isDirectory => "Is a directory (os error 21)"
  | .other text => text

/-- The operations of a machine, as steps of some kind. -/
structure Host (m : Type → Type) where
  read : (path : String) → m (Except FileFault ByteArray)
  /-- Make a directory in one that is there. -/
  createDirectory : (path : String) → m (Except FileFault Unit)
  /-- Give a file a new content, and make the file if it is not there. -/
  write : (path : String) → (text : String) → m (Except FileFault Unit)
  /-- Write to the standard output. -/
  print : (text : String) → m Unit
  /-- Write to the standard error output. -/
  complain : (text : String) → m Unit
  /-- Does the standard error output show colors? -/
  colored : m Bool

namespace Host

variable {m : Type → Type} [Monad m] (host : Host m)

/-- A directory is what cannot be read for being one. -/
def isDirectory (path : String) : m Bool := do
  match ← host.read path with
  | .error .isDirectory => pure true
  | _ => pure false

/-- Make a directory; one that is there is left alone. -/
def settleDirectory (path : String) : m (Except FileFault Unit) := do
  match ← host.createDirectory path with
  | .ok _ => pure (.ok ())
  | .error fault => pure (if ← host.isDirectory path then .ok () else .error fault)

/-- Make the directory at the end of some names, the last one first, and those on the way to it
if they are missing. -/
def createReversed (root : String) : List String → m (Except FileFault Unit)
  | [] => pure (.ok ())
  | name :: parents => do
    let path := root ++ String.intercalate "/" (name :: parents).reverse
    match ← host.settleDirectory path with
    | .error .missing =>
      match ← createReversed root parents with
      | .error fault => pure (.error fault)
      | .ok _ => host.settleDirectory path
    | result => pure result

/-- Make a directory and the directories around it. -/
def createDirectories (path : String) : m (Except FileFault Unit) :=
  host.createReversed (if path.toList.head? = some '/' then "/" else "") (Path.components path).reverse

end Host
end ArrayLift
