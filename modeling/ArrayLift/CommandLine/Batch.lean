import ArrayLift.Compilation
import ArrayLift.CommandLine.Host
import ArrayLift.CommandLine.Options
import ArrayLift.CommandLine.Path
import ArrayLift.CommandLine.Prologue

/-! Batches of files. All files are compiled before the first output is opened, and their results
are reported and written in the order of the command line. -/
namespace ArrayLift

/-- Why one file of a batch failed. -/
inductive FileError where
  | inaccessible (path : String) (fault : FileFault)
  | tooLarge (path : String) (size : Nat)
  | noTree (path : String)
  | notCompiled (path : String) (cause : CompileError)

namespace FileError

/-- The greatest size of an input in bytes. -/
def sizeLimit : Nat := 100 * 1024 * 1024

def message : FileError → String
  | .inaccessible path _ => "cannot access '" ++ path ++ "'"
  | .tooLarge path size =>
    "'" ++ path ++ "' is too large (" ++ toString size ++ " bytes, max " ++ toString sizeLimit ++ " bytes)"
  | .noTree path => "'" ++ path ++ "' does not contain a valid syntax tree"
  | .notCompiled path _ => "failed to compile '" ++ path ++ "'"

def code : FileError → String
  | .inaccessible .. => "mlpy::io"
  | .tooLarge .. => "mlpy::io::too_large"
  | .noTree _ => "mlpy::parse"
  | .notCompiled .. => "mlpy::compile"

def help? : FileError → Option String
  | .noTree _ => some "inputs must be JSON-encoded programs"
  | _ => none

/-- What lies behind the error, line by line. -/
def causes : FileError → List String
  | .inaccessible _ fault => [fault.text]
  | .notCompiled _ (.malformed fault) => [fault.message, Code.Fault.help]
  | .notCompiled _ (.strict errors) =>
    strictMessage errors :: strictHelp :: errors.map Diagnostic.summary
  | _ => []

/-- The error as it is reported. -/
def report (error : FileError) : String :=
  "error: " ++ error.message ++ " [" ++ error.code ++ "]\n"
    ++ String.join (error.causes.map fun cause => "  = " ++ cause ++ "\n")
    ++ String.join (error.help?.toList.map fun help => "  = help: " ++ help ++ "\n")

end FileError

/-- The result of one file. -/
structure Compiled where
  source : String
  /-- The Python text, unless the file was only resolved. -/
  code : Option String
  diagnostics : List Diagnostic

/-- Take a program as far as the options ask for. -/
def Program.compileFor (options : Options) (source : String) (program : Program) :
    Except CompileError Compiled :=
  let settings := options.settingsFor source
  match options.goal with
  | .full => do
    let compilation ← (program.compile settings).2
    .ok ⟨source, some compilation.code, compilation.diagnostics⟩
  | .unresolved => do
    let compilation ← program.compileAsIs settings
    .ok ⟨source, some compilation.code, compilation.diagnostics⟩
  | .resolveOnly => do
    let resolution ← (program.checked settings).2
    .ok ⟨source, none, resolution.diagnostics⟩

/-- The result of a file with a given content. -/
def compileContent (options : Options) (path : String) (content : ByteArray) : Except FileError Compiled :=
  if FileError.sizeLimit < content.size then .error (.tooLarge path content.size)
  else match String.fromUTF8? content with
  | none => .error (.inaccessible path (.other "stream did not contain valid UTF-8"))
  | some text =>
    match Program.parse? text with
    | none => .error (.noTree path)
    | some program =>
      match program.compileFor options (Path.sourceName path) with
      | .ok compiled => .ok compiled
      | .error cause => .error (.notCompiled path cause)

/-- The text of a result in an output. The first one of an output has the prologue, if headers are
wanted, and every later one a line with its name. -/
def Compiled.text (options : Options) (first : Bool) (compiled : Compiled) (code : String) : String :=
  (if first then
      if options.header then prologue options.encoding options.runtimeModule compiled.source else ""
    else "\n# " ++ compiled.source ++ "\n") ++ code

/-- Where the results of a batch go. -/
inductive Sink where
  /-- Everything goes to the standard output. -/
  | stream (started : Bool)
  /-- Everything goes to one file at the end. -/
  | combined (path : String) (text : String)
  /-- Every result has a file of its own. -/
  | separate (directory : String)

/-- The name of the output file that stands for the standard output. -/
def streamMark : String := "-"

namespace Batch

variable {m : Type → Type} [Monad m] (host : Host m) (options : Options)

/-- Compile one file. -/
def compileFile (path : String) : m (Except FileError Compiled) := do
  match ← host.read path with
  | .error fault => pure (.error (.inaccessible path fault))
  | .ok content => pure (compileContent options path content)

/-- Name a file of the command line and tell what happens to it, if that is wanted. -/
def announce (position : Nat) (path : String) : m Unit := do
  if options.verbose then
    host.print (toString position ++ " " ++ path ++ "\n")
    if Path.select path options.exclude = .excluded then
      host.print ("\tExcluded: '" ++ path ++ "'\n")

/-- Name all files in order. -/
def announceAll : (position : Nat) → List String → m Unit
  | _, [] => pure ()
  | position, path :: rest => do
    announce host options position path
    announceAll (position + 1) rest

/-- The files of the command line that are compiled. -/
def selected (options : Options) (paths : List String) : List String :=
  paths.filter fun path => Path.select path options.exclude = .compile

/-- Open the output of a batch, or say why that is impossible. -/
def openSink : m (Except String Sink) := do
  match options.output with
  | some path => pure (.ok (if path = streamMark then .stream false else .combined path ""))
  | none =>
    match ← host.createDirectories options.outputDirectory with
    | .ok _ => pure (.ok (.separate options.outputDirectory))
    | .error fault =>
      pure (.error ("Cannot create output directory '" ++ options.outputDirectory ++ "': " ++ fault.text))

/-- Write one result. -/
def deliver (compiled : Compiled) (code : String) : Sink → m (Except FileError Sink)
  | .stream started => do
    host.print (compiled.text options (!started) code)
    pure (.ok (.stream true))
  | .combined path text =>
    pure (.ok (.combined path (text ++ compiled.text options text.isEmpty code)))
  | .separate directory => do
    let path := Path.join directory (Path.outputName compiled.source)
    match ← host.write path (compiled.text options true code) with
    | .error fault => pure (.error (.inaccessible path fault))
    | .ok _ =>
      if options.verbose then host.print ("\toutput: " ++ path ++ "\n")
      pure (.ok (.separate directory))

/-- Report the diagnostics of a result and write its text. -/
def settle (palette : Diagnostic.Palette) (sink : Sink) :
    Except FileError Compiled → m (Except FileError Sink)
  | .error error => pure (.error error)
  | .ok compiled => do
    host.complain (String.join (compiled.diagnostics.map (Diagnostic.report compiled.source palette)))
    match compiled.code with
    | some code => deliver host options compiled code sink
    | none => pure (.ok sink)

/-- Settle results in order, and count the failures. With strict options the first failure is the
last result that counts. -/
def settleAll (palette : Diagnostic.Palette) :
    List (Except FileError Compiled) → Sink → Nat → m (Sink × Nat)
  | [], sink, failures => pure (sink, failures)
  | result :: rest, sink, failures => do
    match ← settle host options palette sink result with
    | .ok sink => settleAll palette rest sink failures
    | .error error =>
      host.complain error.report
      if options.strict then pure (sink, failures + 1)
      else settleAll palette rest sink (failures + 1)

/-- Close the output of a batch, or say why that is impossible. -/
def closeSink : Sink → m (Except String Unit)
  | .combined path text => do
    match ← host.write path text with
    | .ok _ => pure (.ok ())
    | .error fault => pure (.error ("Error writing '" ++ path ++ "': " ++ fault.text))
  | _ => pure (.ok ())

/-- Run a batch: the status that the program ends with, or why there is no output. -/
def run (paths : List String) : m (Except String Nat) := do
  announceAll host options 1 paths
  let results ← (selected options paths).mapM (compileFile host options)
  let palette := if ← host.colored then Diagnostic.Palette.colored else Diagnostic.Palette.plain
  match ← openSink host options with
  | .error message => pure (.error message)
  | .ok sink =>
    let (sink, failures) ← settleAll host options palette results sink 0
    match ← closeSink host sink with
    | .error message => pure (.error message)
    | .ok _ =>
      if failures = 0 then pure (.ok 0)
      else
        host.print ("Errors: " ++ toString failures ++ "\n")
        pure (.ok 1)

end Batch
end ArrayLift
