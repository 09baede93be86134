import ArrayLift.Settings
import ArrayLift.Text.Split

/-! The command line: which arguments it accepts, what they say, and which of several mistakes is
reported. Arguments are read from left to right. The values of an option or a run of files are
checked when the next option comes, or at the end. -/
namespace ArrayLift

/-- How far a file is taken. -/
inductive Goal where
  /-- Resolve, then generate. -/
  | full
  /-- Generate the tree as it is. -/
  | unresolved
  /-- Resolve and report only. -/
  | resolveOnly
  deriving DecidableEq, Repr

/-- What a batch is asked for. -/
structure Options where
  output : Option String := none
  outputDirectory : String := "."
  exclude : List String := []
  strict : Bool := false
  sourceNumbers : Bool := true
  header : Bool := true
  goal : Goal := .full
  encoding : String := "utf-8"
  runtimeModule : String := "smop.libsmop"
  reserved : List String := []
  verbose : Bool := false
  deriving DecidableEq

namespace Options

/-- The settings for one source file. -/
def settingsFor (options : Options) (source : String) : Settings where
  strict := options.strict
  sourceName := if options.sourceNumbers then some source else none
  reserved := ReservedWords.standard.extend options.reserved

end Options

/-- Why a command line does not start a batch. -/
inductive UsageError where
  | unknownArgument
  | invalidValue
  | argumentConflict
  | tooManyValues
  | displayHelp
  | displayVersion
  deriving DecidableEq, Repr

/-- The status that the program ends with. -/
def UsageError.exitCode : UsageError → Nat
  | .displayHelp | .displayVersion => 0
  | _ => 2

namespace CommandLine

/-- The options without a value. -/
inductive Switch where
  | strict
  | noNumbers
  | noHeader
  | noResolve
  | noBackend
  | verbose
  | help
  | version
  deriving DecidableEq, Repr

/-- The options with a value. -/
inductive Setting where
  | output
  | outputDirectory
  | exclude
  | encoding
  | runtimeModule
  | reserved
  deriving DecidableEq, Repr

/-- An option. -/
inductive Flag where
  | switch (switch : Switch)
  | setting (setting : Setting)
  deriving DecidableEq, Repr

def Flag.ofLong? : String → Option Flag
  | "output" => some (.setting .output)
  | "output-directory" => some (.setting .outputDirectory)
  | "exclude" => some (.setting .exclude)
  | "encoding" => some (.setting .encoding)
  | "runtime-module" => some (.setting .runtimeModule)
  | "reserved" => some (.setting .reserved)
  | "strict" => some (.switch .strict)
  | "no-numbers" => some (.switch .noNumbers)
  | "no-header" => some (.switch .noHeader)
  | "no-resolve" => some (.switch .noResolve)
  | "no-backend" => some (.switch .noBackend)
  | "verbose" => some (.switch .verbose)
  | "help" => some (.switch .help)
  | "version" => some (.switch .version)
  | _ => none

def Flag.ofShort? : Char → Option Flag
  | 'o' => some (.setting .output)
  | 'd' => some (.setting .outputDirectory)
  | 'x' => some (.setting .exclude)
  | 'e' => some (.setting .encoding)
  | 'S' => some (.switch .strict)
  | 'N' => some (.switch .noNumbers)
  | 'H' => some (.switch .noHeader)
  | 'R' => some (.switch .noResolve)
  | 'B' => some (.switch .noBackend)
  | 'v' => some (.switch .verbose)
  | 'h' => some (.switch .help)
  | 'V' => some (.switch .version)
  | _ => none

/-- May the option be given several times? Its values are then separated by commas as well. -/
def Setting.isList : Setting → Bool
  | .exclude | .reserved => true
  | _ => false

/-- Does the option name a file, whose name cannot be empty? -/
def Setting.isPath : Setting → Bool
  | .outputDirectory => true
  | _ => false

/-- Arguments that were read but not yet checked. -/
inductive Waiting where
  | nothing
  /-- An option and its value, if it has come. -/
  | setting (setting : Setting) (value : Option String)
  /-- A run of file names. -/
  | files (names : List String)

/-- What has been read so far. -/
structure Reading where
  files : List String
  switches : List Switch
  settings : List (Setting × List String)
  waiting : Waiting
  /-- Are all further arguments file names? -/
  onlyFiles : Bool

namespace Reading

def start : Reading := ⟨[], [], [], .nothing, false⟩

/-- Take the value of an option. -/
def takeSetting (reading : Reading) (setting : Setting) (value : String) : Except UsageError Reading :=
  if setting.isList then
    .ok { reading with settings := reading.settings ++ [(setting, Text.parts ',' value)] }
  else if reading.settings.any (·.1 = setting) then .error .argumentConflict
  else if setting.isPath && value.isEmpty then .error .invalidValue
  else .ok { reading with settings := reading.settings ++ [(setting, [value])] }

/-- Check what is waiting. -/
def settle (reading : Reading) : Except UsageError Reading :=
  let settled := { reading with waiting := .nothing }
  match reading.waiting with
  | .nothing => .ok settled
  | .setting _ none => .error .invalidValue
  | .setting setting (some value) => settled.takeSetting setting value
  | .files names =>
    if names.any String.isEmpty then .error .invalidValue
    else .ok { settled with files := settled.files ++ names }

/-- Take an option without a value. -/
def takeSwitch (reading : Reading) (switch : Switch) : Except UsageError Reading := do
  let reading ← reading.settle
  match switch with
  | .help => .error .displayHelp
  | .version => .error .displayVersion
  | switch =>
    if switch ∈ reading.switches then .error .argumentConflict
    else .ok { reading with switches := reading.switches ++ [switch] }

/-- Take an option with a value, which is attached to it or follows it. -/
def openSetting (reading : Reading) (setting : Setting) (attached : Option String) :
    Except UsageError Reading := do
  let reading ← reading.settle
  match attached with
  | some value => reading.takeSetting setting value
  | none => .ok { reading with waiting := .setting setting none }

/-- Read a long option, without its dashes. -/
def takeLong (reading : Reading) (body : List Char) : Except UsageError Reading :=
  let name := String.ofList (body.takeWhile (· ≠ '='))
  let attached := match body.dropWhile (· ≠ '=') with
    | [] => none
    | _ :: value => some (String.ofList value)
  match Flag.ofLong? name with
  | none => .error .unknownArgument
  | some (.setting setting) => reading.openSetting setting attached
  | some (.switch switch) =>
    if attached.isSome then .error .tooManyValues else reading.takeSwitch switch

/-- Read a cluster of short options, without its dash. An option with a value takes the rest. -/
def takeShort (reading : Reading) : List Char → Except UsageError Reading
  | [] => .ok reading
  | c :: rest =>
    match Flag.ofShort? c with
    | none => .error .unknownArgument
    | some (.switch switch) => do
      let reading ← reading.takeSwitch switch
      reading.takeShort rest
    | some (.setting setting) =>
      reading.openSetting setting (match rest with
        | [] => none
        | '=' :: value => some (String.ofList value)
        | value => some (String.ofList value))

/-- Read a file name. -/
def takeFile (reading : Reading) (name : String) : Except UsageError Reading :=
  match reading.waiting with
  | .files names => .ok { reading with waiting := .files (names ++ [name]) }
  | _ => do
    let reading ← reading.settle
    .ok { reading with waiting := .files [name] }

/-- Read an argument that is no option: the value of the option before it, or a file name. -/
def takeValue (reading : Reading) (value : String) : Except UsageError Reading :=
  match reading.waiting with
  | .setting setting none => .ok { reading with waiting := .setting setting (some value) }
  | _ => reading.takeFile value

/-- Read one argument. -/
def take (reading : Reading) (argument : String) : Except UsageError Reading :=
  if reading.onlyFiles then reading.takeFile argument
  else match argument.toList with
    | ['-', '-'] => .ok { reading with onlyFiles := true }
    | '-' :: '-' :: body => reading.takeLong body
    | ['-'] => reading.takeValue argument
    | '-' :: body => reading.takeShort body
    | _ => reading.takeValue argument

def has (reading : Reading) (switch : Switch) : Bool :=
  reading.switches.contains switch

/-- All values of an option. -/
def values (reading : Reading) (setting : Setting) : List String :=
  (reading.settings.filter (·.1 = setting)).flatMap Prod.snd

def value? (reading : Reading) (setting : Setting) : Option String :=
  (reading.values setting).head?

/-- The options that the arguments add up to. -/
def options (reading : Reading) : Options :=
  { output := reading.value? .output
    outputDirectory := (reading.value? .outputDirectory).getD "."
    exclude := reading.values .exclude
    strict := reading.has .strict
    sourceNumbers := !reading.has .noNumbers
    header := !reading.has .noHeader
    goal := if reading.has .noBackend then .resolveOnly
      else if reading.has .noResolve then .unresolved else .full
    encoding := (reading.value? .encoding).getD "utf-8"
    runtimeModule := (reading.value? .runtimeModule).getD "smop.libsmop"
    reserved := reading.values .reserved
    verbose := reading.has .verbose }

end Reading

/-- Read all arguments: the file names and the options. -/
def parse (arguments : List String) : Except UsageError (List String × Options) := do
  let reading ← arguments.foldlM Reading.take Reading.start
  let reading ← reading.settle
  if reading.has .noResolve && reading.has .noBackend then .error .argumentConflict
  else .ok (reading.files, reading.options)

end CommandLine
end ArrayLift
