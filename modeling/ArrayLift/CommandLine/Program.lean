import ArrayLift.CommandLine.Batch

/-! The whole program behind the command line. -/
namespace ArrayLift.CommandLine

/-- What the program says when it is asked for its version. -/
def versionText : String := "mlpy " ++ version ++ "\n"

/-- What the program says when it is asked for help. -/
def helpText : String :=
  "Compile MATLAB/Octave programs to Python\n\n"
    ++ "Usage: mlpy [OPTIONS] [FILES]...\n\n"
    ++ "Arguments:\n"
    ++ "  [FILES]...  JSON-encoded programs to translate (`foo.m.json` becomes `foo.py`)\n\n"
    ++ "Options:\n"
    ++ "  -o, --output <FILE>             Write all translations to one file ('-' for stdout)\n"
    ++ "  -d, --output-directory <DIR>    Directory for per-file outputs [default: .]\n"
    ++ "  -x, --exclude <NAMES>           Comma-separated file names to skip\n"
    ++ "  -S, --strict                    Make resolution diagnostics fatal and stop at the first failing file\n"
    ++ "  -N, --no-numbers                Do not append `# file:line` comments to assignments\n"
    ++ "  -H, --no-header                 Do not write the prologue\n"
    ++ "  -R, --no-resolve                Skip resolution; ambiguous accesses become calls\n"
    ++ "  -B, --no-backend                Resolve and report diagnostics only, write nothing\n"
    ++ "  -e, --encoding <NAME>           Encoding named in the prologue [default: utf-8]\n"
    ++ "      --runtime-module <MODULE>   Runtime module imported by the prologue [default: smop.libsmop]\n"
    ++ "      --reserved <WORDS>          Extra reserved words (comma separated)\n"
    ++ "  -v, --verbose                   Print progress for every file\n"
    ++ "  -h, --help                      Print help\n"
    ++ "  -V, --version                   Print version\n"

/-- What the program says about a mistake in its arguments. -/
def mistakeText : UsageError → String
  | .unknownArgument => "error: unexpected argument found\n"
  | .invalidValue => "error: a value is required for an argument but none was supplied\n"
  | .argumentConflict => "error: an argument cannot be used with another or a second time\n"
  | .tooManyValues => "error: unexpected value for an argument that takes none\n"
  | .displayHelp => helpText
  | .displayVersion => versionText

/-- What the program says when no file is named. -/
def noFilesText : String := "Error: no input files (see --help)"

/-- Run the program with its arguments; the result is the status it ends with. -/
def run {m : Type → Type} [Monad m] (host : Host m) (arguments : List String) : m Nat := do
  match parse arguments with
  | .error error =>
    if error.exitCode = 0 then host.print (mistakeText error) else host.complain (mistakeText error)
    pure error.exitCode
  | .ok ([], _) =>
    host.complain (noFilesText ++ "\n")
    pure 1
  | .ok (paths, options) =>
    match ← Batch.run host options paths with
    | .ok status => pure status
    | .error message =>
      host.complain (message ++ "\n")
      pure 1

end ArrayLift.CommandLine
