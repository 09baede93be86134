import ArrayLift.Text.Split

/-! File names in paths: the last component, its stem and its extension, and the names that the
command line derives from them. -/
namespace ArrayLift.Path

/-- The components of a path; empty ones and those that stay in place do not count. -/
def components (path : String) : List String :=
  (Text.parts '/' path).filter fun part => part ≠ "" && part ≠ "."

/-- The last component, unless it leads upward. -/
def fileName? (path : String) : Option String :=
  match (components path).getLast? with
  | some name => if name = ".." then none else some name
  | none => none

/-- Cut a name at its last point. A name without one, or with none but its first character, is
not cut. -/
def cutExtension (name : String) : String × Option String :=
  let reversed := name.toList.reverse
  let extension := reversed.takeWhile (· ≠ '.')
  match reversed.drop extension.length with
  | _ :: c :: stem => (String.ofList (c :: stem).reverse, some (String.ofList extension.reverse))
  | _ => (name, none)

/-- The file name without its extension. -/
def stem? (path : String) : Option String :=
  (fileName? path).map fun name => (cutExtension name).1

def extension? (path : String) : Option String :=
  (fileName? path).bind fun name => (cutExtension name).2

/-- The text without an ending, if it has it. -/
def withoutEnding (ending text : String) : String :=
  if ending.toList.isSuffixOf text.toList then
    String.ofList (text.toList.take (text.toList.length - ending.toList.length))
  else text

/-- The extension of input files. -/
def inputExtension : String := "json"

/-- The source file that an input stands for: `dir/solver.m.json` stands for `solver.m`. -/
def sourceName (path : String) : String :=
  withoutEnding ".json" ((fileName? path).getD "")

/-- The Python file for a source file: `solver.m` gives `solver.py`. -/
def outputName (source : String) : String :=
  (stem? source).getD source ++ ".py"

/-- What happens to a file that the command line names. -/
inductive Selection where
  | compile
  /-- Its extension is not that of inputs. -/
  | ignored
  /-- The command line leaves it out by name. -/
  | excluded
  deriving DecidableEq, Repr

/-- Select a file. An exclusion names the file, the source file or the stem of the source file. -/
def select (path : String) (exclude : List String) : Selection :=
  if extension? path = some inputExtension then
    let names := [(fileName? path).getD "", sourceName path, (stem? (sourceName path)).getD ""]
    if exclude.any names.contains then .excluded else .compile
  else .ignored

/-- The path of a file in a directory. -/
def join (directory name : String) : String :=
  if name.toList.head? = some '/' then name
  else if directory = "" || directory.toList.getLast? = some '/' then directory ++ name
  else directory ++ "/" ++ name

end ArrayLift.Path
