import ArrayLift.Text.Split
import ArrayLift.Vocabulary.LibraryName

/-! What stands at the head of a generated file: its encoding, the import of the array library, the
source file, and the workspace that loaded variables go into. -/
namespace ArrayLift

/-- The version of the compiler. -/
def version : String := "0.1.0"

/-- The package that a library module belongs to. -/
def packageOf (module : String) : String :=
  (Text.parts '.' module).headD module

/-- The head of a generated file. -/
def prologue (encoding runtimeModule source : String) : String :=
  "# -*- encoding: " ++ encoding ++ " -*-\n"
    ++ "# Generated with mlpy " ++ version ++ "\n"
    ++ "try:\n    from " ++ runtimeModule ++ " import *\n"
    ++ "except ImportError:\n"
    ++ "    raise ImportError('File compiled with `mlpy`, please install `" ++ packageOf runtimeModule
    ++ "` to run it.') from None\n"
    ++ "# " ++ source ++ "\n"
    ++ "\n"
    ++ "# simulate matlab workspace\n"
    ++ LibraryName.workspace.spelling ++ " = locals()\n"
    ++ "\n"

end ArrayLift
