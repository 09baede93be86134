import ArrayLift.Code.Expression
import ArrayLift.Code.Comment
import ArrayLift.Code.Line

/-! Python lines of statements. A function without a body of its own owns the statements behind it,
which stand one level deeper until the next function; a list that does nothing holds `pass`. -/
namespace ArrayLift.Code

/-- Python lines, or why there are none. -/
abbrev Lines := Except Fault (List Line)

def lineAt (level : Nat) (text : String) : Line :=
  ⟨level, text, none⟩

/-- The statement that does nothing. -/
def passAt (level : Nat) : Line :=
  lineAt level "pass"

/-- The text of an assignment. The value comes first; a name assigned to a name is copied, and so
is a value that becomes a field. -/
def assignText (words : ReservedWords) (line : SourceLine) (targets : List Expr) (value : Expr) : Rendered := do
  let text ← exprText words value
  let copied := callOf .copy text
  match targets with
  | [] => .error (.noTarget line)
  | [.field _ object name] =>
    let object ← targetText words object
    pure (object ++ "." ++ fieldName words name ++ " = " ++ copied)
  | [.dynamicField _ object selector] =>
    let object ← targetText words object
    let selector ← exprText words selector
    pure (callOf .setAttribute (object ++ "," ++ selector ++ "," ++ text))
  | [target] =>
    let left ← targetText words target
    pure (left ++ "=" ++ (if target.ident?.isSome && value.ident?.isSome then copied else text))
  | targets =>
    let left ← targets.mapM (targetText words)
    pure (String.intercalate "," left ++ "=" ++ text)

/-- The lines that open a function. -/
def headerLines (words : ReservedWords) (name : Ident) (params : List Ident) (level : Nat) : Lines := do
  let name ← identText words name
  let params ← identTexts words params
  pure ([lineAt level ("@" ++ LibraryName.functionMark.spelling),
      lineAt level ("def " ++ name ++ "("
        ++ String.intercalate "," (params ++ LibraryName.variadicTail) ++ "):")]
    ++ LibraryName.implicitBindings.map fun binding =>
      lineAt (level + 1) (binding.spelling ++ " = " ++ name ++ "." ++ binding.spelling))

/-- Close a list of statements: one that does nothing ends with `pass`. -/
def closed (statements : List Stmt) (level : Nat) (lines : List Line) : List Line :=
  if statements.all Stmt.isNoop then lines ++ [passAt level] else lines

def isBranch : Stmt → Bool
  | .branch .. => true
  | _ => false

mutual
/-- The lines of one statement. A condition is opened by the given keyword. -/
def stmtLines (words : ReservedWords) : Stmt → (level : Nat) → (keyword : String) → Lines
  | .expression _ value, level, _ => do
    let text ← exprText words value
    pure [lineAt level text]
  | .assign line targets value, level, _ => do
    let text ← assignText words line targets value
    pure [⟨level, text, some line⟩]
  | .branch _ condition thenBody elseBody, level, keyword => do
    let text ← exprText words condition
    let thenLines ← sectionLines words thenBody (level + 1) (level + 1) false
    let opened := lineAt level (keyword ++ " " ++ text ++ ":") :: closed thenBody (level + 1) thenLines
    match elseBody with
    | none => pure opened
    | some elseBody =>
      let separate (_ : Unit) : Lines := do
        let elseLines ← sectionLines words elseBody (level + 1) (level + 1) false
        pure (lineAt level "else:" :: closed elseBody (level + 1) elseLines)
      let elseLines ← match elseBody with
        | [nested] => if isBranch nested then stmtLines words nested level "elif" else separate ()
        | _ => separate ()
      pure (opened ++ elseLines)
  | .forEach _ loopName columns body, level, _ => do
    let loopName ← identText words loopName
    let columns ← Operand.grouped ⟨columns, exprText words columns⟩
    let lines ← sectionLines words body (level + 1) (level + 1) false
    pure (lineAt level ("for " ++ loopName ++ " in " ++ columns ++ "." ++ LibraryName.transposeAttribute ++ ":")
      :: closed body (level + 1) lines)
  | .whileLoop _ condition body, level, _ => do
    let text ← exprText words condition
    let lines ← sectionLines words body (level + 1) (level + 1) false
    pure (lineAt level ("while " ++ text ++ ":") :: closed body (level + 1) lines)
  | .attempt _ body handler finallyBody, level, _ => do
    let lines ← sectionLines words body (level + 1) (level + 1) false
    let handlerLines ← handlerLines words handler level
    let finallyLines ← match handler, finallyBody with
      | _, some finallyBody => do
        let lines ← sectionLines words finallyBody (level + 1) (level + 1) false
        pure (lineAt level "finally:" :: closed finallyBody (level + 1) lines)
      | .absent, none => pure [lineAt level "finally:", passAt (level + 1)]
      | .present .., none => pure []
    pure (lineAt level "try:" :: closed body (level + 1) lines ++ handlerLines ++ finallyLines)
  | .function _ name params body, level, _ => do
    let header ← headerLines words name params level
    let lines ← sectionLines words body (level + 1) (level + 1) false
    pure (header ++ (if body.isEmpty then [] else closed body (level + 1) lines))
  | .declare line _ names, level, _ => do
    if names.isEmpty then .error (.noNames line)
    else
      let names ← identTexts words names
      pure [lineAt level ("global " ++ String.intercalate "," names)]
  | .return _ none, level, _ => pure [lineAt level "return"]
  | .return _ (some value), level, _ => do
    let text ← exprText words value
    pure [lineAt level ("return " ++ text)]
  | .word _ .break, level, _ => pure [lineAt level "break"]
  | .word _ .continue, level, _ => pure [lineAt level "continue"]
  | .word _ .pass, level, _ => pure [passAt level]
  | .word _ .nothing, _, _ => pure [Line.blank]
  | .comment _ text, level, _ => pure [lineAt level (Comment.line text)]

/-- The lines that take an error up. -/
def handlerLines (words : ReservedWords) : Handler → (level : Nat) → Lines
  | .absent, _ => pure []
  | .present name body, level => do
    let header ← match name with
      | some name => do
        let name ← identText words name
        pure ("except Exception as " ++ name ++ ":")
      | none => pure "except Exception:"
    let lines ← sectionLines words body (level + 1) (level + 1) false
    pure (lineAt level header :: closed body (level + 1) lines)

/-- The lines of the statements of a list at a level. The level of the next statement is one deeper
behind a function without a body of its own; `idle` tells that such a function has had no
statement yet that does something. -/
def sectionLines (words : ReservedWords) :
    List Stmt → (level current : Nat) → (idle : Bool) → Lines
  | [], level, _, idle => pure (if idle then [passAt (level + 1)] else [])
  | statement :: rest, level, current, idle =>
    if statement.isFunction then do
      let lines ← stmtLines words statement level "if"
      let flat := statement.isFlatFunction
      let restLines ← sectionLines words rest level (if flat then level + 1 else level) flat
      pure ((if idle then [passAt (level + 1)] else []) ++ lines ++ restLines)
    else do
      let lines ← stmtLines words statement current "if"
      let restLines ← sectionLines words rest level current (idle && statement.isNoop)
      pure (lines ++ restLines)
end

/-- The lines of a list of statements. -/
def blockLines (words : ReservedWords) (statements : List Stmt) (level : Nat) : Lines := do
  let lines ← sectionLines words statements level level false
  pure (closed statements level lines)

/-- The lines of a program. -/
def programLines (words : ReservedWords) (program : Program) : Lines :=
  blockLines words program.statements 0

/-- The Python text of a program. -/
def generate (settings : Settings) (program : Program) : Rendered := do
  let lines ← programLines settings.reserved program
  pure (Line.layout settings lines)

end ArrayLift.Code
