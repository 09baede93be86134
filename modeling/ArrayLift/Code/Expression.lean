import ArrayLift.Code.Fault
import ArrayLift.Vocabulary.Operator
import ArrayLift.Vocabulary.LibraryName
import ArrayLift.Vocabulary.ReservedWords
import ArrayLift.Text.Quoted

/-! Python text of expressions. Every expression is one piece of text or the fault of its first
malformed node. The text of an operation is composed from the texts of its operands. -/
namespace ArrayLift.Code

/-- Python text, or why there is none. -/
abbrev Rendered := Except Fault String

/-- An expression together with its text. -/
structure Operand where
  expr : Expr
  text : Rendered

/-- Can an attribute or an operator follow the text of the expression without parentheses? -/
def isAtomic : Expr → Bool
  | .ident .. | .field .. | .dynamicField .. | .index .. | .rows _ .cell _ => true
  | .rows _ .matrix rows => !rows.any (·.any Expr.isTextLiteral)
  | .operation _ spelling operands _ =>
    match Operator.ofSpelling? spelling with
    | some .parens | some .lastIndex | some .not | some .elementAnd | some .elementOr
    | some .leftDivide | some .transpose => true
    | some .colon => !operands.isEmpty
    | _ => false
  | .literal .. | .lambda .. => false

namespace Operand

/-- The text in parentheses unless the expression is atomic. -/
def grouped (operand : Operand) : Rendered := do
  let text ← operand.text
  pure (if isAtomic operand.expr then text else "(" ++ text ++ ")")

/-- The texts one after the other, with a separator between them. -/
def joined (separator : String) (operands : List Operand) : Rendered := do
  let texts ← operands.mapM Operand.text
  pure (String.intercalate separator texts)

/-- The texts of arguments. -/
def listed (operands : List Operand) : Rendered :=
  joined "," operands

/-- Rows of elements in brackets. -/
def bracketed (rows : List (List Operand)) : Rendered := do
  let rows ← rows.mapM fun row => do
    let text ← listed row
    pure ("[" ++ text ++ "]")
  pure (String.intercalate "," rows)

end Operand

/-- A call of a library name. -/
def callOf (name : LibraryName) (arguments : String) : String :=
  name.spelling ++ "(" ++ arguments ++ ")"

/-- The sum of two number literals, if it is finite. -/
def foldedSum? : Expr → Expr → Option Number
  | .literal _ (.number left), .literal _ (.number right) =>
    let sum := left.add right
    if sum.toFloat.isFinite then some sum else none
  | _, _ => none

/-- An operator without a form of its own: its Python spelling beside or between its operands, and
a call of its spelling from three operands on. -/
def composePlain (spelling : String) (operands : List Operand) (result : Option Rendered) : Rendered := do
  let symbol := Operator.respell spelling
  match operands with
  | [] => pure symbol
  | [only] =>
    if (Operator.ofSpelling? spelling).map Operator.fixity = some .after then
      let text ← only.grouped
      pure (text ++ symbol)
    else
      let text ← only.text
      pure (symbol ++ " " ++ text)
  | [left, right] =>
    let left ← left.text
    let right ← right.text
    pure (left ++ " " ++ symbol ++ " " ++ right)
  | operands =>
    let binding ← match result with
      | some name => do
        let name ← name
        pure (name ++ "=")
      | none => pure ""
    let arguments ← Operand.listed operands
    pure (binding ++ spelling ++ "(" ++ arguments ++ ")")

/-- A range of indices; a step in the middle moves to the end. -/
def composeRange (line : SourceLine) : List Operand → Rendered
  | [] => pure Operator.colon.canonical
  | [start, stop] => do
    let start ← start.text
    let stop ← stop.text
    pure (start ++ Operator.colon.canonical ++ stop)
  | [start, step, stop] => do
    let start ← start.text
    let stop ← stop.text
    let step ← step.text
    pure (start ++ Operator.colon.canonical ++ stop ++ Operator.colon.canonical ++ step)
  | operands => .error (.range line operands.length)

/-- The text of an operation from those of its operands. -/
def compose (line : SourceLine) (spelling : String) (operands : List Operand)
    (result : Option Rendered) : Rendered :=
  let malformed (expected : Nat) : Rendered := .error (.operands line spelling expected operands.length)
  let called (name : LibraryName) (left right : Operand) : Rendered := do
    let left ← left.text
    let right ← right.text
    pure (callOf name (left ++ "," ++ right))
  let between (operator : Operator) (left right : Operand) : Rendered := do
    let left ← left.text
    let right ← right.text
    pure (left ++ " " ++ operator.target ++ " " ++ right)
  match Operator.ofSpelling? spelling with
  | some .not =>
    match operands with
    | [only] => do
      let text ← only.text
      pure (callOf .logicalNot text)
    | _ => malformed 1
  | some .elementAnd =>
    match operands with
    | [left, right] => called .logicalAnd left right
    | _ => malformed 2
  | some .elementOr =>
    match operands with
    | [left, right] => called .logicalOr left right
    | _ => malformed 2
  | some .leftDivide =>
    match operands with
    | [left, right] => called .linearSolve left right
    | _ => malformed 2
  | some .shortAnd =>
    match operands with
    | [left, right] => between .shortAnd left right
    | _ => malformed 2
  | some .shortOr =>
    match operands with
    | [left, right] => between .shortOr left right
    | _ => malformed 2
  | some .elementLeftDivide =>
    match operands with
    | [left, right] => do
      let right ← right.grouped
      let left ← left.grouped
      pure (right ++ " " ++ Operator.elementLeftDivide.target ++ " " ++ left)
    | _ => malformed 2
  | some .handle =>
    match operands with
    | [only] => only.text
    | _ => malformed 1
  | some .transpose =>
    match operands with
    | [only] => do
      let text ← only.grouped
      pure (text ++ "." ++ LibraryName.transposeAttribute)
    | _ => malformed 1
  | some .parens =>
    match operands with
    | [only] => do
      let text ← only.text
      pure ("(" ++ text ++ ")")
    | _ => malformed 1
  | some .lastIndex =>
    match operands with
    | [] => pure (callOf .endMarker "")
    | _ => malformed 0
  | some .range => composeRange line operands
  | some .colon =>
    match operands with
    | [] => pure Operator.colon.canonical
    | operands => do
      let arguments ← Operand.listed operands
      pure (callOf .indexRange arguments)
  | some .plus =>
    match operands with
    | [left, right] =>
      match foldedSum? left.expr right.expr with
      | some sum => pure sum.toText
      | none => do
        let left ← left.text
        let right ← right.text
        pure ("(" ++ left ++ "+" ++ right ++ ")")
    | _ => composePlain spelling operands result
  | some .minus =>
    match operands with
    | [left, right] => do
      let left ← left.text
      let right ← right.text
      pure ("(" ++ left ++ "-" ++ right ++ ")")
    | _ => composePlain spelling operands result
  | _ => composePlain spelling operands result

/-- An index behind the text of its target; an empty one selects everything. -/
def subscript (target : Rendered) (arguments : List Operand) : Rendered := do
  let target ← target
  match arguments with
  | [] => pure (target ++ "[" ++ Operator.colon.canonical ++ "]")
  | arguments =>
    let arguments ← Operand.listed arguments
    pure (target ++ "[" ++ arguments ++ "]")

/-- Does a call of the expression fill the workspace? -/
def loadsWorkspace (target : Expr) : Bool :=
  match target.ident? with
  | some ident => LibraryName.isWorkspaceLoader ident.name
  | none => false

/-- A call that asks for a count of results; it tells the count if that is more than one. -/
def composeCall (target : Operand) (arguments : List Operand) (results : Nat) : Rendered := do
  let callee ← target.text
  let arguments ← Operand.listed arguments
  let request := LibraryName.nargout.spelling ++ "=" ++ toString results
  let call :=
    if results ≤ 1 then callee ++ "(" ++ arguments ++ ")"
    else if arguments.isEmpty then callee ++ "(" ++ request ++ ")"
    else callee ++ "(" ++ arguments ++ "," ++ request ++ ")"
  pure (if loadsWorkspace target.expr then
      LibraryName.workspace.spelling ++ "." ++ LibraryName.workspaceMerge ++ "(" ++ call ++ ")"
    else call)

/-- An indexed expression in value position; parentheses that nothing has decided call. -/
def composeIndex (form : IndexForm) (target : Operand) (arguments : List Operand) : Rendered :=
  match form with
  | .apply => composeCall target arguments 1
  | .call results => composeCall target arguments results
  | .arrayRef | .cellRef => subscript target.text arguments

/-- Rows of elements; a matrix that holds a text literal is a concatenation of texts. -/
def composeRows (brackets : Brackets) (rows : List (List Operand)) : Rendered :=
  match brackets with
  | .cell => do
    let rows ← Operand.bracketed rows
    pure (callOf .cellArray ("[" ++ rows ++ "]"))
  | .matrix =>
    if rows.all List.isEmpty then pure (callOf .emptyArray "")
    else if rows.any (·.any fun element => element.expr.isTextLiteral) then
      Operand.joined " + " rows.flatten
    else do
      let rows ← Operand.bracketed rows
      pure (callOf .concat ("[" ++ rows ++ "]"))

def literalText : Literal → String
  | .number value => value.toText
  | .text value => Text.Quoted.literal value
  | .logical true => LibraryName.trueConstant.spelling
  | .logical false => LibraryName.falseConstant.spelling

/-- A field name; a reserved one is suffixed like an identifier. -/
def fieldName (words : ReservedWords) (name : String) : String :=
  ReservedWords.pythonName name (words.contains name)

mutual
/-- The text of an identifier with its default value. -/
def identText (words : ReservedWords) : Ident → Rendered
  | .mk name none _ reserved _ => pure (ReservedWords.pythonName name (reserved || words.contains name))
  | .mk name (some init) _ reserved _ => do
    let init ← exprText words init
    pure (ReservedWords.pythonName name (reserved || words.contains name) ++ "=" ++ init)

/-- The text of an expression in value position. -/
def exprText (words : ReservedWords) : Expr → Rendered
  | .ident _ named => identText words named
  | .literal _ value => pure (literalText value)
  | .operation line spelling operands none => compose line spelling (operandsOf words operands) none
  | .operation line spelling operands (some result) =>
    compose line spelling (operandsOf words operands) (some (identText words result))
  | .field _ object name => do
    let object ← exprText words object
    pure (object ++ "." ++ fieldName words name)
  | .dynamicField _ object selector => do
    let object ← exprText words object
    let selector ← exprText words selector
    pure (callOf .getAttribute (object ++ "," ++ selector))
  | .index _ form target arguments =>
    composeIndex form ⟨target, exprText words target⟩ (operandsOf words arguments)
  | .rows _ brackets rows => composeRows brackets (rowsOf words rows)
  | .lambda _ params body => do
    let params ← identTexts words params
    let body ← exprText words body
    pure ("lambda " ++ String.intercalate "," params ++ ": " ++ body)

/-- Expressions with their texts. -/
def operandsOf (words : ReservedWords) : List Expr → List Operand
  | [] => []
  | expr :: rest => ⟨expr, exprText words expr⟩ :: operandsOf words rest

def rowsOf (words : ReservedWords) : List (List Expr) → List (List Operand)
  | [] => []
  | row :: rest => operandsOf words row :: rowsOf words rest

def identTexts (words : ReservedWords) : List Ident → Except Fault (List String)
  | [] => pure []
  | ident :: rest => do
    let text ← identText words ident
    let rest ← identTexts words rest
    pure (text :: rest)
end

/-- The text of an assignment target: everything indexed on the way to its root is a subscript. -/
def targetText (words : ReservedWords) : Expr → Rendered
  | .index _ _ target arguments => subscript (targetText words target) (operandsOf words arguments)
  | .field _ object name => do
    let object ← targetText words object
    pure (object ++ "." ++ fieldName words name)
  | target => exprText words target

end ArrayLift.Code
