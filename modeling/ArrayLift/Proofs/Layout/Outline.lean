import ArrayLift.Proofs.Layout.Offside
import ArrayLift.Proofs.Layout.Ownership

/-! The blocks of a program: every statement with what belongs to it, as Python nests them. -/
namespace ArrayLift
open Code

/-- The suite of a list of statements: what they are, or `pass` if they do nothing. -/
def Stmt.suite (statements : List Stmt) (blocks : List Block) : List Block :=
  if statements.all Stmt.isNoop then [.simple "pass"] else blocks

mutual
/-- The blocks of a statement whose functions own nothing behind them. A condition is opened by the given keyword. -/
def Stmt.outline (settings : Settings) : Stmt → (keyword : String) → Except Fault (List Block)
  | .expression _ value, _ => do
    let text ← exprText settings.reserved value
    pure [.simple text]
  | .assign line targets value, _ => do
    let text ← assignText settings.reserved line targets value
    pure [.simple (Line.content settings ⟨0, text, some line⟩)]
  | .branch _ condition thenBody elseBody, keyword => do
    let text ← exprText settings.reserved condition
    let thenBlocks ← Stmt.outlineList settings thenBody
    let opened := .compound (keyword ++ " " ++ text ++ ":") (Stmt.suite thenBody thenBlocks)
    match elseBody with
    | none => pure [opened]
    | some elseBody =>
      let separate (_ : Unit) : Except Fault (List Block) := do
        let elseBlocks ← Stmt.outlineList settings elseBody
        pure [.compound "else:" (Stmt.suite elseBody elseBlocks)]
      let others ← match elseBody with
        | [nested] => if isBranch nested then Stmt.outline settings nested "elif" else separate ()
        | _ => separate ()
      pure (opened :: others)
  | .forEach _ loopName columns body, _ => do
    let loopName ← identText settings.reserved loopName
    let columns ← Operand.grouped ⟨columns, exprText settings.reserved columns⟩
    let blocks ← Stmt.outlineList settings body
    pure [.compound ("for " ++ loopName ++ " in " ++ columns ++ "." ++ LibraryName.transposeAttribute ++ ":")
      (Stmt.suite body blocks)]
  | .whileLoop _ condition body, _ => do
    let text ← exprText settings.reserved condition
    let blocks ← Stmt.outlineList settings body
    pure [.compound ("while " ++ text ++ ":") (Stmt.suite body blocks)]
  | .attempt _ body handler finallyBody, _ => do
    let blocks ← Stmt.outlineList settings body
    let handled ← Handler.outline settings handler
    let last ← match handler, finallyBody with
      | _, some finallyBody => do
        let blocks ← Stmt.outlineList settings finallyBody
        pure [.compound "finally:" (Stmt.suite finallyBody blocks)]
      | .absent, none => pure [.compound "finally:" [.simple "pass"]]
      | .present .., none => pure []
    pure (.compound "try:" (Stmt.suite body blocks) :: handled ++ last)
  | .function _ name params body, _ => do
    let name ← identText settings.reserved name
    let params ← identTexts settings.reserved params
    let blocks ← Stmt.outlineList settings body
    let bindings := LibraryName.implicitBindings.map fun binding =>
      Block.simple (binding.spelling ++ " = " ++ name ++ "." ++ binding.spelling)
    pure [.simple ("@" ++ LibraryName.functionMark.spelling),
      .compound ("def " ++ name ++ "(" ++ String.intercalate "," (params ++ LibraryName.variadicTail) ++ "):")
        (bindings ++ Stmt.suite body blocks)]
  | .declare line _ names, _ => do
    if names.isEmpty then .error (.noNames line)
    else
      let names ← identTexts settings.reserved names
      pure [.simple ("global " ++ String.intercalate "," names)]
  | .return _ none, _ => pure [.simple "return"]
  | .return _ (some value), _ => do
    let text ← exprText settings.reserved value
    pure [.simple ("return " ++ text)]
  | .word _ .break, _ => pure [.simple "break"]
  | .word _ .continue, _ => pure [.simple "continue"]
  | .word _ .pass, _ => pure [.simple "pass"]
  | .word _ .nothing, _ => pure []
  | .comment .., _ => pure []

def Handler.outline (settings : Settings) : Handler → Except Fault (List Block)
  | .absent => pure []
  | .present none body => do
    let blocks ← Stmt.outlineList settings body
    pure [.compound "except Exception:" (Stmt.suite body blocks)]
  | .present (some name) body => do
    let name ← identText settings.reserved name
    let blocks ← Stmt.outlineList settings body
    pure [.compound ("except Exception as " ++ name ++ ":") (Stmt.suite body blocks)]

/-- The blocks of statements, one after the other. -/
def Stmt.outlineList (settings : Settings) : List Stmt → Except Fault (List Block)
  | [] => pure []
  | statement :: rest => do
    let blocks ← Stmt.outline settings statement "if"
    let others ← Stmt.outlineList settings rest
    pure (blocks ++ others)
end

/-- The blocks of a program: those of its statements, with what a function owns in its suite. -/
def Program.outline (settings : Settings) (program : Program) : Except Fault (List Block) := do
  let blocks ← Stmt.outlineList settings program.nested.statements
  pure (Stmt.suite program.nested.statements blocks)

end ArrayLift

namespace ArrayLift.Code
open Stmt

/-! The parts of an outline that are told apart by the shape of a statement. -/
section
attribute [local simp] outline
variable (settings : Settings)

/-- The blocks of what is done unless a condition holds. -/
def elseOutline (elseBody : List Stmt) : Except Fault (List Block) :=
  match loneBranch? elseBody with
  | some nested => nested.outline settings "elif"
  | none => do
    let blocks ← outlineList settings elseBody
    pure [.compound "else:" (suite elseBody blocks)]

theorem outline_then (line : SourceLine) (condition : Expr) (thenBody : List Stmt) (keyword : String) :
    (Stmt.branch line condition thenBody none).outline settings keyword = (do
      let text ← exprText settings.reserved condition
      let thenBlocks ← outlineList settings thenBody
      pure [.compound (keyword ++ " " ++ text ++ ":") (suite thenBody thenBlocks)]) := by
  simp

theorem outline_else (line : SourceLine) (condition : Expr) (thenBody elseBody : List Stmt) (keyword : String) :
    (Stmt.branch line condition thenBody (some elseBody)).outline settings keyword = (do
      let text ← exprText settings.reserved condition
      let thenBlocks ← outlineList settings thenBody
      let others ← elseOutline settings elseBody
      pure (.compound (keyword ++ " " ++ text ++ ":") (suite thenBody thenBlocks) :: others)) := by
  match elseBody with
  | [] | _ :: _ :: _ => simp [elseOutline, loneBranch?]
  | [only] => cases h : isBranch only <;> simp [elseOutline, loneBranch?, h]

/-- The blocks of what is done finally. -/
def finallyOutline (finallyBody : Option (List Stmt)) : Except Fault (List Block) :=
  match finallyBody with
  | some body => do
    let blocks ← outlineList settings body
    pure [.compound "finally:" (suite body blocks)]
  | none => pure []

theorem outline_attempt (line : SourceLine) (body : List Stmt) (handler : Handler) (finallyBody : Option (List Stmt))
    (keyword : String) :
    (Stmt.attempt line body handler finallyBody).outline settings keyword = (do
      let blocks ← outlineList settings body
      let handled ← handler.outline settings
      let last ← finallyOutline settings (finalBody? handler finallyBody)
      pure (.compound "try:" (suite body blocks) :: handled ++ last)) := by
  cases handler <;> cases finallyBody <;>
    simp [finallyOutline, finalBody?, outlineList, suite]

end

end ArrayLift.Code
