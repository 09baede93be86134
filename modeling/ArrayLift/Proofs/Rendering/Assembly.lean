import Mathlib.Data.List.Basic
import ArrayLift.Code.Statement

/-! What the text of an operation is made of. An operation on a number of operands that its operator does not take is a
fault. A sum of two number literals may be folded. Every other operation is put together from the texts of its operands,
in an order and in a way that depend on the operator and the number of operands alone. -/
namespace ArrayLift

namespace Operator

/-- How many operands an operator takes, if it takes no other number of them. -/
def arity? : Operator → Option Nat
  | .lastIndex => some 0
  | .not | .handle | .transpose | .parens => some 1
  | .elementAnd | .elementOr | .leftDivide | .elementLeftDivide | .shortAnd | .shortOr => some 2
  | _ => none

/-- Is the operator written in a form of its own, however many operands it has? -/
def hasForm (operator : Operator) : Bool :=
  operator.arity?.isSome || operator = .range || operator = .colon

/-- Are the operands put in parentheses where the text around them would take them apart? -/
def groups : Operator → Bool
  | .elementLeftDivide | .transpose => true
  | _ => false

end Operator

namespace Code

/-- Does the text of an operation on so many operands name its result? Only a call of the spelling does. -/
def writesResult (spelling : String) (count : Nat) : Bool :=
  !(Operator.ofSpelling? spelling).any Operator.hasForm && 3 ≤ count

/-- The operands of an operation in the order in which they are rendered. -/
def arranged {α : Type} (spelling : String) (operands : List α) : List α :=
  match Operator.ofSpelling? spelling, operands with
  | some .elementLeftDivide, [left, right] => [right, left]
  | some .range, [start, step, stop] => [start, stop, step]
  | _, operands => operands

theorem mem_of_mem_arranged {α : Type} {spelling : String} {operands : List α} {operand : α}
    (member : operand ∈ arranged spelling operands) : operand ∈ operands := by
  unfold arranged at member
  split at member <;> grind

theorem arranged_map {α β : Type} (f : α → β) (spelling : String) (operands : List α) :
    arranged spelling (operands.map f) = (arranged spelling operands).map f := by
  unfold arranged
  cases Operator.ofSpelling? spelling with
  | none => rfl
  | some operator =>
    match operands with
    | [] | [_] | [_, _] | [_, _, _] | _ :: _ :: _ :: _ :: _ => cases operator <;> rfl

/-- Why an operation on so many operands has no text. -/
def countFault? (line : SourceLine) (spelling : String) (count : Nat) : Option Fault :=
  match Operator.ofSpelling? spelling with
  | some .range => if count = 0 ∨ count = 2 ∨ count = 3 then none else some (.range line count)
  | some operator => operator.arity?.bind fun expected =>
      if count = expected then none else some (.operands line spelling expected count)
  | none => none

/-- The sum that an operation is folded to. -/
def folded? (spelling : String) (operands : List Operand) : Option Number :=
  match Operator.ofSpelling? spelling, operands with
  | some .plus, [left, right] => foldedSum? left.expr right.expr
  | _, _ => none

/-- Only a sum of two literals is folded. -/
theorem of_folded? {spelling : String} {operands : List Operand} {sum : Number}
    (folded : folded? spelling operands = some sum) :
    Operator.ofSpelling? spelling = some .plus ∧ operands.length = 2 ∧
      ∀ operand ∈ operands, ∃ line value, operand.expr = .literal line value := by
  unfold folded? at folded
  split at folded
  case h_1 left right plus =>
    unfold foldedSum? at folded
    split at folded
    case h_1 first second => exact ⟨plus, rfl, by simp [first, second]⟩
    case h_2 => cases folded
  case h_2 => cases folded

/-- What stands before an operation that names its result. -/
def bindingText (spelling : String) (count : Nat) (result : Option Rendered) : Rendered :=
  match result with
  | some name => if writesResult spelling count then (do
      let name ← name
      pure (name ++ "=")) else pure ""
  | none => pure ""

theorem bindingText_of_not_writesResult {spelling : String} {count : Nat}
    (unwritten : writesResult spelling count = false) (result : Option Rendered) :
    bindingText spelling count result = pure "" := by
  cases result <;> simp [bindingText, unwritten]

/-- The text of an operand where it stands in an operation. -/
def Operand.placed (spelling : String) (operand : Operand) : Rendered :=
  if (Operator.ofSpelling? spelling).any Operator.groups then operand.grouped else operand.text

/-- A symbol before its operand or between its operands, and a call of it from three operands on. -/
def beside (spelling : String) (texts : List String) : String :=
  match texts with
  | [] => Operator.respell spelling
  | [only] => Operator.respell spelling ++ " " ++ only
  | [left, right] => left ++ " " ++ Operator.respell spelling ++ " " ++ right
  | texts => spelling ++ "(" ++ String.intercalate "," texts ++ ")"

/-- The text of an operation without its binding, from the texts of its operands in the order of rendering. -/
def assembled (spelling : String) (texts : List String) : String :=
  match Operator.ofSpelling? spelling, texts with
  | some .not, [only] => callOf .logicalNot only
  | some .elementAnd, [left, right] => callOf .logicalAnd (left ++ "," ++ right)
  | some .elementOr, [left, right] => callOf .logicalOr (left ++ "," ++ right)
  | some .leftDivide, [left, right] => callOf .linearSolve (left ++ "," ++ right)
  | some .handle, [only] => only
  | some .transpose, [only] => only ++ "." ++ LibraryName.transposeAttribute
  | some .parens, [only] => "(" ++ only ++ ")"
  | some .lastIndex, [] => callOf .endMarker ""
  | some .range, [start, stop] => start ++ Operator.colon.canonical ++ stop
  | some .range, [start, stop, step] => start ++ Operator.colon.canonical ++ stop ++ Operator.colon.canonical ++ step
  | some .range, [] | some .colon, [] => Operator.colon.canonical
  | some .colon, texts => callOf .indexRange (String.intercalate "," texts)
  | some .plus, [left, right] => "(" ++ left ++ "+" ++ right ++ ")"
  | some .minus, [left, right] => "(" ++ left ++ "-" ++ right ++ ")"
  | _, texts => beside spelling texts

/-- An operator without a form of its own. -/
theorem composePlain_eq {spelling : String} (plain : (Operator.ofSpelling? spelling).any Operator.hasForm = false)
    (operands : List Operand) (result : Option Rendered) :
    composePlain spelling operands result = (do
      let binding ← bindingText spelling operands.length result
      let texts ← operands.mapM Operand.text
      pure (binding ++ beside spelling texts)) := by
  match operands with
  | [] => cases result <;> simp [composePlain, bindingText, writesResult, beside]
  | [only] =>
    have around : (Operator.ofSpelling? spelling).map Operator.fixity ≠ some .after := by
      cases found : Operator.ofSpelling? spelling with
      | none => simp
      | some operator => cases operator <;> simp_all [Operator.fixity, Operator.hasForm, Operator.arity?]
    cases result <;> simp [composePlain, bindingText, writesResult, beside, around]
  | [left, right] => cases result <;> simp [composePlain, bindingText, writesResult, beside]
  | first :: second :: third :: rest =>
    cases result <;>
      simp [composePlain, bindingText, writesResult, plain, beside, Operand.listed, Operand.joined, String.append_assoc]

theorem length_operandsOf (words : ReservedWords) (exprs : List Expr) :
    (operandsOf words exprs).length = exprs.length := by
  induction exprs with
  | nil => rfl
  | cons expr rest ih => simp only [operandsOf, List.length_cons, ih]

theorem placed_eq_text {spelling : String} (plain : (Operator.ofSpelling? spelling).any Operator.groups = false) :
    Operand.placed spelling = Operand.text := by
  funext operand
  simp [Operand.placed, plain]

/-- An operator with a form of its own. It never names its result. -/
theorem compose_form {spelling : String} {operator : Operator} (found : Operator.ofSpelling? spelling = some operator)
    (form : operator.hasForm = true) (line : SourceLine) (operands : List Operand) (result : Option Rendered) :
    compose line spelling operands result =
      (match countFault? line spelling operands.length with
      | some fault => .error fault
      | none => do
        let texts ← (arranged spelling operands).mapM (Operand.placed spelling)
        pure (assembled spelling texts)) := by
  match operator with
  | .not | .handle | .parens | .transpose =>
    match operands with
    | [only] =>
      simp [compose, found, countFault?, Operator.arity?, arranged, assembled, Operand.placed, Operator.groups]
    | [] | _ :: _ :: _ => simp [compose, found, countFault?, Operator.arity?]
  | .elementAnd | .elementOr | .leftDivide | .elementLeftDivide | .shortAnd | .shortOr =>
    match operands with
    | [left, right] =>
      simp [compose, found, countFault?, Operator.arity?, arranged, assembled, Operand.placed, Operator.groups, beside,
        Operator.respell, Operator.target, Operator.target?]
    | [] | [_] | _ :: _ :: _ :: _ => simp [compose, found, countFault?, Operator.arity?]
  | .lastIndex =>
    match operands with
    | [] => simp [compose, found, countFault?, Operator.arity?, arranged, assembled]
    | _ :: _ => simp [compose, found, countFault?, Operator.arity?]
  | .range =>
    match operands with
    | [] | [_, _] | [_, _, _] =>
      simp [compose, found, countFault?, composeRange, arranged, assembled, Operand.placed, Operator.groups]
    | [_] | _ :: _ :: _ :: _ :: _ => simp [compose, found, countFault?, composeRange]
  | .colon =>
    have placed : Operand.placed spelling = Operand.text := placed_eq_text (by simp [found, Operator.groups])
    match operands with
    | [] => simp [compose, found, countFault?, Operator.arity?, arranged, assembled]
    | first :: rest =>
      simp [compose, found, countFault?, Operator.arity?, arranged, assembled, placed, Operand.listed, Operand.joined]
  | .plus | .minus | .times | .divide | .power | .elementTimes | .elementDivide | .elementPower | .elementTimesAssign
  | .elementDivideAssign | .equal | .notEqual | .less | .lessEqual | .greater | .greaterEqual => cases form

/-- An operator without a form of its own, but for two operands around a plus or a minus. -/
theorem compose_plain {spelling : String} (plain : (Operator.ofSpelling? spelling).any Operator.hasForm = false)
    (line : SourceLine) (operands : List Operand) (result : Option Rendered) :
    compose line spelling operands result =
      (match folded? spelling operands with
      | some sum => pure sum.toText
      | none => do
        let binding ← bindingText spelling operands.length result
        let texts ← operands.mapM Operand.text
        pure (binding ++ assembled spelling texts)) := by
  match found : Operator.ofSpelling? spelling, plain with
  | some .plus, _ =>
    match operands with
    | [left, right] =>
      cases folded : foldedSum? left.expr right.expr <;> cases result <;>
        simp [compose, found, folded?, folded, bindingText, writesResult, assembled]
    | [] | [_] | _ :: _ :: _ :: _ =>
      simp [compose, found, composePlain_eq plain, folded?, assembled]
  | some .minus, _ =>
    match operands with
    | [left, right] => cases result <;> simp [compose, found, folded?, bindingText, writesResult, assembled]
    | [] | [_] | _ :: _ :: _ :: _ => simp [compose, found, composePlain_eq plain, folded?, assembled]
  | none, _ | some .times, _ | some .divide, _ | some .power, _ | some .elementTimes, _ | some .elementDivide, _
  | some .elementPower, _ | some .elementTimesAssign, _ | some .elementDivideAssign, _ | some .equal, _
  | some .notEqual, _ | some .less, _ | some .lessEqual, _ | some .greater, _ | some .greaterEqual, _ =>
    simp [compose, found, composePlain_eq plain, folded?, assembled]

/-- The text of an operation, whatever its operator is. -/
theorem compose_eq (line : SourceLine) (spelling : String) (operands : List Operand) (result : Option Rendered) :
    compose line spelling operands result =
      (match countFault? line spelling operands.length, folded? spelling operands with
      | some fault, _ => .error fault
      | none, some sum => pure sum.toText
      | none, none => do
        let binding ← bindingText spelling operands.length result
        let texts ← (arranged spelling operands).mapM (Operand.placed spelling)
        pure (binding ++ assembled spelling texts)) := by
  cases form : (Operator.ofSpelling? spelling).any Operator.hasForm with
  | true =>
    obtain ⟨operator, found, form⟩ := (Option.any_eq_true ..).mp form
    have unfolded : folded? spelling operands = none := by
      unfold folded?
      split
      case h_1 plus =>
        cases found.symm.trans plus
        cases form
      case h_2 => rfl
    have unbound : bindingText spelling operands.length result = pure "" :=
      bindingText_of_not_writesResult (by simp [writesResult, found, form]) result
    rw [compose_form found form, unfolded, unbound]
    cases countFault? line spelling operands.length <;> simp
  | false =>
    have same : arranged spelling operands = operands := by
      unfold arranged
      split <;> simp_all [Operator.hasForm, Operator.arity?]
    have unfaulted : countFault? line spelling operands.length = none := by
      unfold countFault?
      split <;> simp_all [Operator.hasForm]
    have placed : Operand.placed spelling = Operand.text := placed_eq_text <| by
      cases found : Operator.ofSpelling? spelling with
      | none => rfl
      | some operator => cases operator <;> first | rfl | simp [found, Operator.hasForm, Operator.arity?] at form
    rw [compose_plain form, unfaulted, same, placed]
    cases folded? spelling operands <;> rfl

/-- Several targets stand in front of the value one after the other. -/
theorem assignText_several (words : ReservedWords) (line : SourceLine) (first second : Expr) (rest : List Expr)
    (value : Expr) :
    assignText words line (first :: second :: rest) value = (do
      let text ← exprText words value
      let left ← (first :: second :: rest).mapM (targetText words)
      pure (String.intercalate "," left ++ "=" ++ text)) := by
  cases first <;> rfl

/-! Of an operand counts its text, whether it is atomic, and which literal it is. -/

def literal? : Expr → Option Literal
  | .literal _ value => some value
  | _ => none

/-- Is the literal a text? -/
def Literal.isText : Literal → Bool
  | .text _ => true
  | _ => false

/-- The sum of two literal numbers, if it is finite. -/
def literalSum? : Option Literal → Option Literal → Option Number
  | some (.number left), some (.number right) =>
    if (left.add right).toFloat.isFinite then some (left.add right) else none
  | _, _ => none

theorem isTextLiteral_congr {one other : Expr} (same : literal? one = literal? other) :
    one.isTextLiteral = other.isTextLiteral := by
  have read (expr : Expr) : expr.isTextLiteral = (literal? expr).any Literal.isText := by
    cases expr with
    | literal _ value => cases value <;> rfl
    | _ => rfl
  rw [read, read, same]

theorem foldedSum?_congr {one other left right : Expr} (first : literal? one = literal? left)
    (second : literal? other = literal? right) : foldedSum? one other = foldedSum? left right := by
  have read (one other : Expr) : foldedSum? one other = literalSum? (literal? one) (literal? other) := by
    cases one with
    | literal _ value =>
      cases value with
      | number =>
        cases other with
        | literal _ value => cases value <;> rfl
        | _ => rfl
      | _ => rfl
    | _ => rfl
  rw [read, read, first, second]

/-- A change of operands that keeps what counts. -/
structure Operand.Kept (change : Operand → Operand) : Prop where
  text (operand : Operand) : (change operand).text = operand.text
  atomic (operand : Operand) : isAtomic (change operand).expr = isAtomic operand.expr
  literal (operand : Operand) : literal? (change operand).expr = literal? operand.expr

section
variable {change : Operand → Operand} (kept : Operand.Kept change)
include kept

theorem folded?_change (spelling : String) (operands : List Operand) :
    folded? spelling (operands.map change) = folded? spelling operands := by
  match operands with
  | [left, right] =>
    have sum := foldedSum?_congr (kept.literal left) (kept.literal right)
    unfold folded?
    cases Operator.ofSpelling? spelling with
    | none => rfl
    | some operator => cases operator <;> first | exact sum | rfl
  | [] | [_] | _ :: _ :: _ :: _ =>
    unfold folded?
    cases Operator.ofSpelling? spelling with
    | none => rfl
    | some operator => cases operator <;> rfl

theorem Operand.placed_change (spelling : String) (operand : Operand) :
    (change operand).placed spelling = operand.placed spelling := by
  simp only [placed, grouped, kept.text, kept.atomic]

theorem Operand.joined_change (separator : String) (operands : List Operand) :
    joined separator (operands.map change) = joined separator operands := by
  simp only [joined, List.mapM_map, Function.comp_def, kept.text]

theorem Operand.bracketed_change (rows : List (List Operand)) :
    bracketed (rows.map (List.map change)) = bracketed rows := by
  simp only [bracketed, listed, List.mapM_map, Function.comp_def, joined_change kept]

theorem compose_change (line : SourceLine) (spelling : String) (operands : List Operand) (result : Option Rendered) :
    compose line spelling (operands.map change) result = compose line spelling operands result := by
  have placed : Operand.placed spelling ∘ change = Operand.placed spelling :=
    funext (Operand.placed_change kept spelling)
  simp only [compose_eq, List.length_map, folded?_change kept, arranged_map, List.mapM_map, placed]

theorem subscript_change (target : Rendered) (arguments : List Operand) :
    subscript target (arguments.map change) = subscript target arguments := by
  cases arguments with
  | nil => rfl
  | cons first rest =>
    have listed := Operand.joined_change kept "," (first :: rest)
    exact congrArg (target >>= ·) (funext fun target => congrArg (· >>= _) listed)

theorem composeCall_change (target : Operand) (loads : loadsWorkspace (change target).expr = loadsWorkspace target.expr)
    (arguments : List Operand) (results : Nat) :
    composeCall (change target) (arguments.map change) results = composeCall target arguments results := by
  simp only [composeCall, Operand.listed, Operand.joined_change kept, kept.text, loads]

theorem composeIndex_change (form : IndexForm) (target : Operand)
    (loads : loadsWorkspace (change target).expr = loadsWorkspace target.expr) (arguments : List Operand) :
    composeIndex form (change target) (arguments.map change) = composeIndex form target arguments := by
  cases form <;> simp only [composeIndex, composeCall_change kept target loads, subscript_change kept, kept.text]

theorem composeRows_change (brackets : Brackets) (rows : List (List Operand)) :
    composeRows brackets (rows.map (List.map change)) = composeRows brackets rows := by
  have texts (row : List Operand) : (row.map change).any (fun element => element.expr.isTextLiteral) =
      row.any fun element => element.expr.isTextLiteral := by
    rw [List.any_map]
    exact congrArg row.any (funext fun element => isTextLiteral_congr (kept.literal element))
  simp only [composeRows, Operand.bracketed_change kept, ← List.map_flatten, Operand.joined_change kept, List.all_map,
    List.any_map, Function.comp_def, List.isEmpty_map, texts]

end

end Code
end ArrayLift
