import ArrayLift.Proofs.Assigning.References
import ArrayLift.Proofs.Layout.Solid
import ArrayLift.Proofs.Rendering.Nodes

/-! The texts of expressions are balanced as far as their names are words, and the text of an assignment target is a
reference whose kind is that of its outermost node. A field with a computed name is a call, wherever it stands. -/
namespace ArrayLift
namespace Code
open Python

/-- The text is balanced and not empty. -/
structure Complete (text : String) : Prop where
  balanced : Balanced text
  written : text ≠ ""

/-- The names of a node are words; the spelling of an operator is known, or at least without brackets and literals. -/
def Node.Worded : Node → Prop
  | .name ident => isWord ident.name.toList = true
  | .expression (.field _ _ word) => isWord word.toList = true
  | .expression (.operation _ spelling _ _) =>
    (Operator.ofSpelling? spelling).any Operator.hasForm = true ∨ Bare spelling ∧ spelling ≠ ""
  | _ => True

instance : ∀ node : Node, Decidable node.Worded
  | .name ident => inferInstanceAs (Decidable (isWord ident.name.toList = true))
  | .expression (.field _ _ word) => inferInstanceAs (Decidable (isWord word.toList = true))
  | .expression (.operation _ spelling _ _) =>
    inferInstanceAs (Decidable
      ((Operator.ofSpelling? spelling).any Operator.hasForm = true ∨ Bare spelling ∧ spelling ≠ ""))
  | .expression (.ident ..) | .expression (.literal ..) | .expression (.dynamicField ..) | .expression (.index ..)
  | .expression (.rows ..) | .expression (.lambda ..) | .statement _ => .isTrue trivial

namespace Complete

variable {one other middle inner : String}

theorem append (first : Complete one) (second : Balanced other) : Complete (one ++ other) where
  balanced := first.balanced.append second
  written := by simp [first.written]

/-- Two texts with something between them. -/
theorem between (first : Complete one) (balanced : Balanced middle) (second : Complete other) :
    Complete (one ++ middle ++ other) :=
  (first.append balanced).append second.balanced

theorem parens (balanced : Balanced inner) : Complete ("(" ++ inner ++ ")") where
  balanced := balanced.parens
  written := by simp

theorem join {separator : String} (between : Balanced separator) {texts : List String} (some : texts ≠ [])
    (each : ∀ text ∈ texts, Complete text) : Complete (separator.intercalate texts) where
  balanced := .intercalate between fun text member => (each text member).balanced
  written := by
    obtain ⟨first, rest, rfl⟩ := List.exists_cons_of_ne_nil some
    have written := (each first (by simp)).written
    cases rest <;> simp [written]

theorem library (name : LibraryName) : Complete name.spelling := by
  cases name <;> exact ⟨.bare (by decide), by decide⟩

theorem call (name : LibraryName) (balanced : Balanced inner) : Complete (callOf name inner) := by
  have called := (library name).append balanced.parens
  simpa [callOf, String.append_assoc] using called

end Complete

theorem Solid.written {text : String} (solid : Solid text) : text ≠ "" := by
  rintro rfl
  exact absurd solid.opens (by decide)

/-! Numbers and names. -/

theorem unmarked_of_isDigit {c : Char} (digit : c.isDigit = true) : c ∉ marks := by
  have each : marks.all (!Char.isDigit ·) = true := by decide
  intro mark
  have other := List.all_eq_true.mp each c mark
  simp [digit] at other

theorem bare_nat (value : Nat) : Bare (toString value) := by
  rw [Nat.toString_eq_repr]
  intro c member
  rw [Nat.toList_repr] at member
  exact unmarked_of_isDigit (Nat.isDigit_of_mem_toDigits (by decide) (by decide) member)

theorem bare_int (value : Int) : Bare (toString value) := by
  rw [Int.toString_eq_repr, Int.repr_eq_if]
  split
  · exact Nat.toString_eq_repr ▸ bare_nat value.toNat
  · have sign : Bare "-" := by decide
    exact sign.append (Nat.toString_eq_repr ▸ bare_nat (-value).toNat)

theorem bare_numeral (numeral : Numeral) : Bare (String.ofList numeral.text) := by
  have digits : ∀ digit : Fin 10, Nat.digitChar digit.val ∉ marks := by decide
  intro c member
  simp only [String.toList_ofList, Numeral.text, List.mem_append] at member
  rcases member with ((sign | whole) | fraction) | exponent
  · split at sign
    · obtain rfl := List.mem_singleton.mp sign
      decide
    · cases sign
  · exact bare_nat numeral.whole c whole
  · split at fraction
    · cases fraction
    · rcases List.mem_cons.mp fraction with rfl | member
      · decide
      · obtain ⟨digit, _, rfl⟩ := List.mem_map.mp member
        exact digits digit
  · split at exponent
    case h_1 power _ =>
      rcases List.mem_cons.mp exponent with rfl | member
      · decide
      · exact bare_int power c member
    case h_2 => cases exponent

theorem complete_number (number : Number) : Complete number.toText := by
  refine ⟨.bare ?_, (solid_number number).written⟩
  cases number with
  | int value => exact bare_int _
  | float value =>
    cases value with
    | finite => exact bare_numeral _
    | infinite negative => cases negative <;> decide
    | notANumber => decide

theorem complete_literal (value : Literal) : Complete (literalText value) := by
  match value with
  | .number value => exact complete_number value
  | .text value => exact ⟨.literal value, (solid_quoted value).written⟩
  | .logical true => exact .library .trueConstant
  | .logical false => exact .library .falseConstant

/-! Operations. -/

theorem complete_beside {spelling : String} (symbol : Complete (Operator.respell spelling))
    {texts : List String} (called : 3 ≤ texts.length → Complete spelling) (each : ∀ text ∈ texts, Complete text) :
    Complete (beside spelling texts) := by
  match texts with
  | [] => exact symbol
  | [only] => exact symbol.between (.bare (by decide)) (each only (by simp))
  | [left, right] =>
    have gap : Balanced " " := .bare (by decide)
    have spaced : Balanced (" " ++ Operator.respell spelling ++ " ") := (gap.append symbol.balanced).append gap
    have between := (each left (by simp)).between spaced (each right (by simp))
    simpa only [beside, String.append_assoc] using between
  | first :: second :: third :: rest =>
    have comma : Balanced "," := .bare (by decide)
    have listed := Complete.join comma (by simp) each
    have call := (called (by simp)).append listed.balanced.parens
    simpa only [beside, String.append_assoc] using call

/-- A symbol between two operands in parentheses. -/
theorem complete_enclosed {left right symbol : String} (first : Complete left) (second : Complete right)
    (bare : Balanced symbol) : Complete ("(" ++ left ++ symbol ++ right ++ ")") := by
  have inner := first.between bare second
  simpa only [String.append_assoc] using Complete.parens inner.balanced

theorem complete_target {operator : Operator} {target : String} (spelled : operator.target? = some target) :
    Complete target := by
  have each : ∀ target ∈ operator.target?, Bare target ∧ target ≠ "" := by cases operator <;> decide
  obtain ⟨bare, written⟩ := each target spelled
  exact ⟨.bare bare, written⟩

theorem count_of_arity {spelling : String} {operator : Operator} (found : Operator.ofSpelling? spelling = some operator)
    {expected : Nat} (arity : operator.arity? = some expected) {line : SourceLine} {count : Nat}
    (sound : countFault? line spelling count = none) : count = expected := by
  cases operator <;> cases arity <;> simpa [countFault?, found, Operator.arity?] using sound

theorem complete_colon : Complete Operator.colon.canonical :=
  ⟨.bare (by decide), by decide⟩

/-- A range has no bounds, or two of them and perhaps a step. -/
theorem complete_range {spelling : String} (found : Operator.ofSpelling? spelling = some .range) {texts : List String}
    {line : SourceLine} (sound : countFault? line spelling texts.length = none)
    (each : ∀ text ∈ texts, Complete text) : Complete (assembled spelling texts) := by
  rcases texts with _ | ⟨start, _ | ⟨stop, _ | ⟨step, _ | ⟨more, rest⟩⟩⟩⟩
  · simpa [assembled, found] using complete_colon
  · simp [found, countFault?] at sound
  · simpa [assembled, found] using (each start (by simp)).between complete_colon.balanced (each stop (by simp))
  · have first := (each start (by simp)).between complete_colon.balanced (each stop (by simp))
    simpa [assembled, found] using first.between complete_colon.balanced (each step (by simp))
  · simp [found, countFault?] at sound

/-- An operator with a form of its own on as many operands as it takes. -/
theorem complete_form {spelling : String} {operator : Operator} (found : Operator.ofSpelling? spelling = some operator)
    (form : operator.hasForm = true) {texts : List String} {line : SourceLine}
    (sound : countFault? line spelling texts.length = none) (each : ∀ text ∈ texts, Complete text) :
    Complete (assembled spelling texts) := by
  have comma : Balanced "," := .bare (by decide)
  have single (arity : operator.arity? = some 1) : ∃ only, texts = [only] ∧ Complete only := by
    obtain ⟨only, rfl⟩ := List.length_eq_one_iff.mp (count_of_arity found arity sound)
    exact ⟨only, rfl, each only (by simp)⟩
  have double (arity : operator.arity? = some 2) :
      ∃ left right, texts = [left, right] ∧ Complete (left ++ "," ++ right) := by
    obtain ⟨left, right, rfl⟩ := List.length_eq_two.mp (count_of_arity found arity sound)
    exact ⟨left, right, rfl, (each left (by simp)).between comma (each right (by simp))⟩
  have spaced {target : String} (arity : operator.arity? = some 2) (shown : operator.target? = some target) :
      Complete (beside spelling texts) := by
    refine complete_beside ?_ (fun many => ?_) each
    · simpa [Operator.respell, found, shown] using complete_target shown
    · have two := count_of_arity found arity sound
      omega
  cases operator with
  | not =>
    obtain ⟨only, rfl, text⟩ := single rfl
    simpa [assembled, found] using Complete.call .logicalNot text.balanced
  | handle =>
    obtain ⟨only, rfl, text⟩ := single rfl
    simpa [assembled, found] using text
  | parens =>
    obtain ⟨only, rfl, text⟩ := single rfl
    simpa [assembled, found] using Complete.parens text.balanced
  | transpose =>
    obtain ⟨only, rfl, text⟩ := single rfl
    have behind : Balanced ("." ++ LibraryName.transposeAttribute) := .bare (by decide)
    simpa [assembled, found, String.append_assoc] using text.append behind
  | elementAnd =>
    obtain ⟨left, right, rfl, pair⟩ := double rfl
    simpa [assembled, found] using Complete.call .logicalAnd pair.balanced
  | elementOr =>
    obtain ⟨left, right, rfl, pair⟩ := double rfl
    simpa [assembled, found] using Complete.call .logicalOr pair.balanced
  | leftDivide =>
    obtain ⟨left, right, rfl, pair⟩ := double rfl
    simpa [assembled, found] using Complete.call .linearSolve pair.balanced
  | elementLeftDivide | shortAnd | shortOr =>
    obtain ⟨left, right, rfl, pair⟩ := double rfl
    simpa [assembled, found] using spaced rfl rfl
  | lastIndex =>
    obtain rfl := List.length_eq_zero_iff.mp (count_of_arity found rfl sound)
    have nothing : Balanced "" := rfl
    simpa [assembled, found] using Complete.call .endMarker nothing
  | range => exact complete_range found sound each
  | colon =>
    cases texts with
    | nil => simpa [assembled, found] using complete_colon
    | cons first rest =>
      have listed := Complete.join comma (List.cons_ne_nil first rest) each
      simpa [assembled, found] using Complete.call .indexRange listed.balanced
  | plus | minus | times | divide | power | elementTimes | elementDivide | elementPower | elementTimesAssign
  | elementDivideAssign | equal | notEqual | less | lessEqual | greater | greaterEqual => cases form

/-- An operator without a form of its own. -/
theorem complete_plain {spelling : String} (plain : (Operator.ofSpelling? spelling).any Operator.hasForm = false)
    (spelled : Complete spelling) {texts : List String} (each : ∀ text ∈ texts, Complete text) :
    Complete (assembled spelling texts) := by
  have symbol : Complete (Operator.respell spelling) := by
    unfold Operator.respell
    cases shown : (Operator.ofSpelling? spelling).bind Operator.target? with
    | none => exact spelled
    | some target =>
      obtain ⟨operator, _, target⟩ := Option.bind_eq_some_iff.mp shown
      exact complete_target target
  have others := complete_beside symbol (fun _ => spelled) each
  unfold assembled
  split
  case h_14 left right _ | h_15 left right _ =>
    exact complete_enclosed (each left (by simp)) (each right (by simp)) (.bare (by decide))
  case h_16 => exact others
  all_goals simp_all [Operator.hasForm, Operator.arity?]

/-! Operands. -/

/-- The text of every operand is complete. -/
def CompleteOperands (operands : List Operand) : Prop :=
  ∀ operand ∈ operands, Yields Complete operand.text

section
variable {operands arguments : List Operand}

theorem complete_grouped {operand : Operand} (complete : Yields Complete operand.text) :
    Yields Complete operand.grouped := by
  refine .bind complete fun text complete => .pure ?_
  split
  · exact complete
  · exact .parens complete.balanced

theorem complete_placed {operand : Operand} (complete : Yields Complete operand.text) (spelling : String) :
    Yields Complete (operand.placed spelling) := by
  unfold Operand.placed
  split
  · exact complete_grouped complete
  · exact complete

theorem complete_joined {separator : String} (between : Balanced separator) (some : operands ≠ [])
    (each : CompleteOperands operands) : Yields Complete (Operand.joined separator operands) := by
  refine .bind (.mapM operands Operand.text each) fun texts ⟨same, each⟩ => .pure (.join between ?_ each)
  exact List.ne_nil_of_length_pos (same ▸ List.length_pos_of_ne_nil some)

theorem balanced_listed (each : CompleteOperands operands) : Yields Balanced (Operand.listed operands) :=
  .bind (.mapM operands Operand.text each) fun _ ⟨_, each⟩ =>
    .pure (.intercalate (.bare (by decide)) fun text member => (each text member).balanced)

theorem balanced_bracketed {rows : List (List Operand)} (each : ∀ row ∈ rows, CompleteOperands row) :
    Yields Balanced (Operand.bracketed rows) := by
  have enclosed : ∀ row ∈ rows, Yields Balanced (do
      let text ← Operand.listed row
      pure ("[" ++ text ++ "]")) := fun row member =>
    .bind (balanced_listed (each row member)) fun _ balanced => .pure balanced.brackets
  exact .bind (.mapM rows _ enclosed) fun _ ⟨_, each⟩ => .pure (.intercalate (.bare (by decide)) each)

theorem arranged_perm {α : Type} (spelling : String) (operands : List α) :
    (arranged spelling operands).Perm operands := by
  unfold arranged
  split
  · exact .swap ..
  · exact .cons _ (.swap ..)
  · exact .rfl

theorem complete_compose {line : SourceLine} {spelling : String} {result : Option Rendered}
    (worded : (Operator.ofSpelling? spelling).any Operator.hasForm = true ∨ Bare spelling ∧ spelling ≠ "")
    (bound : Yields Balanced (bindingText spelling operands.length result)) (each : CompleteOperands operands) :
    Yields Complete (compose line spelling operands result) := by
  rw [compose_eq]
  cases fault : countFault? line spelling operands.length with
  | some malformed => exact .error malformed
  | none =>
    cases folded? spelling operands with
    | some sum => exact .pure (complete_number sum)
    | none =>
      have placed : ∀ operand ∈ arranged spelling operands, Yields Complete (operand.placed spelling) :=
        fun operand member => complete_placed (each operand (mem_of_mem_arranged member)) spelling
      refine .bind bound fun name balanced => .bind (.mapM _ _ placed) fun texts ⟨same, each⟩ => .pure ?_
      have complete : Complete (assembled spelling texts) := by
        cases form : (Operator.ofSpelling? spelling).any Operator.hasForm with
        | true =>
          obtain ⟨operator, found, form⟩ := (Option.any_eq_true ..).mp form
          have sound : countFault? line spelling texts.length = none := by
            rw [same, (arranged_perm ..).length_eq, fault]
          exact complete_form found form sound each
        | false =>
          obtain ⟨bare, written⟩ := worded.resolve_left (by simp [form])
          exact complete_plain form ⟨.bare bare, written⟩ each
      exact ⟨balanced.append complete.balanced, by simp [complete.written]⟩

/-- What stands between the brackets of a subscript. -/
def indexText : List Operand → Rendered
  | [] => pure Operator.colon.canonical
  | arguments => Operand.listed arguments

theorem subscript_eq (target : Rendered) (arguments : List Operand) :
    subscript target arguments = (do
      let target ← target
      let index ← indexText arguments
      pure (target ++ "[" ++ index ++ "]")) := by
  cases arguments <;> simp [subscript, indexText]

theorem complete_indexText (each : CompleteOperands arguments) : Yields Complete (indexText arguments) := by
  cases arguments with
  | nil => exact .pure ⟨.bare (by decide), by decide⟩
  | cons first rest => exact complete_joined (.bare (by decide)) (by simp) each

theorem complete_subscript {target : Rendered} (complete : Yields Complete target) (each : CompleteOperands arguments) :
    Yields Complete (subscript target arguments) := by
  rw [subscript_eq]
  refine .bind complete fun text complete => .bind (complete_indexText each) fun index inner => .pure ?_
  simpa only [String.append_assoc] using complete.append inner.balanced.brackets

theorem complete_composeCall (target : Operand) (complete : Yields Complete target.text)
    (each : CompleteOperands arguments) (results : Nat) : Yields Complete (composeCall target arguments results) := by
  refine .bind complete fun callee complete => .bind (balanced_listed each) fun listed balanced => .pure ?_
  have request : Balanced (LibraryName.nargout.spelling ++ "=" ++ toString results) :=
    .bare (Bare.append (by decide) (bare_nat results))
  have called {inner : String} (balanced : Balanced inner) : Complete (callee ++ "(" ++ inner ++ ")") := by
    simpa only [String.append_assoc] using complete.append balanced.parens
  have call : Complete (if results ≤ 1 then callee ++ "(" ++ listed ++ ")"
      else if listed.isEmpty then callee ++ "(" ++ (LibraryName.nargout.spelling ++ "=" ++ toString results) ++ ")"
      else callee ++ "(" ++ listed ++ "," ++ (LibraryName.nargout.spelling ++ "=" ++ toString results) ++ ")") := by
    split_ifs
    · exact called balanced
    · exact called request
    · have comma : Balanced "," := .bare (by decide)
      have both := called ((balanced.append comma).append request)
      simpa only [String.append_assoc] using both
  split
  · have behind : Balanced ("." ++ LibraryName.workspaceMerge) := .bare (by decide)
    have whole := ((Complete.library .workspace).append behind).append call.balanced.parens
    simpa only [String.append_assoc] using whole
  · exact call

theorem complete_composeRows (brackets : Brackets) {rows : List (List Operand)}
    (each : ∀ row ∈ rows, CompleteOperands row) : Yields Complete (composeRows brackets rows) := by
  unfold composeRows
  cases brackets with
  | cell => exact .bind (balanced_bracketed each) fun _ balanced => .pure (.call .cellArray balanced.brackets)
  | matrix =>
    dsimp only
    split_ifs with hollow texts
    · have nothing : Balanced "" := rfl
      exact .pure (.call .emptyArray nothing)
    · refine complete_joined (.bare (by decide)) (fun nothing => ?_) fun operand member => ?_
      · obtain ⟨row, inside, found⟩ := List.any_eq_true.mp texts
        simp [List.flatten_eq_nil_iff.mp nothing row inside] at found
      · obtain ⟨row, inside, member⟩ := List.mem_flatten.mp member
        exact each row inside operand member
    · exact .bind (balanced_bracketed each) fun _ balanced => .pure (.call .concat balanced.brackets)

end

theorem complete_pythonName {name : String} (word : isWord name.toList = true) (reserved : Bool) :
    Complete (ReservedWords.pythonName name reserved) := by
  have plain : Complete name := by
    refine ⟨.bare (bare_of_isWord word), ?_⟩
    rintro rfl
    exact absurd word (by decide)
  unfold ReservedWords.pythonName
  split
  · exact plain.append (.bare (by decide))
  · exact plain

end Code

open Code Python

/-- The names in the nodes are words. -/
def Worded (nodes : List Node) : Prop :=
  ∀ node ∈ nodes, node.Worded

instance (nodes : List Node) : Decidable (Worded nodes) :=
  inferInstanceAs (Decidable (∀ node ∈ nodes, node.Worded))

@[simp] theorem worded_cons (node : Node) (rest : List Node) : Worded (node :: rest) ↔ node.Worded ∧ Worded rest :=
  List.forall_mem_cons

@[simp] theorem worded_append (one other : List Node) : Worded (one ++ other) ↔ Worded one ∧ Worded other :=
  List.forall_mem_append

theorem worded_arranged {spelling : String} {parts : List (List Node)}
    (worded : Worded (arranged spelling parts).flatten) : Worded parts.flatten := by
  intro node member
  obtain ⟨part, known, member⟩ := List.mem_flatten.mp member
  exact worded node (List.mem_flatten.mpr ⟨part, (arranged_perm ..).mem_iff.mpr known, member⟩)

variable (words : ReservedWords)

mutual
theorem Ident.complete_identText : ∀ ident : Ident, Worded ident.nodes → Yields Complete (identText words ident)
  | .mk _ none _ _ _, worded => .pure (complete_pythonName ((worded_cons ..).mp worded).1 _)
  | .mk _ (some init) _ _ _, worded => by
    simp only [Ident.nodes, worded_cons] at worded
    exact .bind (Expr.complete_exprText init worded.2) fun _ value =>
      .pure ((complete_pythonName worded.1 _).between (.bare (by decide)) value)

/-- Brackets and literals are closed in the text of an expression. -/
theorem Expr.complete_exprText : ∀ expr : Expr, Worded expr.nodes → Yields Complete (exprText words expr)
  | .ident _ named, worded => Ident.complete_identText named ((worded_cons ..).mp worded).2
  | .literal _ value, _ => .pure (complete_literal value)
  | .operation line spelling operands none, worded => by
    simp only [Expr.nodes, worded_cons] at worded
    exact complete_compose worded.1 (.pure rfl) (Expr.complete_operandsOf operands (worded_arranged worded.2))
  | .operation line spelling operands (some result), worded => by
    simp only [Expr.nodes, worded_cons, worded_append] at worded
    refine complete_compose worded.1 ?_ (Expr.complete_operandsOf operands (worded_arranged worded.2.2))
    rw [length_operandsOf, bindingText]
    split
    case isTrue writes =>
      have named : Worded result.nodes := by simpa [writes] using worded.2.1
      exact .bind (Ident.complete_identText result named) fun _ complete =>
        .pure (complete.balanced.append (.bare (by decide)))
    case isFalse => exact .pure rfl
  | .field _ object _, worded => by
    simp only [Expr.nodes, worded_cons] at worded
    exact .bind (Expr.complete_exprText object worded.2) fun _ complete =>
      .pure (complete.between (.bare (by decide)) (complete_pythonName worded.1 _))
  | .dynamicField _ object selector, worded => by
    simp only [Expr.nodes, worded_cons, worded_append] at worded
    exact .bind (Expr.complete_exprText object worded.2.1) fun _ one =>
      .bind (Expr.complete_exprText selector worded.2.2) fun _ other =>
        .pure (.call _ (one.between (.bare (by decide)) other).balanced)
  | .index _ form target arguments, worded => by
    simp only [Expr.nodes, worded_cons, worded_append] at worded
    have indexed := Expr.complete_exprText target worded.2.1
    have each := Expr.complete_operandsOf arguments worded.2.2
    cases form with
    | apply => exact complete_composeCall ⟨target, exprText words target⟩ indexed each 1
    | call results => exact complete_composeCall ⟨target, exprText words target⟩ indexed each results
    | arrayRef | cellRef => exact complete_subscript indexed each
  | .rows _ brackets rows, worded =>
    complete_composeRows brackets (Expr.complete_rowsOf rows ((worded_cons ..).mp worded).2)
  | .lambda _ params body, worded => by
    simp only [Expr.nodes, worded_cons, worded_append] at worded
    refine .bind (Ident.complete_identTexts params worded.2.1) fun names each => ?_
    have listed : Balanced (String.intercalate "," names) :=
      .intercalate (.bare (by decide)) fun text member => (each text member).balanced
    have opened : Complete "lambda " := ⟨.bare (by decide), by decide⟩
    exact .bind (Expr.complete_exprText body worded.2.2) fun _ complete =>
      .pure (((opened.append listed).append (.bare (by decide))).append complete.balanced)

theorem Expr.complete_operandsOf : ∀ exprs : List Expr, Worded (Expr.nodesEach exprs).flatten →
    CompleteOperands (operandsOf words exprs)
  | [], _ => nofun
  | expr :: rest, worded => by
    simp only [Expr.nodesEach, List.flatten_cons, worded_append] at worded
    exact List.forall_mem_cons.mpr ⟨Expr.complete_exprText expr worded.1, Expr.complete_operandsOf rest worded.2⟩

theorem Expr.complete_rowsOf : ∀ rows : List (List Expr), Worded (Expr.nodesRows rows).flatten →
    ∀ row ∈ rowsOf words rows, CompleteOperands row
  | [], _ => nofun
  | row :: rest, worded => by
    simp only [Expr.nodesRows, List.flatten_cons, worded_append] at worded
    exact List.forall_mem_cons.mpr ⟨Expr.complete_operandsOf row worded.1, Expr.complete_rowsOf rest worded.2⟩

theorem Ident.complete_identTexts : ∀ idents : List Ident, Worded (Ident.nodesList idents) →
    Yields (fun texts => ∀ text ∈ texts, Complete text) (identTexts words idents)
  | [], _ => .pure (by simp)
  | ident :: rest, worded => by
    simp only [Ident.nodesList, worded_append] at worded
    exact .bind (Ident.complete_identText ident worded.1) fun _ complete =>
      .bind (Ident.complete_identTexts rest worded.2) fun _ others => .pure (by simpa [complete] using others)
end

end ArrayLift
