import Mathlib.Data.List.Basic
import ArrayLift.Code.Statement
import ArrayLift.Proofs.Layout.Yields

/-! Texts that fill a line: in one line, and with something at the start that is neither blank nor a comment. Numbers,
literals and plain words are such texts, and so is what operators and brackets make of them. -/
namespace ArrayLift.Code

/-- The characters that end a line of Python. -/
def isBreak (c : Char) : Bool :=
  c = '\n' || c = '\r'

/-- The text is in one line. -/
def Unbroken (text : String) : Prop :=
  ∀ c ∈ text.toList, isBreak c = false

/-- Does the text start with something that is neither blank nor a comment? -/
def opens (text : List Char) : Bool :=
  match text with
  | [] => false
  | first :: _ => !Text.isBlank first && first ≠ '#'

/-- The text is in one line and says something from its start. -/
structure Solid (text : String) : Prop where
  opens : opens text.toList = true
  unbroken : Unbroken text

instance (text : String) : Decidable (Unbroken text) :=
  decidable_of_iff (text.toList.all (!isBreak ·) = true) (by simp [Unbroken])

instance (text : String) : Decidable (Solid text) :=
  decidable_of_iff (Code.opens text.toList = true ∧ Unbroken text)
    ⟨fun ⟨opens, unbroken⟩ => ⟨opens, unbroken⟩, fun ⟨opens, unbroken⟩ => ⟨opens, unbroken⟩⟩

/-- The words of a language: not empty, and without blanks and comments. -/
def PlainWord (word : String) : Prop :=
  word ≠ "" ∧ ∀ c ∈ word.toList, Text.isBlank c = false ∧ c ≠ '#'

instance (word : String) : Decidable (PlainWord word) :=
  decidable_of_iff (word ≠ "" ∧ word.toList.all (fun c => !Text.isBlank c && c ≠ '#') = true)
    (by simp [PlainWord])

@[simp] theorem unbroken_append (one other : String) :
    Unbroken (one ++ other) ↔ Unbroken one ∧ Unbroken other := by
  simp [Unbroken, String.toList_append, or_imp, forall_and]

theorem opens_append {one : List Char} (opened : opens one = true) (other : List Char) :
    opens (one ++ other) = true := by
  cases one with
  | nil => cases opened
  | cons => exact opened

theorem Solid.append {one other : String} (solid : Solid one) (unbroken : Unbroken other) :
    Solid (one ++ other) where
  opens := by
    rw [String.toList_append]
    exact opens_append solid.opens _
  unbroken := (unbroken_append ..).mpr ⟨solid.unbroken, unbroken⟩

/-- A text with something around it. -/
theorem Solid.around {opening inside closing : String} (first : Solid opening) (middle : Unbroken inside)
    (last : Unbroken closing) : Solid (opening ++ inside ++ closing) :=
  (first.append middle).append last

/-- Two texts with something between them. -/
theorem Solid.between {one other middle : String} (first : Solid one) (unbroken : Unbroken middle)
    (second : Solid other) : Solid (one ++ middle ++ other) :=
  first.around unbroken second.unbroken

theorem isBlank_of_isBreak {c : Char} (ends : isBreak c = true) : Text.isBlank c = true := by
  simp only [isBreak, Bool.or_eq_true, decide_eq_true_eq] at ends
  obtain rfl | rfl := ends <;> decide

theorem PlainWord.solid {word : String} (plain : PlainWord word) : Solid word := by
  obtain ⟨some, each⟩ := plain
  refine ⟨?_, fun c member => ?_⟩
  · cases shape : word.toList with
    | nil => exact absurd (String.toList_eq_nil_iff.mp shape) some
    | cons first rest =>
      have start := each first (by simp [shape])
      simp [opens, start]
  · have text := (each c member).1
    cases ends : isBreak c with
    | false => rfl
    | true => rw [isBlank_of_isBreak ends] at text; cases text

theorem unbroken_join {separator : String} (between : Unbroken separator) {texts : List String}
    (each : ∀ text ∈ texts, Unbroken text) : Unbroken (separator.intercalate texts) := by
  induction texts with
  | nil => simp [Unbroken]
  | cons text rest ih =>
    obtain ⟨first, others⟩ := List.forall_mem_cons.mp each
    cases rest with
    | nil => simpa using first
    | cons => simp [first, between, ih others]

theorem solid_join {separator : String} (between : Unbroken separator) {texts : List String} (some : texts ≠ [])
    (each : ∀ text ∈ texts, Solid text) : Solid (separator.intercalate texts) := by
  match texts with
  | [text] => simpa using each
  | text :: next :: rest =>
    obtain ⟨first, others⟩ := List.forall_mem_cons.mp each
    have behind := unbroken_join between fun text member => (others text member).unbroken
    rw [String.intercalate_cons_cons]
    exact first.around between behind

/-! Numbers and literals. -/

theorem plain_digit {c : Char} (digit : c.isDigit = true) : Text.isBlank c = false ∧ c ≠ '#' := by
  simp only [Char.isDigit, Bool.and_eq_true, decide_eq_true_eq] at digit
  have low : 48 ≤ c.toNat := digit.1
  have high : c.toNat ≤ 57 := digit.2
  refine ⟨?_, fun same => ?_⟩
  · simp [Text.isBlank, Text.blankRanges]
    omega
  · subst same
    exact absurd low (by decide)

theorem plain_nat (value : Nat) : PlainWord (toString value) := by
  rw [Nat.toString_eq_repr]
  refine ⟨fun nothing => ?_, fun c member => ?_⟩
  · have digits : Nat.toDigits 10 value = [] := by rw [← Nat.toList_repr, nothing]; rfl
    exact Nat.toDigits_ne_nil digits
  · rw [Nat.toList_repr] at member
    exact plain_digit (Nat.isDigit_of_mem_toDigits (by decide) (by decide) member)

theorem PlainWord.append {one other : String} (first : PlainWord one) (second : PlainWord other) :
    PlainWord (one ++ other) := by
  refine ⟨by simp [first.1], fun c member => ?_⟩
  obtain member | member := List.mem_append.mp (String.toList_append ▸ member)
  · exact first.2 c member
  · exact second.2 c member

theorem plain_minus : PlainWord "-" := by decide

theorem plain_int (value : Int) : PlainWord (toString value) := by
  rw [Int.toString_eq_repr, Int.repr_eq_if]
  split
  · exact Nat.toString_eq_repr ▸ plain_nat value.toNat
  · exact plain_minus.append (Nat.toString_eq_repr ▸ plain_nat (-value).toNat)

theorem plain_digitChar : ∀ digit : Fin 10,
    Text.isBlank (Nat.digitChar digit.val) = false ∧ Nat.digitChar digit.val ≠ '#' := by
  decide

theorem plain_numeral (numeral : Numeral) : PlainWord (String.ofList numeral.text) := by
  refine ⟨fun nothing => ?_, fun c member => ?_⟩
  · have empty := congrArg String.toList nothing
    simp [Numeral.text] at empty
  · simp only [String.toList_ofList, Numeral.text, List.mem_append] at member
    obtain ((sign | digits) | fraction) | exponent := member
    · split at sign
      · exact plain_minus.2 c (by simpa using sign)
      · cases sign
    · exact (plain_nat numeral.whole).2 c digits
    · split at fraction
      · cases fraction
      · obtain rfl | member := List.mem_cons.mp fraction
        · decide
        · obtain ⟨digit, _, rfl⟩ := List.mem_map.mp member
          exact plain_digitChar digit
    · split at exponent
      case h_1 power _ =>
        obtain rfl | member := List.mem_cons.mp exponent
        · decide
        · exact (plain_int power).2 c member
      case h_2 => cases exponent

theorem solid_number (number : Number) : Solid number.toText := by
  cases number with
  | int value => exact (plain_int _).solid
  | float value =>
    cases value with
    | finite => exact (plain_numeral _).solid
    | infinite negative => cases negative <;> decide
    | notANumber => decide

theorem unbroken_encodeChar (c : Char) : ∀ encoded ∈ Text.Quoted.encodeChar c, isBreak encoded = false := by
  unfold Text.Quoted.encodeChar
  split_ifs with slash quote feed tab carriage
  case neg => simp [isBreak, feed, carriage]
  all_goals simp [isBreak]

/-- A literal is in one line whatever its text is. -/
theorem solid_quoted (text : String) : Solid (Text.Quoted.literal text) := by
  refine ⟨by simp [Text.Quoted.literal, opens, Text.isBlank, Text.blankRanges], fun c member => ?_⟩
  simp only [Text.Quoted.literal, String.toList_ofList, List.cons_append, List.mem_cons, List.mem_append,
    List.not_mem_nil, or_false, Text.Quoted.encode, List.mem_flatMap] at member
  obtain rfl | ⟨source, _, encoded⟩ | rfl := member
  · decide
  · exact unbroken_encodeChar source c encoded
  · decide

theorem solid_literal (value : Literal) : Solid (literalText value) := by
  match value with
  | .number value => exact solid_number value
  | .text value => exact solid_quoted value
  | .logical true | .logical false => decide

/-! Names and operators. -/

theorem solid_pythonName {name : String} (plain : PlainWord name) (reserved : Bool) :
    Solid (ReservedWords.pythonName name reserved) := by
  unfold ReservedWords.pythonName
  split
  · exact plain.solid.append (by decide)
  · exact plain.solid

theorem solid_library (name : LibraryName) : Solid name.spelling := by
  cases name <;> decide

theorem solid_callOf (name : LibraryName) {arguments : String} (unbroken : Unbroken arguments) :
    Solid (callOf name arguments) :=
  ((solid_library name).append (by decide)).around unbroken (by decide)

theorem solid_respell {spelling : String} (plain : PlainWord spelling) : Solid (Operator.respell spelling) := by
  have targets (operator : Operator) : ∀ target ∈ operator.target?, Solid target := by
    cases operator <;> decide
  unfold Operator.respell
  cases found : (Operator.ofSpelling? spelling).bind Operator.target? with
  | none => exact plain.solid
  | some target =>
    obtain ⟨operator, _, spelled⟩ := Option.bind_eq_some_iff.mp found
    exact targets operator target spelled

/-! Operands. -/

/-- The text of every operand is solid. -/
def SolidOperands (operands : List Operand) : Prop :=
  ∀ operand ∈ operands, Yields Solid operand.text

theorem solid_grouped {operand : Operand} (solid : Yields Solid operand.text) : Yields Solid operand.grouped := by
  refine .bind solid fun text solid => .pure ?_
  split
  · exact solid
  · exact .around (by decide) solid.unbroken (by decide)

theorem solid_joined {separator : String} (between : Unbroken separator) {operands : List Operand}
    (some : operands ≠ []) (solid : SolidOperands operands) : Yields Solid (Operand.joined separator operands) := by
  refine .bind (.mapM operands Operand.text solid) fun texts ⟨same, each⟩ => .pure (solid_join between ?_ each)
  exact List.ne_nil_of_length_pos (same ▸ List.length_pos_of_ne_nil some)

theorem unbroken_listed {operands : List Operand} (solid : SolidOperands operands) :
    Yields Unbroken (Operand.listed operands) :=
  .bind (.mapM operands Operand.text solid) fun _ ⟨_, each⟩ =>
    .pure (unbroken_join (by decide) fun text member => (each text member).unbroken)

theorem unbroken_bracketed {rows : List (List Operand)} (solid : ∀ row ∈ rows, SolidOperands row) :
    Yields Unbroken (Operand.bracketed rows) := by
  have enclosed : ∀ row ∈ rows, Yields Unbroken (do
      let text ← Operand.listed row
      pure ("[" ++ text ++ "]")) := fun row member =>
    .bind (unbroken_listed (solid row member)) fun text unbroken => .pure (by simp [unbroken]; decide)
  exact .bind (.mapM rows _ enclosed) fun _ ⟨_, each⟩ => .pure (unbroken_join (by decide) each)

/-- A text made from those of two operands. -/
theorem solid_pair {left right : Operand} (first : Yields Solid left.text) (second : Yields Solid right.text)
    {combine : String → String → String}
    (solid : ∀ one other, Solid one → Solid other → Solid (combine one other)) :
    Yields Solid (do
      let left ← left.text
      let right ← right.text
      pure (combine left right)) :=
  .bind first fun one solidOne => .bind second fun other solidOther => .pure (solid one other solidOne solidOther)

section
variable {left right : Operand} (first : Yields Solid left.text) (second : Yields Solid right.text)
include first second

/-- Two operands in a call of the library. -/
theorem solid_calledPair (name : LibraryName) :
    Yields Solid (do
      let left ← left.text
      let right ← right.text
      pure (callOf name (left ++ "," ++ right))) :=
  solid_pair first second fun _ _ one other => solid_callOf name (one.between (by decide) other).unbroken

/-- Two operands with an operator of Python between them. -/
theorem solid_spacedPair {operator : Operator} (spelled : Solid operator.target) :
    Yields Solid (do
      let left ← left.text
      let right ← right.text
      pure (left ++ " " ++ operator.target ++ " " ++ right)) :=
  solid_pair first second fun _ _ one other => (one.around (by decide) spelled.unbroken).between (by decide) other

/-- Two operands in parentheses with a symbol between them. -/
theorem solid_enclosedPair {symbol : String} (unbroken : Unbroken symbol) :
    Yields Solid (do
      let left ← left.text
      let right ← right.text
      pure ("(" ++ left ++ symbol ++ right ++ ")")) :=
  solid_pair first second fun _ _ one other =>
    ((Solid.append (by decide) one.unbroken).between unbroken other).append (by decide)

end

/-- The text of an operator without a form of its own. -/
theorem solid_composePlain {spelling : String} (plain : PlainWord spelling) {operands : List Operand}
    (solid : SolidOperands operands) {result : Option Rendered} (named : ∀ name ∈ result, Yields Solid name) :
    Yields Solid (composePlain spelling operands result) := by
  have symbol := solid_respell plain
  match operands with
  | [] => exact .pure symbol
  | [only] =>
    have operand := solid only (by simp)
    simp only [composePlain]
    split
    · exact .bind (solid_grouped operand) fun text solid => .pure (solid.append symbol.unbroken)
    · exact .bind operand fun text solid => .pure (symbol.between (by decide) solid)
  | [left, right] =>
    refine solid_pair (solid left (by simp)) (solid right (by simp)) fun one other first second => ?_
    exact (first.around (by decide) symbol.unbroken).between (by decide) second
  | first :: second :: third :: rest =>
    have call {binding : String} (binds : binding = "" ∨ Solid binding) :
        Yields Solid (do
          let arguments ← Operand.listed (first :: second :: third :: rest)
          pure (binding ++ spelling ++ "(" ++ arguments ++ ")")) := by
      refine .bind (unbroken_listed solid) fun arguments unbroken => .pure ?_
      have start : Solid (binding ++ spelling) := by
        obtain rfl | bound := binds
        · simpa using plain.solid
        · exact bound.append plain.solid.unbroken
      exact (start.append (by decide)).around unbroken (by decide)
    cases result with
    | none => exact call (.inl rfl)
    | some name => exact .bind (named name rfl) fun name solid => call (.inr (solid.append (by decide)))

theorem solid_composeRange (line : SourceLine) {operands : List Operand} (solid : SolidOperands operands) :
    Yields Solid (composeRange line operands) := by
  unfold composeRange
  match operands with
  | [] => exact .pure (by decide)
  | [start, stop] =>
    exact solid_pair (solid start (by simp)) (solid stop (by simp)) fun _ _ first second =>
      first.between (by decide) second
  | [start, step, stop] =>
    exact .bind (solid start (by simp)) fun _ first => .bind (solid stop (by simp)) fun _ second =>
      .bind (solid step (by simp)) fun _ third => .pure ((first.between (by decide) second).between (by decide) third)
  | [_] | _ :: _ :: _ :: _ :: _ => exact .error _

/-- An operator that takes one operand. -/
theorem solid_one {operands : List Operand} (solid : SolidOperands operands) (fault : Fault)
    {make : Operand → Rendered} (each : ∀ only, Yields Solid only.text → Yields Solid (make only)) :
    Yields Solid (match operands with
      | [only] => make only
      | _ => .error fault) := by
  split
  · exact each _ (solid _ (by simp))
  · exact .error _

/-- An operator that takes two operands. -/
theorem solid_two {operands : List Operand} (solid : SolidOperands operands) (fault : Fault)
    {make : Operand → Operand → Rendered}
    (each : ∀ left right, Yields Solid left.text → Yields Solid right.text → Yields Solid (make left right)) :
    Yields Solid (match operands with
      | [left, right] => make left right
      | _ => .error fault) := by
  split
  · exact each _ _ (solid _ (by simp)) (solid _ (by simp))
  · exact .error _

/-- The text of an operation, whatever its operator is. -/
theorem solid_compose (line : SourceLine) {spelling : String} (plain : PlainWord spelling) {operands : List Operand}
    (solid : SolidOperands operands) {result : Option Rendered} (named : ∀ name ∈ result, Yields Solid name) :
    Yields Solid (compose line spelling operands result) := by
  have others := solid_composePlain plain solid named
  match found : Operator.ofSpelling? spelling with
  | some .not =>
    simp only [compose, found]
    exact solid_one solid _ fun only text => .bind text fun _ solid => .pure (solid_callOf _ solid.unbroken)
  | some .elementAnd | some .elementOr | some .leftDivide =>
    simp only [compose, found]
    exact solid_two solid _ fun _ _ first second => solid_calledPair first second _
  | some .shortAnd | some .shortOr =>
    simp only [compose, found]
    exact solid_two solid _ fun _ _ first second => solid_spacedPair first second (by decide)
  | some .elementLeftDivide =>
    simp only [compose, found]
    refine solid_two solid _ fun left right first second => ?_
    exact .bind (solid_grouped second) fun _ one => .bind (solid_grouped first) fun _ other =>
      .pure ((one.around (by decide) (by decide)).between (by decide) other)
  | some .handle =>
    simp only [compose, found]
    exact solid_one solid _ fun only text => text
  | some .transpose =>
    simp only [compose, found]
    exact solid_one solid _ fun only text => .bind (solid_grouped text) fun _ solid =>
      .pure (solid.around (by decide) (by decide))
  | some .parens =>
    simp only [compose, found]
    exact solid_one solid _ fun only text => .bind text fun _ solid =>
      .pure (.around (by decide) solid.unbroken (by decide))
  | some .lastIndex =>
    simp only [compose, found]
    split
    · exact .pure (solid_callOf _ (by decide))
    · exact .error _
  | some .range =>
    simp only [compose, found]
    exact solid_composeRange line solid
  | some .colon =>
    simp only [compose, found]
    split
    · exact .pure (by decide)
    · exact .bind (unbroken_listed solid) fun _ unbroken => .pure (solid_callOf _ unbroken)
  | some .plus =>
    simp only [compose, found]
    split
    case h_1 left right =>
      split
      · exact .pure (solid_number _)
      · exact solid_enclosedPair (solid left (by simp)) (solid right (by simp)) (by decide)
    case h_2 => exact others
  | some .minus =>
    simp only [compose, found]
    split
    case h_1 left right =>
      exact solid_enclosedPair (solid left (by simp)) (solid right (by simp)) (by decide)
    case h_2 => exact others
  | none | some .times | some .divide | some .power | some .elementTimes | some .elementDivide | some .elementPower
  | some .elementTimesAssign | some .elementDivideAssign | some .equal | some .notEqual | some .less
  | some .lessEqual | some .greater | some .greaterEqual =>
    simpa only [compose, found] using others

theorem solid_subscript {target : Rendered} (solid : Yields Solid target) {arguments : List Operand}
    (each : SolidOperands arguments) : Yields Solid (subscript target arguments) := by
  refine .bind solid fun text solid => ?_
  split
  · exact .pure ((solid.append (by decide)).around (by decide) (by decide))
  · exact .bind (unbroken_listed each) fun _ unbroken =>
      .pure ((solid.append (by decide)).around unbroken (by decide))

theorem solid_composeCall (target : Operand) (solid : Yields Solid target.text) {arguments : List Operand}
    (each : SolidOperands arguments) (results : Nat) : Yields Solid (composeCall target arguments results) := by
  refine .bind solid fun callee solid => .bind (unbroken_listed each) fun arguments unbroken => .pure ?_
  have request : Solid (LibraryName.nargout.spelling ++ "=" ++ toString results) :=
    (Solid.append (by decide) (by decide)).append (plain_nat results).solid.unbroken
  have opened : Solid (callee ++ "(") := solid.append (by decide)
  have call : Solid (if results ≤ 1 then callee ++ "(" ++ arguments ++ ")"
      else if arguments.isEmpty then
        callee ++ "(" ++ (LibraryName.nargout.spelling ++ "=" ++ toString results) ++ ")"
      else
        callee ++ "(" ++ arguments ++ "," ++ (LibraryName.nargout.spelling ++ "=" ++ toString results) ++ ")") := by
    split_ifs
    · exact opened.around unbroken (by decide)
    · exact opened.around request.unbroken (by decide)
    · exact (opened.around unbroken (by decide)).around request.unbroken (by decide)
  split
  · exact .around (by decide) call.unbroken (by decide)
  · exact call

theorem solid_composeRows (brackets : Brackets) {rows : List (List Operand)}
    (each : ∀ row ∈ rows, SolidOperands row) : Yields Solid (composeRows brackets rows) := by
  unfold composeRows
  cases brackets with
  | cell =>
    exact .bind (unbroken_bracketed each) fun _ unbroken =>
      .pure (solid_callOf _ (by simp [unbroken]; decide))
  | matrix =>
    dsimp only
    split_ifs with hollow texts
    · exact .pure (solid_callOf _ (by decide))
    · refine solid_joined (by decide) (fun nothing => ?_) fun operand member => ?_
      · obtain ⟨row, inside, found⟩ := List.any_eq_true.mp texts
        have hollow := List.flatten_eq_nil_iff.mp nothing row inside
        simp [hollow] at found
      · obtain ⟨row, inside, member⟩ := List.mem_flatten.mp member
        exact each row inside operand member
    · exact .bind (unbroken_bracketed each) fun _ unbroken =>
        .pure (solid_callOf _ (by simp [unbroken]; decide))

end ArrayLift.Code
