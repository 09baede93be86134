import ArrayLift.Proofs.Format.Levels

/-! Syntax trees as data of the format: what the decoders return is what the format says that a value spells. -/
namespace ArrayLift

namespace Datum

/-- An option; no value of the format is itself the absence of a value. -/
def ofOption : Option Datum → Datum
  | none => .absent
  | some datum => datum

def ofNat (value : Nat) : Datum :=
  .whole value

/-- What stands at a line. -/
def atLine (line : SourceLine) (kind : Datum) : Datum :=
  .record [kind, ofNat line.toNat]

end Datum

def Role.datum : Role → Datum
  | .unknown => .choice "unknown" .absent
  | .variable => .choice "variable" .absent
  | .function => .choice "function" .absent

def Number.datum : Number → Datum
  | .int value => .choice "int" (.whole value.toInt)
  | .float value => .choice "float" (.float value)

def Literal.datum : Literal → Datum
  | .number value => .choice "number" value.datum
  | .text value => .choice "str" (.text value)
  | .logical value => .choice "logical" (.flag value)

def IndexForm.datum (target arguments : Datum) : IndexForm → Datum
  | .apply => .choice "apply" (.record [target, arguments])
  | .arrayRef => .choice "array_ref" (.record [target, arguments])
  | .cellRef => .choice "cell_ref" (.record [target, arguments])
  | .call results => .choice "call" (.record [target, arguments, .ofNat results])

def Brackets.datum (rows : Datum) : Brackets → Datum
  | .matrix => .choice "matrix" rows
  | .cell => .choice "cell_array" rows

/-- An identifier with its default value. -/
def Ident.datumWith (name : String) (init : Datum) (role : Role) (reserved : Bool) (id : Option IdentId) : Datum :=
  .record [.text name, init, role.datum, .flag reserved, .ofOption (id.map .ofNat)]

mutual
def Ident.datum : Ident → Datum
  | .mk name none role reserved id => Ident.datumWith name .absent role reserved id
  | .mk name (some init) role reserved id => Ident.datumWith name (Expr.datum init) role reserved id

def Expr.datum : Expr → Datum
  | .ident line ident => .atLine line (.choice "ident" (Ident.datum ident))
  | .literal line value => .atLine line value.datum
  | .operation line spelling operands none =>
    .atLine line (.choice "op" (.record [.text spelling, .list (Expr.dataList operands), .absent]))
  | .operation line spelling operands (some result) =>
    .atLine line (.choice "op" (.record [.text spelling, .list (Expr.dataList operands), Ident.datum result]))
  | .field line base name => .atLine line (.choice "field" (.record [Expr.datum base, .choice "name" (.text name)]))
  | .dynamicField line base selector =>
    .atLine line (.choice "field" (.record [Expr.datum base, .choice "dynamic" (Expr.datum selector)]))
  | .index line form target arguments =>
    .atLine line (form.datum (Expr.datum target) (.list (Expr.dataList arguments)))
  | .rows line brackets rows => .atLine line (brackets.datum (.list (Expr.dataRows rows)))
  | .lambda line params body =>
    .atLine line (.choice "lambda" (.record [.list (Ident.dataList params), Expr.datum body]))

def Expr.dataList : List Expr → List Datum
  | [] => []
  | expr :: rest => Expr.datum expr :: Expr.dataList rest

def Expr.dataRows : List (List Expr) → List Datum
  | [] => []
  | row :: rest => .list (Expr.dataList row) :: Expr.dataRows rest

def Ident.dataList : List Ident → List Datum
  | [] => []
  | ident :: rest => Ident.datum ident :: Ident.dataList rest
end

def Word.datum : Word → Datum
  | .break => .choice "break" .absent
  | .continue => .choice "continue" .absent
  | .pass => .choice "pass" .absent
  | .nothing => .choice "null" .absent

def Declaration.datum (names : Datum) : Declaration → Datum
  | .global => .choice "global" names
  | .persistent => .choice "persistent" names

mutual
def Stmt.datum : Stmt → Datum
  | .expression line value => .atLine line (.choice "expr" value.datum)
  | .assign line targets value =>
    .atLine line (.choice "let" (.record [.list (Expr.dataList targets), value.datum]))
  | .branch line condition thenBody none =>
    .atLine line (.choice "if" (.record [condition.datum, .list (Stmt.dataList thenBody), .absent]))
  | .branch line condition thenBody (some elseBody) =>
    .atLine line (.choice "if"
      (.record [condition.datum, .list (Stmt.dataList thenBody), .list (Stmt.dataList elseBody)]))
  | .forEach line loopName columns body =>
    .atLine line (.choice "for" (.record [loopName.datum, columns.datum, .list (Stmt.dataList body)]))
  | .whileLoop line condition body =>
    .atLine line (.choice "while" (.record [condition.datum, .list (Stmt.dataList body)]))
  | .attempt line body handler none =>
    .atLine line (.choice "try" (.record [.list (Stmt.dataList body), Handler.datum handler, .absent]))
  | .attempt line body handler (some finallyBody) =>
    .atLine line (.choice "try"
      (.record [.list (Stmt.dataList body), Handler.datum handler, .list (Stmt.dataList finallyBody)]))
  | .function line name params body =>
    .atLine line (.choice "function"
      (.record [name.datum, .list (Ident.dataList params), .list (Stmt.dataList body)]))
  | .declare line declaration names => .atLine line (declaration.datum (.list (Ident.dataList names)))
  | .return line value => .atLine line (.choice "return" (.ofOption (value.map Expr.datum)))
  | .word line word => .atLine line word.datum
  | .comment line text => .atLine line (.choice "comment" (.text text))

def Handler.datum : Handler → Datum
  | .absent => .absent
  | .present name body => .record [.ofOption (name.map Ident.datum), .list (Stmt.dataList body)]

def Stmt.dataList : List Stmt → List Datum
  | [] => []
  | stmt :: rest => Stmt.datum stmt :: Stmt.dataList rest
end

def Program.datum (program : Program) : Datum :=
  .record [.list (Stmt.dataList program.statements)]

theorem Expr.dataList_eq_map (exprs : List Expr) : Expr.dataList exprs = exprs.map Expr.datum := by
  induction exprs with
  | nil => rfl
  | cons expr rest ih => rw [Expr.dataList, ih, List.map_cons]

theorem Expr.dataRows_eq_map (rows : List (List Expr)) :
    Expr.dataRows rows = rows.map fun row => .list (Expr.dataList row) := by
  induction rows with
  | nil => rfl
  | cons row rest ih => rw [Expr.dataRows, ih, List.map_cons]

theorem Ident.dataList_eq_map (idents : List Ident) : Ident.dataList idents = idents.map Ident.datum := by
  induction idents with
  | nil => rfl
  | cons ident rest ih => rw [Ident.dataList, ih, List.map_cons]

theorem Stmt.dataList_eq_map (statements : List Stmt) : Stmt.dataList statements = statements.map Stmt.datum := by
  induction statements with
  | nil => rfl
  | cons statement rest ih => rw [Stmt.dataList, ih, List.map_cons]

/-! The parts that hold no further parts. -/

theorem Json.intIn?_bounds {value : Json} {least greatest number : Int}
    (found : value.intIn? least greatest = some number) : least ≤ number ∧ number ≤ greatest := by
  cases value with
  | number numeral =>
    obtain ⟨whole, -, bounded⟩ := Option.bind_eq_some_iff.mp found
    split at bounded
    · rename_i within
      cases bounded
      simpa using within
    · cases bounded
  | _ => cases found

namespace Schema

variable {levels : Nat} (value : Json)

theorem read_text : read levels .text value = value.text?.map .text := by
  cases levels <;> rfl

theorem read_flag : read levels .flag value = value.bool?.map .flag := by
  cases levels <;> rfl

theorem read_whole {least greatest : Int} :
    read levels (.whole least greatest) value = (value.intIn? least greatest).map .whole := by
  cases levels <;> rfl

theorem read_word {bits : Nat} : read levels (.word bits) value = (value.word? bits).map .ofNat := by
  rw [word, read_whole, Json.word?]
  cases found : value.intIn? 0 (Nat.pow 2 bits - 1 : Nat) with
  | none => rfl
  | some number => simp [Datum.ofNat, Int.toNat_of_nonneg (Json.intIn?_bounds found).1]

theorem read_line : read levels .line value = (SourceLine.decode value).map fun line => .ofNat line.toNat := by
  rw [line, read_word, SourceLine.decode, Option.map_map]
  cases found : value.word? 32 with
  | none => rfl
  | some number =>
    obtain ⟨whole, bounded, rfl⟩ := Option.map_eq_some_iff.mp found
    have bounded := (Json.intIn?_bounds bounded).2
    have small : whole.toNat < 2 ^ 32 := by
      simp only [Nat.pow_eq] at bounded
      omega
    simp [UInt32.toNat_ofNat_of_lt' small]

/-- A choice without content. -/
theorem read_bare {kind : ChoiceKind} {name : String} (bare : value.alternative? = some (name, none)) :
    read levels (.choice kind) value =
      match kind.payload? name with
      | some .nothing => some (.choice name .absent)
      | _ => none := by
  unfold Json.alternative? at bare
  split at bare
  · cases bare
    cases levels <;> rfl
  · cases bare
  · cases bare

/-- The content of a choice lies one level further in. -/
theorem read_filled {kind : ChoiceKind} {name : String} {content : Json}
    (filled : value.alternative? = some (name, some content)) :
    read (levels + 1) (.choice kind) value =
      ((kind.payload? name).bind fun payload => payload.read (read levels) content).map (.choice name) := by
  unfold Json.alternative? at filled
  split at filled
  · cases filled
  · cases filled
    rfl
  · cases filled

theorem read_zero_filled {kind : ChoiceKind} {name : String} {content : Json}
    (filled : value.alternative? = some (name, some content)) : read 0 (.choice kind) value = none := by
  unfold Json.alternative? at filled
  split at filled
  · cases filled
  · rfl
  · cases filled

theorem read_unfit {kind : ChoiceKind} (unfit : value.alternative? = none) :
    read levels (.choice kind) value = none := by
  match value with
  | .string (some _) | .object [(some _, _)] => cases unfit
  | .string none | .object [] | .object [(none, _)] => cases levels <;> rfl
  | .object ((none, _) :: _ :: _) | .object ((some _, _) :: _ :: _) => cases levels <;> rfl
  | .null | .bool _ | .number _ | .array _ => cases levels <;> rfl

theorem read_role : read levels (.choice .role) value = (Role.decode levels value).map Role.datum := by
  cases alternative : value.alternative? with
  | none => simp [read_unfit value alternative, Role.decode, alternative]
  | some pair =>
    obtain ⟨name, _ | content⟩ := pair
    · have holds : (Json.holdsNothing none && (levels != 0 || (none : Option Json).isNone)) = true := by
        simp [Json.holdsNothing]
      simp only [read_bare value alternative, Role.decode, alternative, Option.bind_eq_bind, Option.bind_some, holds,
        if_true]
      symm
      split
      · rfl
      · rfl
      · rfl
      · simp_all [ChoiceKind.payload?]
    · cases levels with
      | zero =>
        rw [read_zero_filled value alternative]
        cases content <;> simp [Role.decode, alternative, Json.holdsNothing]
      | succ levels =>
        rw [read_filled value alternative]
        simp only [Role.decode, alternative, Option.bind_eq_bind, Option.bind_some, ChoiceKind.payload?]
        split
        · cases content <;> rfl
        · cases content <;> rfl
        · cases content <;> rfl
        · cases content <;> simp_all

/-- If all alternatives hold something, none is read without its content. -/
theorem read_bare_of_filled {kind : ChoiceKind} (filled : ∀ name, kind.payload? name ≠ some .nothing) {name : String}
    (bare : value.alternative? = some (name, none)) : read levels (.choice kind) value = none := by
  rw [read_bare value bare]
  split
  · exact absurd ‹_› (filled name)
  · rfl

/-- Without a level left, choices whose alternatives all hold something are not read. -/
theorem read_zero_of_filled {kind : ChoiceKind} (filled : ∀ name, kind.payload? name ≠ some .nothing) :
    read 0 (.choice kind) value = none :=
  match alternative : value.alternative? with
  | none => read_unfit value alternative
  | some (_, none) => read_bare_of_filled value filled alternative
  | some (_, some _) => read_zero_filled value alternative

theorem filled_number (name : String) : ChoiceKind.number.payload? name ≠ some .nothing := by
  unfold ChoiceKind.payload?
  dsimp only
  split <;> simp

theorem filled_exprKind (name : String) : ChoiceKind.exprKind.payload? name ≠ some .nothing := by
  unfold ChoiceKind.payload?
  dsimp only
  split <;> simp

theorem filled_selector (name : String) : ChoiceKind.selector.payload? name ≠ some .nothing := by
  unfold ChoiceKind.payload?
  dsimp only
  split <;> simp

theorem read_int : (read levels (.whole Int64.minValue.toInt Int64.maxValue.toInt) value).map (.choice "int") =
    (Number.decodeInt value).map Number.datum := by
  rw [read_whole, Number.decodeInt]
  cases found : value.intIn? Int64.minValue.toInt Int64.maxValue.toInt with
  | none => rfl
  | some number =>
    obtain ⟨least, greatest⟩ := Json.intIn?_bounds found
    have kept : (Int64.ofInt number).toInt = number :=
      Int64.toInt_ofInt_of_le least (Int.lt_of_le_of_lt greatest (by decide))
    simp [Number.datum, kept]

theorem read_float :
    (read levels .float value).map (.choice "float") = (Number.decodeFloat value).map Number.datum := by
  cases levels <;> cases value <;> simp [read, readIn, readFlat, Number.decodeFloat] <;> rfl

theorem read_number : read levels (.choice .number) value = (Number.decode levels value).map Number.datum := by
  cases levels with
  | zero => exact read_zero_of_filled value filled_number
  | succ levels =>
    match alternative : value.alternative? with
    | none => simp [read_unfit value alternative, Number.decode, alternative]
    | some (_, none) => simp [read_bare_of_filled value filled_number alternative, Number.decode, alternative]
    | some (name, some content) =>
      simp only [read_filled value alternative, Number.decode, alternative, ChoiceKind.payload?]
      split
      · exact read_int content
      · exact read_float content
      · simp_all

end Schema

theorem Field.read_present {readAs : Schema → Json → Option Datum} {name : String} {schema : Schema}
    (content : Option Json) : Field.read readAs ⟨name, schema, .required⟩ content = content.bind (readAs schema) := by
  unfold Field.read
  split <;> rfl

section Fields

variable {readAs : Schema → Json → Option Datum} {name : String} {schema : Schema} {α : Type}
  {decode : Json → Option α} {datum : α → Datum} (agree : ∀ value, readAs schema value = (decode value).map datum)
include agree

theorem Field.read_required (content : Option Json) :
    Field.read readAs ⟨name, schema, .required⟩ content = (Json.required decode content).map datum := by
  rw [Field.read_present]
  cases content with
  | none => rfl
  | some value => exact agree value

theorem Field.read_optional (content : Option Json) :
    Field.read readAs ⟨name, schema, .optional⟩ content =
      (Json.optional decode content).map fun value => .ofOption (value.map datum) := by
  unfold Field.read
  split
  · rfl
  · rfl
  · rename_i value notNull
    rw [agree, Json.optional]
    · cases decode value <;> rfl
    · rintro ⟨⟩
      exact notNull rfl

theorem Payload.read_nullable (value : Json) :
    Payload.read readAs (.nullable schema) value =
      (Json.optional decode (some value)).map fun value => .ofOption (value.map datum) := by
  cases value with
  | null => rfl
  | _ =>
    rw [Payload.read, agree, Json.optional]
    · rw [Option.map_map]
      rfl
    · rintro ⟨⟩
    · rintro ⟨⟩

theorem Field.read_defaulted {preset : α} {value : Datum} (same : datum preset = value) (content : Option Json) :
    Field.read readAs ⟨name, schema, .defaulted value⟩ content = (Json.defaulted preset decode content).map datum := by
  subst same
  unfold Field.read
  split
  · rfl
  · exact agree _
  · exact agree _

theorem Schema.map_items (value : Json) :
    (value.items? (readAs schema)).map Datum.list = (value.items? decode).map fun items => .list (items.map datum) := by
  cases value with
  | array items =>
    have each : items.mapM (readAs schema) = (items.mapM decode).map (List.map datum) := by
      induction items with
      | nil => rfl
      | cons item rest ih =>
        rw [List.mapM_cons, List.mapM_cons, agree, ih]
        cases decode item <;> cases rest.mapM decode <;> rfl
    rw [Json.items?, Json.items?, each, Option.map_map]
    rfl
  | _ => rfl

end Fields

end ArrayLift
