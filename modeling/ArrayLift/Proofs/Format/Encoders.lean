import ArrayLift.Tree.Encoding
import ArrayLift.Proofs.Format.Distinct
import ArrayLift.Proofs.Format.Writing

/-! The encoders of syntax trees write what the format says. -/
namespace ArrayLift

namespace Schema

theorem write_ofNat {least greatest : Int} (value : Nat) :
    write (.whole least greatest) (.ofNat value) = .ofNat value := by
  have natural : ¬(value : Int) < 0 := by omega
  simp [Datum.ofNat, write, Json.ofInt, Json.ofNat, Numeral.ofInt, Numeral.ofNat, natural]

theorem write_word {bits : Nat} (value : Nat) : write (.word bits) (.ofNat value) = .ofNat value :=
  write_ofNat value

theorem write_list {items : Schema} {data : List Datum} :
    write (.list items) (.list data) = .array (data.map items.write) := by
  rw [write, writeItems_eq_map]

theorem write_record {kind : RecordKind} {values : List Datum} :
    write (.record kind) (.record values) = .object (writeFields kind.fields values) := by
  rw [write]

section Lines

variable (line : SourceLine) (name : String) {schema : Schema} {content : Datum}

theorem write_atLine {kind : RecordKind} {choice : ChoiceKind}
    (fields : kind.fields = [⟨"kind", .choice choice, .required⟩, ⟨"line", .line, .required⟩]) :
    write (.record kind) (.atLine line (.choice name content)) =
      .atLine line (write (.choice choice) (.choice name content)) := by
  have value : write .line (.ofNat line.toNat) = .ofNat line.toNat := write_word line.toNat
  rw [Datum.atLine, write_record, fields, writeFields_present Datum.noConfusion, writeFields_present Datum.noConfusion,
    value]
  rfl

theorem write_expr (known : ChoiceKind.exprKind.schemaOf? (some name) = some schema) :
    expr.write (.atLine line (.choice name content)) = .atLine line (.ofAlternative name (schema.write content)) := by
  rw [expr, write_atLine line name rfl, write_content _ name known]

theorem write_stmt (known : ChoiceKind.stmtKind.schemaOf? (some name) = some schema) :
    write (.record .stmt) (.atLine line (.choice name content)) =
      .atLine line (.ofAlternative name (schema.write content)) := by
  rw [write_atLine line name rfl, write_content _ name known]

end Lines
end Schema

open Schema

theorem Role.write_datum : ∀ role : Role, write (.choice .role) role.datum = role.encode
  | .unknown => write_bare .role "unknown" rfl
  | .variable => write_bare .role "variable" rfl
  | .function => write_bare .role "function" rfl

theorem Number.write_datum : ∀ number : Number, write (.choice .number) number.datum = number.encode
  | .int _ => write_content .number "int" rfl
  | .float (.finite ..) | .float (.infinite _) | .float .notANumber => write_content .number "float" rfl

theorem Literal.write_datum (line : SourceLine) (value : Literal) :
    expr.write (.atLine line value.datum) = .atLine line value.encode := by
  cases value with
  | number value =>
    rw [Literal.encode, ← Number.write_datum]
    exact write_expr line "number" rfl
  | text value => exact write_expr line "str" rfl
  | logical value => exact write_expr line "logical" rfl

/-- An identifier is written with its default value and its number if it has them. -/
theorem Ident.write_datumWith (name : String) (init : Option Datum) (role : Role) (reserved : Bool)
    (id : Option IdentId) (present : ∀ datum, init = some datum → datum ≠ .absent) :
    Schema.ident.write (Ident.datumWith name (.ofOption init) role reserved id) =
      Ident.record name (init.map expr.write) role reserved id := by
  have known : role.datum ≠ .absent := by cases role <;> rintro ⟨⟩
  rw [Ident.datumWith, Schema.ident, write_record, RecordKind.fields, writeFields_present Datum.noConfusion]
  have rest : writeFields [⟨"role", .choice .role, .defaulted (.choice "unknown" .absent)⟩,
      ⟨"reserved", .flag, .defaulted (.flag false)⟩, ⟨"id", .word 32, .optional⟩]
      [role.datum, .flag reserved, .ofOption (id.map .ofNat)] =
      ([("role", role.encode), ("reserved", .bool reserved)] ++ Json.optionalField "id" (id.map Json.ofNat)).map
        fun member => (some member.1, member.2) := by
    rw [writeFields_present known, writeFields_present Datum.noConfusion, Role.write_datum]
    cases id with
    | none => rfl
    | some id => rw [Option.map_some, Datum.ofOption, writeFields_present Datum.noConfusion, write_word]; rfl
  cases init with
  | none =>
    rw [Datum.ofOption, writeFields_absent, rest]
    rfl
  | some datum =>
    rw [Datum.ofOption, writeFields_present (present datum rfl), rest]
    rfl

/-- The record of an indexed expression. -/
theorem IndexForm.write_datum (line : SourceLine) (form : IndexForm) {target : Datum} (arguments : List Datum)
    (present : target ≠ .absent) :
    expr.write (.atLine line (form.datum target (.list arguments))) =
      .atLine line (form.encode (expr.write target) (arguments.map expr.write)) := by
  have pair : write (.record .index) (.record [target, .list arguments]) =
      .ofFields [("target", expr.write target), ("args", .array (arguments.map expr.write))] := by
    rw [write_record, RecordKind.fields, writeFields_present present, writeFields_present Datum.noConfusion, exprs,
      write_list]
    rfl
  cases form with
  | apply => exact (write_expr line "apply" rfl).trans (by rw [pair]; rfl)
  | arrayRef => exact (write_expr line "array_ref" rfl).trans (by rw [pair]; rfl)
  | cellRef => exact (write_expr line "cell_ref" rfl).trans (by rw [pair]; rfl)
  | call results =>
    refine (write_expr line "call" rfl).trans ?_
    rw [write_record, RecordKind.fields, writeFields_present present, writeFields_present Datum.noConfusion, exprs,
      write_list, writeFields_present Datum.noConfusion, write_word]
    rfl

mutual
theorem Ident.write_datum : ∀ ident : Ident, Schema.ident.write ident.datum = ident.encode
  | .mk name init role reserved id => by
    cases init with
    | none =>
      exact Ident.write_datumWith name none role reserved id fun _ found => absurd found.symm (Option.some_ne_none _)
    | some init =>
      have present (datum : Datum) (same : some init.datum = some datum) : datum ≠ .absent :=
        Option.some.inj same ▸ init.datum_ne_absent
      refine (Ident.write_datumWith name (some init.datum) role reserved id present).trans ?_
      rw [Option.map_some, Expr.write_datum init, Ident.encode]

theorem Expr.write_datum : ∀ expr : Expr, Schema.expr.write expr.datum = expr.encode
  | .ident line ident => by
    rw [Expr.datum, write_expr line "ident" rfl, Ident.write_datum ident, Expr.encode]
  | .literal line value => Literal.write_datum line value
  | .operation line spelling operands none => by
    rw [Expr.datum, write_expr line "op" rfl, write_record, RecordKind.fields, writeFields_present Datum.noConfusion,
      writeFields_present Datum.noConfusion, exprs, write_list, Expr.write_dataList operands]
    rfl
  | .operation line spelling operands (some result) => by
    rw [Expr.datum, write_expr line "op" rfl, write_record, RecordKind.fields, writeFields_present Datum.noConfusion,
      writeFields_present Datum.noConfusion, writeFields_present result.datum_ne_absent, exprs, write_list,
      Expr.write_dataList operands, Ident.write_datum result]
    rfl
  | .field line base name => by
    rw [Expr.datum, write_expr line "field" rfl, write_record, RecordKind.fields,
      writeFields_present base.datum_ne_absent, writeFields_present Datum.noConfusion, Expr.write_datum base,
      write_content .selector "name" rfl]
    rfl
  | .dynamicField line base selector => by
    rw [Expr.datum, write_expr line "field" rfl, write_record, RecordKind.fields,
      writeFields_present base.datum_ne_absent, writeFields_present Datum.noConfusion, Expr.write_datum base,
      write_content .selector "dynamic" rfl, Expr.write_datum selector]
    rfl
  | .index line form target arguments => by
    rw [Expr.datum, IndexForm.write_datum line form _ target.datum_ne_absent, Expr.write_datum target,
      Expr.write_dataList arguments, Expr.encode]
  | .rows line brackets rows => by
    cases brackets with
    | matrix => rw [Expr.datum, Brackets.datum, write_expr line "matrix" rfl, Expr.write_dataRows rows]; rfl
    | cell => rw [Expr.datum, Brackets.datum, write_expr line "cell_array" rfl, Expr.write_dataRows rows]; rfl
  | .lambda line params body => by
    rw [Expr.datum, write_expr line "lambda" rfl, write_record, RecordKind.fields,
      writeFields_present Datum.noConfusion, writeFields_present body.datum_ne_absent, idents, write_list,
      Ident.write_dataList params, Expr.write_datum body]
    rfl

theorem Expr.write_dataList : ∀ exprs : List Expr, (Expr.dataList exprs).map Schema.expr.write = Expr.encodeList exprs
  | [] => rfl
  | expr :: rest => by
    rw [Expr.dataList, List.map_cons, Expr.write_datum expr, Expr.write_dataList rest, Expr.encodeList]

theorem Expr.write_dataRows : ∀ rows : List (List Expr),
    write (.list exprs) (.list (Expr.dataRows rows)) = .array (Expr.encodeRows rows)
  | [] => rfl
  | row :: rest => by
    have later := Expr.write_dataRows rest
    rw [write_list, Json.array.injEq] at later ⊢
    rw [Expr.dataRows, List.map_cons, exprs, write_list, Expr.write_dataList row, ← exprs, later, Expr.encodeRows]

theorem Ident.write_dataList : ∀ idents : List Ident,
    (Ident.dataList idents).map Schema.ident.write = Ident.encodeList idents
  | [] => rfl
  | ident :: rest => by
    rw [Ident.dataList, List.map_cons, Ident.write_datum ident, Ident.write_dataList rest, Ident.encodeList]
end

theorem Word.write_datum (line : SourceLine) : ∀ word : Word,
    write (.record .stmt) (.atLine line word.datum) = .atLine line (.ofText word.name)
  | .break => (write_atLine line "break" rfl).trans (congrArg _ (write_bare .stmtKind "break" rfl))
  | .continue => (write_atLine line "continue" rfl).trans (congrArg _ (write_bare .stmtKind "continue" rfl))
  | .pass => (write_atLine line "pass" rfl).trans (congrArg _ (write_bare .stmtKind "pass" rfl))
  | .nothing => (write_atLine line "null" rfl).trans (congrArg _ (write_bare .stmtKind "null" rfl))

mutual
theorem Stmt.write_datum : ∀ statement : Stmt, write (.record .stmt) statement.datum = statement.encode
  | .expression line value => by
    rw [Stmt.datum, write_stmt line "expr" rfl, value.write_datum, Stmt.encode]
  | .assign line targets value => by
    rw [Stmt.datum, write_stmt line "let" rfl, write_record, RecordKind.fields, writeFields_present Datum.noConfusion,
      writeFields_present value.datum_ne_absent, exprs, write_list, Expr.write_dataList, value.write_datum]
    rfl
  | .branch line condition thenBody none => by
    rw [Stmt.datum, write_stmt line "if" rfl, write_record, RecordKind.fields,
      writeFields_present condition.datum_ne_absent, writeFields_present Datum.noConfusion, writeFields_absent,
      condition.write_datum, stmts, write_list, Stmt.write_dataList thenBody]
    rfl
  | .branch line condition thenBody (some elseBody) => by
    rw [Stmt.datum, write_stmt line "if" rfl, write_record, RecordKind.fields,
      writeFields_present condition.datum_ne_absent, writeFields_present Datum.noConfusion,
      writeFields_present Datum.noConfusion, condition.write_datum, stmts, write_list, write_list,
      Stmt.write_dataList thenBody, Stmt.write_dataList elseBody]
    rfl
  | .forEach line loopName columns body => by
    rw [Stmt.datum, write_stmt line "for" rfl, write_record, RecordKind.fields,
      writeFields_present loopName.datum_ne_absent, writeFields_present columns.datum_ne_absent,
      writeFields_present Datum.noConfusion, loopName.write_datum, columns.write_datum, stmts, write_list,
      Stmt.write_dataList body]
    rfl
  | .whileLoop line condition body => by
    rw [Stmt.datum, write_stmt line "while" rfl, write_record, RecordKind.fields,
      writeFields_present condition.datum_ne_absent, writeFields_present Datum.noConfusion, condition.write_datum,
      stmts, write_list, Stmt.write_dataList body]
    rfl
  | .attempt line body handler none => by
    rw [Stmt.datum, write_stmt line "try" rfl, write_record, RecordKind.fields, writeFields_present Datum.noConfusion,
      Handler.write_datum handler, writeFields_absent, stmts, write_list, Stmt.write_dataList body, Stmt.encode,
      Json.ofFields, List.map_append, writeFields.eq_def, List.append_nil]
    rfl
  | .attempt line body handler (some finallyBody) => by
    rw [Stmt.datum, write_stmt line "try" rfl, write_record, RecordKind.fields, writeFields_present Datum.noConfusion,
      Handler.write_datum handler, writeFields_present Datum.noConfusion, stmts, write_list, write_list,
      Stmt.write_dataList body, Stmt.write_dataList finallyBody, Stmt.encode, Json.ofFields, List.map_append,
      List.map_append, List.append_assoc]
    rfl
  | .function line name params body => by
    rw [Stmt.datum, write_stmt line "function" rfl, write_record, RecordKind.fields,
      writeFields_present name.datum_ne_absent, writeFields_present Datum.noConfusion,
      writeFields_present Datum.noConfusion, name.write_datum, idents, write_list, Ident.write_dataList, stmts,
      write_list, Stmt.write_dataList body]
    rfl
  | .declare line declaration names => by
    cases declaration with
    | global =>
      rw [Stmt.datum, Declaration.datum, write_stmt line "global" rfl, idents, write_list, Ident.write_dataList]
      rfl
    | persistent =>
      rw [Stmt.datum, Declaration.datum, write_stmt line "persistent" rfl, idents, write_list, Ident.write_dataList]
      rfl
  | .return line none => write_stmt line "return" rfl
  | .return line (some value) => by
    rw [Stmt.datum, Option.map_some, Datum.ofOption, write_stmt line "return" rfl, value.write_datum, Stmt.encode]
  | .word line word => Word.write_datum line word
  | .comment line _ => write_stmt line "comment" rfl

/-- The handler of an attempt is left out if there is none. -/
theorem Handler.write_datum : ∀ (handler : Handler) {fields : List Field} {rest : List Datum},
    writeFields (⟨"catch", .record .handler, .optional⟩ :: fields) (handler.datum :: rest) =
      (handler.encodeField.map fun (name, value) => (some name, value)) ++ writeFields fields rest
  | .absent, _, _ => writeFields_absent
  | .present none body, _, _ => by
    rw [Handler.datum, writeFields_present Datum.noConfusion, write_record, RecordKind.fields, Option.map_none,
      Datum.ofOption, writeFields_absent, writeFields_present Datum.noConfusion, stmts, write_list,
      Stmt.write_dataList body]
    rfl
  | .present (some name) body, _, _ => by
    rw [Handler.datum, writeFields_present Datum.noConfusion, write_record, RecordKind.fields, Option.map_some,
      Datum.ofOption, writeFields_present name.datum_ne_absent, writeFields_present Datum.noConfusion, name.write_datum,
      stmts, write_list, Stmt.write_dataList body]
    rfl

theorem Stmt.write_dataList : ∀ statements : List Stmt,
    (Stmt.dataList statements).map (write (.record .stmt)) = Stmt.encodeList statements
  | [] => rfl
  | statement :: rest => by
    rw [Stmt.dataList, List.map_cons, Stmt.write_datum statement, Stmt.write_dataList rest, Stmt.encodeList]
end

/-- The encoding of a program is what the format writes for it. -/
theorem Program.write_datum (program : Program) : write (.record .program) program.datum = program.encode := by
  rw [Program.datum, write_record, RecordKind.fields, writeFields_present Datum.noConfusion, stmts, write_list,
    Stmt.write_dataList]
  rfl

end ArrayLift
