import ArrayLift.Proofs.Format.Trees

/-! The decoders of syntax trees return what the format says. -/
namespace ArrayLift

namespace Expr

open Schema

/-- Within a number of levels, the decoders of expressions return what the format says. -/
structure Agrees (levels : Nat) : Prop where
  ident (value : Json) : read levels .ident value = (Ident.decode levels value).map Ident.datum
  expr (value : Json) : read levels .expr value = (Expr.decode levels value).map Expr.datum
  kind (line : SourceLine) (value : Json) :
    (read levels (.choice .exprKind) value).map (.atLine line) = (Expr.decodeKind levels line value).map Expr.datum
  operation (line : SourceLine) (value : Json) :
    (read levels (.record .operation) value).map (fun datum => .atLine line (.choice "op" datum)) =
      (Expr.decodeOperation levels line value).map Expr.datum
  field (line : SourceLine) (value : Json) :
    (read levels (.record .field) value).map (fun datum => .atLine line (.choice "field" datum)) =
      (Expr.decodeField levels line value).map Expr.datum
  selector (line : SourceLine) (base : Expr) (value : Json) :
    (read levels (.choice .selector) value).map
        (fun datum => .atLine line (.choice "field" (.record [base.datum, datum]))) =
      (Expr.decodeSelector levels line base value).map Expr.datum
  index (line : SourceLine) (form : IndexForm) (value : Json) (name : String)
    (named : ∀ target arguments, form.datum target arguments = .choice name (.record [target, arguments])) :
    (read levels (.record .index) value).map (fun datum => .atLine line (.choice name datum)) =
      (Expr.decodeIndex levels line form value).map Expr.datum
  call (line : SourceLine) (value : Json) :
    (read levels (.record .call) value).map (fun datum => .atLine line (.choice "call" datum)) =
      (Expr.decodeCall levels line value).map Expr.datum
  lambda (line : SourceLine) (value : Json) :
    (read levels (.record .lambda) value).map (fun datum => .atLine line (.choice "lambda" datum)) =
      (Expr.decodeLambda levels line value).map Expr.datum
  exprs (value : Json) :
    read levels .exprs value = (Expr.decodeList levels value).map fun exprs => .list (Expr.dataList exprs)
  rows (value : Json) :
    read levels (.list .exprs) value = (Expr.decodeRows levels value).map fun rows => .list (Expr.dataRows rows)
  idents (value : Json) :
    read levels .idents value = (Ident.decodeList levels value).map fun idents => .list (Ident.dataList idents)

theorem agrees_zero : Agrees 0 where
  ident _ := rfl
  expr _ := rfl
  kind _ value := by rw [read_zero_of_filled value filled_exprKind]; rfl
  operation _ _ := rfl
  field _ _ := rfl
  selector _ _ value := by rw [read_zero_of_filled value filled_selector]; rfl
  index _ _ _ _ _ := rfl
  call _ _ := rfl
  lambda _ _ := rfl
  exprs _ := rfl
  rows _ := rfl
  idents _ := rfl

section Step

variable {levels : Nat} (agrees : Agrees levels) (value : Json)
include agrees

theorem ident_succ : Schema.read (levels + 1) .ident value = (Ident.decode (levels + 1) value).map Ident.datum := by
  simp only [Schema.ident, Schema.read, readIn, Ident.decode, RecordKind.names, RecordKind.fields, List.map]
  cases value.record? ["name", "init", "role", "reserved", "id"] with
  | none => rfl
  | some content =>
    simp only [Field.readAll, Option.bind_some, Option.bind_eq_bind, Field.read_required read_text,
      Field.read_optional agrees.expr,
      Field.read_defaulted (@read_role levels) (show Role.datum .unknown = .choice "unknown" .absent from rfl),
      Field.read_defaulted (@read_flag levels) (show Datum.flag false = .flag false from rfl),
      Field.read_optional fun value => @read_word levels value 32]
    cases Json.required Json.text? (content "name") <;>
      rcases Json.optional (Expr.decode levels) (content "init") with _ | _ | _ <;>
      cases Json.defaulted Role.unknown (Role.decode levels) (content "role") <;>
      cases Json.defaulted false Json.bool? (content "reserved") <;>
      cases Json.optional (Json.word? 32) (content "id") <;> rfl

theorem expr_succ : Schema.read (levels + 1) .expr value = (Expr.decode (levels + 1) value).map Expr.datum := by
  simp only [Schema.expr, Schema.read, readIn, Expr.decode, RecordKind.names, RecordKind.fields, List.map]
  cases value.record? ["kind", "line"] with
  | none => rfl
  | some content =>
    simp only [Field.readAll, Option.bind_some, Option.bind_eq_bind, Field.read_required read_line, Field.read_present]
    rcases Json.required SourceLine.decode (content "line") with _ | line
    · cases (content "kind").bind (Schema.read levels (.choice .exprKind)) <;> rfl
    · cases content "kind" with
      | none => rfl
      | some kind =>
        simp only [Option.bind_some, ← agrees.kind]
        cases Schema.read levels (.choice .exprKind) kind <;> rfl

theorem operation_succ (line : SourceLine) :
    (Schema.read (levels + 1) (.record .operation) value).map (fun datum => .atLine line (.choice "op" datum)) =
      (Expr.decodeOperation (levels + 1) line value).map Expr.datum := by
  simp only [Schema.read, readIn, Expr.decodeOperation, RecordKind.names, RecordKind.fields, List.map]
  cases value.record? ["op", "args", "ret"] with
  | none => rfl
  | some content =>
    simp only [Field.readAll, Option.bind_some, Option.bind_eq_bind, Field.read_required read_text,
      Field.read_required agrees.exprs, Field.read_optional agrees.ident]
    cases Json.required Json.text? (content "op") <;> cases Json.required (Expr.decodeList levels) (content "args") <;>
      rcases Json.optional (Ident.decode levels) (content "ret") with _ | _ | _ <;> rfl

theorem field_succ (line : SourceLine) :
    (Schema.read (levels + 1) (.record .field) value).map (fun datum => .atLine line (.choice "field" datum)) =
      (Expr.decodeField (levels + 1) line value).map Expr.datum := by
  simp only [Schema.read, readIn, Expr.decodeField, RecordKind.names, RecordKind.fields, List.map]
  cases value.record? ["object", "selector"] with
  | none => rfl
  | some content =>
    simp only [Field.readAll, Option.bind_some, Option.bind_eq_bind, Field.read_required agrees.expr,
      Field.read_present]
    rcases Json.required (Expr.decode levels) (content "object") with _ | base
    · rfl
    · cases content "selector" with
      | none => rfl
      | some selector =>
        simp only [Option.bind_some, ← agrees.selector, Option.map_some]
        cases Schema.read levels (.choice .selector) selector <;> rfl

theorem selector_succ (line : SourceLine) (base : Expr) :
    (Schema.read (levels + 1) (.choice .selector) value).map
        (fun datum => .atLine line (.choice "field" (.record [base.datum, datum]))) =
      (Expr.decodeSelector (levels + 1) line base value).map Expr.datum := by
  match alternative : value.alternative? with
  | none => simp [read_unfit value alternative, decodeSelector, alternative]
  | some (_, none) => simp [read_bare_of_filled value filled_selector alternative, decodeSelector, alternative]
  | some (name, some content) =>
    simp only [read_filled value alternative, decodeSelector, alternative, ChoiceKind.payload?]
    split
    · simp only [Option.bind_some, Payload.read, read_text]
      cases content.text? <;> rfl
    · simp only [Option.bind_some, Payload.read, agrees.expr]
      cases Expr.decode levels content <;> rfl
    · simp_all

theorem index_succ (line : SourceLine) (form : IndexForm) (name : String)
    (named : ∀ target arguments, form.datum target arguments = .choice name (.record [target, arguments])) :
    (Schema.read (levels + 1) (.record .index) value).map (fun datum => .atLine line (.choice name datum)) =
      (Expr.decodeIndex (levels + 1) line form value).map Expr.datum := by
  simp only [Schema.read, readIn, Expr.decodeIndex, RecordKind.names, RecordKind.fields, List.map]
  cases value.record? ["target", "args"] with
  | none => rfl
  | some content =>
    simp only [Field.readAll, Option.bind_some, Option.bind_eq_bind, Field.read_required agrees.expr,
      Field.read_required agrees.exprs]
    cases Json.required (Expr.decode levels) (content "target") <;>
      cases Json.required (Expr.decodeList levels) (content "args") <;> simp [Expr.datum, named]

theorem call_succ (line : SourceLine) :
    (Schema.read (levels + 1) (.record .call) value).map (fun datum => .atLine line (.choice "call" datum)) =
      (Expr.decodeCall (levels + 1) line value).map Expr.datum := by
  simp only [Schema.read, readIn, Expr.decodeCall, RecordKind.names, RecordKind.fields, List.map]
  cases value.record? ["target", "args", "nargout"] with
  | none => rfl
  | some content =>
    simp only [Field.readAll, Option.bind_some, Option.bind_eq_bind, Field.read_required agrees.expr,
      Field.read_required agrees.exprs,
      Field.read_defaulted (fun value => @read_word levels value 64) (show Datum.ofNat 1 = .whole 1 from rfl)]
    cases Json.required (Expr.decode levels) (content "target") <;>
      cases Json.required (Expr.decodeList levels) (content "args") <;>
      cases Json.defaulted 1 (Json.word? 64) (content "nargout") <;> rfl

theorem lambda_succ (line : SourceLine) :
    (Schema.read (levels + 1) (.record .lambda) value).map (fun datum => .atLine line (.choice "lambda" datum)) =
      (Expr.decodeLambda (levels + 1) line value).map Expr.datum := by
  simp only [Schema.read, readIn, Expr.decodeLambda, RecordKind.names, RecordKind.fields, List.map]
  cases value.record? ["params", "body"] with
  | none => rfl
  | some content =>
    simp only [Field.readAll, Option.bind_some, Option.bind_eq_bind, Field.read_required agrees.idents,
      Field.read_required agrees.expr]
    cases Json.required (Ident.decodeList levels) (content "params") <;>
      cases Json.required (Expr.decode levels) (content "body") <;> rfl

theorem kind_succ (line : SourceLine) :
    (Schema.read (levels + 1) (.choice .exprKind) value).map (.atLine line) =
      (Expr.decodeKind (levels + 1) line value).map Expr.datum := by
  match alternative : value.alternative? with
  | none => simp [read_unfit value alternative, decodeKind, alternative]
  | some (_, none) => simp [read_bare_of_filled value filled_exprKind alternative, decodeKind, alternative]
  | some (name, some content) =>
    simp only [read_filled value alternative, decodeKind, alternative, ChoiceKind.payload?]
    split <;> simp only [Option.bind_some, Payload.read]
    · rw [agrees.ident]
      cases Ident.decode levels content <;> rfl
    · rw [read_number]
      cases Number.decode levels content <;> rfl
    · rw [read_text]
      cases content.text? <;> rfl
    · rw [read_flag]
      cases content.bool? <;> rfl
    · rw [← agrees.operation, Option.map_map]
      rfl
    · rw [← agrees.field, Option.map_map]
      rfl
    · rw [← agrees.index line .apply content "apply" fun _ _ => rfl, Option.map_map]
      rfl
    · rw [← agrees.index line .arrayRef content "array_ref" fun _ _ => rfl, Option.map_map]
      rfl
    · rw [← agrees.index line .cellRef content "cell_ref" fun _ _ => rfl, Option.map_map]
      rfl
    · rw [← agrees.call, Option.map_map]
      rfl
    · rw [agrees.rows]
      cases decodeRows levels content <;> rfl
    · rw [agrees.rows]
      cases decodeRows levels content <;> rfl
    · rw [← agrees.lambda, Option.map_map]
      rfl
    · simp_all

theorem agrees_succ : Agrees (levels + 1) where
  ident value := ident_succ agrees value
  expr value := expr_succ agrees value
  kind line value := kind_succ agrees value line
  operation line value := operation_succ agrees value line
  field line value := field_succ agrees value line
  selector line base value := selector_succ agrees value line base
  index line form value name named := index_succ agrees value line form name named
  call line value := call_succ agrees value line
  lambda line value := lambda_succ agrees value line
  exprs value := by
    rw [exprs, Schema.read, readIn, map_items agrees.expr, decodeList]
    simp only [dataList_eq_map]
  rows value := by
    rw [Schema.read, readIn, map_items agrees.exprs, decodeRows]
    simp only [dataRows_eq_map]
  idents value := by
    rw [idents, Schema.read, readIn, map_items agrees.ident, Ident.decodeList]
    simp only [Ident.dataList_eq_map]

end Step

/-- The decoders of expressions return what the format says, whatever the limit. -/
theorem agrees : ∀ levels, Agrees levels
  | 0 => agrees_zero
  | levels + 1 => agrees_succ (agrees levels)

end Expr

namespace Stmt

open Schema

/-- Within a number of levels, the decoders of statements return what the format says. -/
structure Agrees (levels : Nat) : Prop where
  stmt (value : Json) : read levels (.record .stmt) value = (Stmt.decode levels value).map Stmt.datum
  kind (line : SourceLine) (value : Json) :
    (read levels (.choice .stmtKind) value).map (.atLine line) = (Stmt.decodeKind levels line value).map Stmt.datum
  assign (line : SourceLine) (value : Json) :
    (read levels (.record .assign) value).map (fun datum => .atLine line (.choice "let" datum)) =
      (Stmt.decodeAssign levels line value).map Stmt.datum
  branch (line : SourceLine) (value : Json) :
    (read levels (.record .branch) value).map (fun datum => .atLine line (.choice "if" datum)) =
      (Stmt.decodeBranch levels line value).map Stmt.datum
  forEach (line : SourceLine) (value : Json) :
    (read levels (.record .forEach) value).map (fun datum => .atLine line (.choice "for" datum)) =
      (Stmt.decodeFor levels line value).map Stmt.datum
  whileLoop (line : SourceLine) (value : Json) :
    (read levels (.record .whileLoop) value).map (fun datum => .atLine line (.choice "while" datum)) =
      (Stmt.decodeWhile levels line value).map Stmt.datum
  attempt (line : SourceLine) (value : Json) :
    (read levels (.record .attempt) value).map (fun datum => .atLine line (.choice "try" datum)) =
      (Stmt.decodeTry levels line value).map Stmt.datum
  handler (value : Json) : read levels (.record .handler) value = (Handler.decode levels value).map Handler.datum
  function (line : SourceLine) (value : Json) :
    (read levels (.record .function) value).map (fun datum => .atLine line (.choice "function" datum)) =
      (Stmt.decodeFunction levels line value).map Stmt.datum
  stmts (value : Json) :
    read levels .stmts value = (Stmt.decodeList levels value).map fun statements => .list (Stmt.dataList statements)

/-- A statement of one word, spelled without content. -/
theorem kind_bare {levels : Nat} {value : Json} {name : String} (bare : value.alternative? = some (name, none))
    (line : SourceLine) : (read levels (.choice .stmtKind) value).map (.atLine line) =
      ((Word.ofName? name).map (Stmt.word line)).map Stmt.datum := by
  rw [read_bare value bare]
  unfold Word.ofName?
  symm
  split
  · rfl
  · rfl
  · rfl
  · rfl
  · unfold ChoiceKind.payload?
    dsimp only
    split
    · split at * <;> simp_all
    · rfl

theorem agrees_zero : Agrees 0 where
  stmt _ := rfl
  kind line value :=
    match alternative : value.alternative? with
    | none => by simp [read_unfit value alternative, decodeKind, alternative]
    | some (name, none) => by simpa only [decodeKind, alternative] using kind_bare alternative line
    | some (_, some _) => by simp [read_zero_filled value alternative, decodeKind, alternative]
  assign _ _ := rfl
  branch _ _ := rfl
  forEach _ _ := rfl
  whileLoop _ _ := rfl
  attempt _ _ := rfl
  handler _ := rfl
  function _ _ := rfl
  stmts _ := rfl

section Step

variable {levels : Nat} (agrees : Agrees levels) (value : Json)
include agrees

theorem stmt_succ :
    Schema.read (levels + 1) (.record .stmt) value = (Stmt.decode (levels + 1) value).map Stmt.datum := by
  simp only [Schema.read, readIn, Stmt.decode, RecordKind.names, RecordKind.fields, List.map]
  cases value.record? ["kind", "line"] with
  | none => rfl
  | some content =>
    simp only [Field.readAll, Option.bind_some, Option.bind_eq_bind, Field.read_required read_line, Field.read_present]
    rcases Json.required SourceLine.decode (content "line") with _ | line
    · cases (content "kind").bind (Schema.read levels (.choice .stmtKind)) <;> rfl
    · cases content "kind" with
      | none => rfl
      | some kind =>
        simp only [Option.bind_some, ← agrees.kind]
        cases Schema.read levels (.choice .stmtKind) kind <;> rfl

omit agrees in
theorem assign_succ (line : SourceLine) :
    (Schema.read (levels + 1) (.record .assign) value).map (fun datum => .atLine line (.choice "let" datum)) =
      (Stmt.decodeAssign (levels + 1) line value).map Stmt.datum := by
  simp only [Schema.read, readIn, Stmt.decodeAssign, RecordKind.names, RecordKind.fields, List.map]
  cases value.record? ["targets", "value"] with
  | none => rfl
  | some content =>
    simp only [Field.readAll, Option.bind_some, Option.bind_eq_bind, Field.read_required (Expr.agrees levels).exprs,
      Field.read_required (Expr.agrees levels).expr]
    cases Json.required (Expr.decodeList levels) (content "targets") <;>
      cases Json.required (Expr.decode levels) (content "value") <;> rfl

theorem branch_succ (line : SourceLine) :
    (Schema.read (levels + 1) (.record .branch) value).map (fun datum => .atLine line (.choice "if" datum)) =
      (Stmt.decodeBranch (levels + 1) line value).map Stmt.datum := by
  simp only [Schema.read, readIn, Stmt.decodeBranch, RecordKind.names, RecordKind.fields, List.map]
  cases value.record? ["cond", "then_body", "else_body"] with
  | none => rfl
  | some content =>
    simp only [Field.readAll, Option.bind_some, Option.bind_eq_bind, Field.read_required (Expr.agrees levels).expr,
      Field.read_required agrees.stmts, Field.read_optional agrees.stmts]
    cases Json.required (Expr.decode levels) (content "cond") <;>
      cases Json.required (Stmt.decodeList levels) (content "then_body") <;>
      rcases Json.optional (Stmt.decodeList levels) (content "else_body") with _ | _ | _ <;> rfl

theorem forEach_succ (line : SourceLine) :
    (Schema.read (levels + 1) (.record .forEach) value).map (fun datum => .atLine line (.choice "for" datum)) =
      (Stmt.decodeFor (levels + 1) line value).map Stmt.datum := by
  simp only [Schema.read, readIn, Stmt.decodeFor, RecordKind.names, RecordKind.fields, List.map]
  cases value.record? ["var", "iter", "body"] with
  | none => rfl
  | some content =>
    simp only [Field.readAll, Option.bind_some, Option.bind_eq_bind, Field.read_required (Expr.agrees levels).ident,
      Field.read_required (Expr.agrees levels).expr, Field.read_required agrees.stmts]
    cases Json.required (Ident.decode levels) (content "var") <;>
      cases Json.required (Expr.decode levels) (content "iter") <;>
      cases Json.required (Stmt.decodeList levels) (content "body") <;> rfl

theorem whileLoop_succ (line : SourceLine) :
    (Schema.read (levels + 1) (.record .whileLoop) value).map (fun datum => .atLine line (.choice "while" datum)) =
      (Stmt.decodeWhile (levels + 1) line value).map Stmt.datum := by
  simp only [Schema.read, readIn, Stmt.decodeWhile, RecordKind.names, RecordKind.fields, List.map]
  cases value.record? ["cond", "body"] with
  | none => rfl
  | some content =>
    simp only [Field.readAll, Option.bind_some, Option.bind_eq_bind, Field.read_required (Expr.agrees levels).expr,
      Field.read_required agrees.stmts]
    cases Json.required (Expr.decode levels) (content "cond") <;>
      cases Json.required (Stmt.decodeList levels) (content "body") <;> rfl

theorem attempt_succ (line : SourceLine) :
    (Schema.read (levels + 1) (.record .attempt) value).map (fun datum => .atLine line (.choice "try" datum)) =
      (Stmt.decodeTry (levels + 1) line value).map Stmt.datum := by
  simp only [Schema.read, readIn, Stmt.decodeTry, RecordKind.names, RecordKind.fields, List.map]
  cases value.record? ["body", "catch", "finally_body"] with
  | none => rfl
  | some content =>
    simp only [Field.readAll, Option.bind_some, Option.bind_eq_bind, Field.read_required agrees.stmts,
      Field.read_optional agrees.handler, Field.read_optional agrees.stmts]
    cases Json.required (Stmt.decodeList levels) (content "body") <;>
      rcases Json.optional (Handler.decode levels) (content "catch") with _ | _ | _ <;>
      rcases Json.optional (Stmt.decodeList levels) (content "finally_body") with _ | _ | _ <;> rfl

theorem handler_succ :
    Schema.read (levels + 1) (.record .handler) value = (Handler.decode (levels + 1) value).map Handler.datum := by
  simp only [Schema.read, readIn, Handler.decode, RecordKind.names, RecordKind.fields, List.map]
  cases value.record? ["ident", "body"] with
  | none => rfl
  | some content =>
    simp only [Field.readAll, Option.bind_some, Option.bind_eq_bind, Field.read_optional (Expr.agrees levels).ident,
      Field.read_required agrees.stmts]
    cases Json.optional (Ident.decode levels) (content "ident") <;>
      cases Json.required (Stmt.decodeList levels) (content "body") <;> rfl

theorem function_succ (line : SourceLine) :
    (Schema.read (levels + 1) (.record .function) value).map (fun datum => .atLine line (.choice "function" datum)) =
      (Stmt.decodeFunction (levels + 1) line value).map Stmt.datum := by
  simp only [Schema.read, readIn, Stmt.decodeFunction, RecordKind.names, RecordKind.fields, List.map]
  cases value.record? ["name", "params", "body"] with
  | none => rfl
  | some content =>
    simp only [Field.readAll, Option.bind_some, Option.bind_eq_bind, Field.read_required (Expr.agrees levels).ident,
      Field.read_required (Expr.agrees levels).idents,
      Field.read_defaulted agrees.stmts (show Datum.list (Stmt.dataList []) = .list [] from rfl)]
    cases Json.required (Ident.decode levels) (content "name") <;>
      cases Json.required (Ident.decodeList levels) (content "params") <;>
      cases Json.defaulted [] (Stmt.decodeList levels) (content "body") <;> rfl

theorem kind_succ (line : SourceLine) :
    (Schema.read (levels + 1) (.choice .stmtKind) value).map (.atLine line) =
      (Stmt.decodeKind (levels + 1) line value).map Stmt.datum := by
  match alternative : value.alternative? with
  | none => simp [read_unfit value alternative, decodeKind, alternative]
  | some (name, none) => simpa only [decodeKind, alternative] using kind_bare alternative line
  | some (name, some content) =>
    simp only [read_filled value alternative, decodeKind, alternative, ChoiceKind.payload?]
    split <;> simp only [Option.bind_some, Payload.read]
    · rw [(Expr.agrees levels).expr]
      cases Expr.decode levels content <;> rfl
    · rw [← agrees.assign, Option.map_map]
      rfl
    · rw [← agrees.branch, Option.map_map]
      rfl
    · rw [← agrees.forEach, Option.map_map]
      rfl
    · rw [← agrees.whileLoop, Option.map_map]
      rfl
    · rw [← agrees.attempt, Option.map_map]
      rfl
    · rw [← agrees.function, Option.map_map]
      rfl
    · rw [(Expr.agrees levels).idents]
      cases Ident.decodeList levels content <;> rfl
    · rw [(Expr.agrees levels).idents]
      cases Ident.decodeList levels content <;> rfl
    · have returned := Payload.read_nullable (Expr.agrees levels).expr content
      simp only [Payload.read] at returned
      rw [returned]
      rcases Json.optional (Expr.decode levels) (some content) with _ | _ | _ <;> rfl
    · cases content <;> rfl
    · cases content <;> rfl
    · cases content <;> rfl
    · cases content <;> rfl
    · rw [read_text]
      cases content.text? <;> rfl
    · rename_i known
      split <;> simp_all [Word.ofName?]

theorem agrees_succ : Agrees (levels + 1) where
  stmt value := stmt_succ agrees value
  kind line value := kind_succ agrees value line
  assign line value := assign_succ value line
  branch line value := branch_succ agrees value line
  forEach line value := forEach_succ agrees value line
  whileLoop line value := whileLoop_succ agrees value line
  attempt line value := attempt_succ agrees value line
  handler value := handler_succ agrees value
  function line value := function_succ agrees value line
  stmts value := by
    rw [stmts, Schema.read, readIn, map_items agrees.stmt, decodeList]
    simp only [dataList_eq_map]

end Step

/-- The decoders of statements return what the format says, whatever the limit. -/
theorem agrees : ∀ levels, Agrees levels
  | 0 => agrees_zero
  | levels + 1 => agrees_succ (agrees levels)

end Stmt

namespace Program

/-- The decoder of programs returns what the format says, whatever the limit. -/
theorem read_datum : ∀ (levels : Nat) (value : Json),
    Schema.read levels (.record .program) value = (Program.decode levels value).map Program.datum
  | 0, _ => rfl
  | levels + 1, value => by
    simp only [Schema.read, Schema.readIn, Program.decode, RecordKind.names, RecordKind.fields, List.map]
    cases value.record? ["statements"] with
    | none => rfl
    | some content =>
      simp only [Field.readAll, Option.bind_some, Option.bind_eq_bind,
        Field.read_required (Stmt.agrees levels).stmts]
      cases Json.required (Stmt.decodeList levels) (content "statements") <;> rfl

end Program
end ArrayLift
