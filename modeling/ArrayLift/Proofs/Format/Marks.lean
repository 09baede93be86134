import ArrayLift.Proofs.Annotation.Unmarked
import ArrayLift.Proofs.Format.Encoders
import ArrayLift.Proofs.Format.Rewriting

/-! What resolution writes into a tree takes no level of its encoding: a tree and the same tree without identities,
roles, reserved flags and decided forms are written as deep, with as many records and the same floating-point
numbers. -/
namespace ArrayLift

/-- Data that are written equally deep, with as many records and the same floating-point numbers. -/
structure Schema.Alike (schema : Schema) (one other : Datum) : Prop where
  depth : (schema.write one).depth = (schema.write other).depth
  floats : one.floats = other.floats
  records : one.records = other.records

/-- The same of the fields of a record. -/
structure Schema.AlikeFields (fields : List Field) (one other : List Datum) : Prop where
  depth : Json.depthMembers (writeFields fields one) = Json.depthMembers (writeFields fields other)
  floats : Datum.floatsIn one = Datum.floatsIn other
  records : Datum.recordsIn one = Datum.recordsIn other

namespace Schema

theorem Alike.refl (schema : Schema) (datum : Datum) : Alike schema datum datum := ⟨rfl, rfl, rfl⟩

section Parts

variable {one other : Datum} {rest rest' : List Datum}

theorem Alike.nil (items : Schema) : Alike (.list items) (.list []) (.list []) := .refl _ _

theorem Alike.cons {items : Schema} (first : Alike items one other)
    (later : Alike (.list items) (.list rest) (.list rest')) :
    Alike (.list items) (.list (one :: rest)) (.list (other :: rest')) := by
  refine ⟨?_, congrArg₂ _ first.floats later.floats, congrArg₂ _ first.records later.records⟩
  have deep := later.depth
  simp only [write, writeItems, Json.depth, Json.depthItems, Nat.add_right_cancel_iff] at deep ⊢
  rw [first.depth, deep]

theorem AlikeFields.nil : AlikeFields [] [] [] := ⟨rfl, rfl, rfl⟩

/-- A field that is left out takes no level, as null would. -/
theorem depthMembers_writeFields (field : Field) (fields : List Field) (value : Datum) (rest : List Datum) :
    Json.depthMembers (writeFields (field :: fields) (value :: rest)) =
      max (field.schema.write value).depth (Json.depthMembers (writeFields fields rest)) := by
  by_cases missing : value = .absent
  · rw [missing, writeFields_absent, write_absent]
    exact (Nat.zero_max _).symm
  · rw [writeFields_present missing]
    rfl

theorem AlikeFields.cons {field : Field} {fields : List Field} (first : Alike field.schema one other)
    (later : AlikeFields fields rest rest') : AlikeFields (field :: fields) (one :: rest) (other :: rest') := by
  refine ⟨?_, congrArg₂ _ first.floats later.floats, congrArg₂ _ first.records later.records⟩
  rw [depthMembers_writeFields, depthMembers_writeFields, first.depth, later.depth]

theorem Alike.record {kind : RecordKind} (fields : AlikeFields kind.fields rest rest') :
    Alike (.record kind) (.record rest) (.record rest') := by
  refine ⟨?_, fields.floats, congrArg Nat.succ fields.records⟩
  rw [write_record, write_record]
  exact congrArg Nat.succ fields.depth

/-- Alternatives of different names may be alike. -/
theorem Alike.alternatives {kind : ChoiceKind} (name name' : String) {schema schema' : Schema}
    (known : kind.schemaOf? (some name) = some schema) (known' : kind.schemaOf? (some name') = some schema')
    (depth : (schema.write one).depth = (schema'.write other).depth) (floats : one.floats = other.floats)
    (records : one.records = other.records) : Alike (.choice kind) (.choice name one) (.choice name' other) := by
  refine ⟨?_, floats, records⟩
  rw [write_content kind name known, write_content kind name' known']
  simp only [Json.ofAlternative, Json.ofFields, List.map_cons, List.map_nil, Json.depth, Json.depthMembers, depth]

theorem Alike.choice {kind : ChoiceKind} (name : String) {schema : Schema}
    (known : kind.schemaOf? (some name) = some schema) (content : Alike schema one other) :
    Alike (.choice kind) (.choice name one) (.choice name other) :=
  .alternatives name name known known content.depth content.floats content.records

theorem Alike.atLine {kind : RecordKind} {choice : ChoiceKind}
    (fields : kind.fields = [⟨"kind", .choice choice, .required⟩, ⟨"line", .line, .required⟩]) (line : SourceLine)
    (content : Alike (.choice choice) one other) : Alike (.record kind) (.atLine line one) (.atLine line other) := by
  refine .record ?_
  rw [fields]
  exact .cons content (.cons (.refl _ _) .nil)

theorem Alike.expr {name : String} {schema : Schema} (line : SourceLine)
    (known : ChoiceKind.exprKind.schemaOf? (some name) = some schema) (content : Alike schema one other) :
    Alike .expr (.atLine line (.choice name one)) (.atLine line (.choice name other)) :=
  .atLine rfl line (.choice name known content)

theorem Alike.stmt {name : String} {schema : Schema} (line : SourceLine)
    (known : ChoiceKind.stmtKind.schemaOf? (some name) = some schema) (content : Alike schema one other) :
    Alike (.record .stmt) (.atLine line (.choice name one)) (.atLine line (.choice name other)) :=
  .atLine rfl line (.choice name known content)

end Parts
end Schema

open Schema

/-- Roles are written as their names. -/
theorem Role.alike (one other : Role) : Alike (.choice .role) one.datum other.datum := by
  refine ⟨?_, ?_, ?_⟩
  · rw [Role.write_datum, Role.write_datum]
    rfl
  · cases one <;> cases other <;> rfl
  · cases one <;> cases other <;> rfl

/-- The annotations of an identifier take no level. -/
theorem Ident.alike_datumWith (name : String) {init init' : Datum} (role role' : Role) (reserved reserved' : Bool)
    (id id' : Option IdentId) (inner : Alike .expr init init') :
    Alike .ident (Ident.datumWith name init role reserved id) (Ident.datumWith name init' role' reserved' id') := by
  have flag : Alike .flag (.flag reserved) (.flag reserved') := ⟨rfl, rfl, rfl⟩
  have number : Alike (.word 32) (.ofOption (id.map .ofNat)) (.ofOption (id'.map .ofNat)) := by
    cases id <;> cases id' <;> exact ⟨rfl, rfl, rfl⟩
  exact .record (.cons (.refl _ _) (.cons inner (.cons (role.alike role') (.cons flag (.cons number .nil)))))

/-- Whether something in parentheses is indexed or called takes no level. -/
theorem IndexForm.alike_unmarked (line : SourceLine) (form : IndexForm) {target target' arguments arguments' : Datum}
    (first : Alike .expr target target') (last : Alike .exprs arguments arguments') :
    Alike .expr (.atLine line (form.unmarked.datum target arguments))
      (.atLine line (form.datum target' arguments')) := by
  have pair : Alike (.record .index) (.record [target, arguments]) (.record [target', arguments']) :=
    .record (.cons first (.cons last .nil))
  cases form with
  | apply => exact .atLine rfl line (.choice "apply" rfl pair)
  | arrayRef =>
    exact .atLine rfl line (.alternatives "apply" "array_ref" rfl rfl pair.depth pair.floats pair.records)
  | cellRef => exact .atLine rfl line (.choice "cell_ref" rfl pair)
  | call results =>
    have counted : (write (.record .index) (.record [target', arguments'])).depth =
        (write (.record .call) (.record [target', arguments', .ofNat results])).depth := by
      simp only [write_record, Json.depth, RecordKind.fields, depthMembers_writeFields, write_word]
      rfl
    refine .atLine rfl line (.alternatives "apply" "call" rfl rfl (pair.depth.trans counted) ?_ ?_)
    · exact pair.floats.trans (by simp [Datum.floats, Datum.floatsIn, Datum.ofNat])
    · exact pair.records.trans (by simp [Datum.records, Datum.recordsIn, Datum.ofNat])

mutual
theorem Ident.alike_unmarked : ∀ ident : Ident, Alike .ident ident.unmarked.datum ident.datum
  | .mk name none _ _ _ => Ident.alike_datumWith name _ _ _ _ _ _ (.refl _ _)
  | .mk name (some init) _ _ _ => Ident.alike_datumWith name _ _ _ _ _ _ (Expr.alike_unmarked init)

theorem Expr.alike_unmarked : ∀ expr : Expr, Alike .expr expr.unmarked.datum expr.datum
  | .ident line ident => .expr line rfl (Ident.alike_unmarked ident)
  | .literal .. => .refl _ _
  | .operation line _ operands none =>
    .expr line rfl (.record (.cons (.refl _ _) (.cons (Expr.alike_unmarkedList operands) (.cons (.refl _ _) .nil))))
  | .operation line _ operands (some result) =>
    .expr line rfl (.record
      (.cons (.refl _ _) (.cons (Expr.alike_unmarkedList operands) (.cons (Ident.alike_unmarked result) .nil))))
  | .field line base _ => .expr line rfl (.record (.cons (Expr.alike_unmarked base) (.cons (.refl _ _) .nil)))
  | .dynamicField line base selector =>
    .expr line rfl (.record (.cons (Expr.alike_unmarked base)
      (.cons (.choice "dynamic" rfl (Expr.alike_unmarked selector)) .nil)))
  | .index line form target arguments =>
    form.alike_unmarked line (Expr.alike_unmarked target) (Expr.alike_unmarkedList arguments)
  | .rows line .matrix rows => .expr line rfl (Expr.alike_unmarkedRows rows)
  | .rows line .cell rows => .expr line rfl (Expr.alike_unmarkedRows rows)
  | .lambda line params body =>
    .expr line rfl (.record (.cons (Ident.alike_unmarkedList params) (.cons (Expr.alike_unmarked body) .nil)))

theorem Expr.alike_unmarkedList : ∀ exprs : List Expr,
    Alike Schema.exprs (.list (Expr.dataList (Expr.unmarkedList exprs))) (.list (Expr.dataList exprs))
  | [] => .nil _
  | expr :: rest => .cons (Expr.alike_unmarked expr) (Expr.alike_unmarkedList rest)

theorem Expr.alike_unmarkedRows : ∀ rows : List (List Expr),
    Alike (.list .exprs) (.list (Expr.dataRows (Expr.unmarkedRows rows))) (.list (Expr.dataRows rows))
  | [] => .nil _
  | row :: rest => .cons (Expr.alike_unmarkedList row) (Expr.alike_unmarkedRows rest)

theorem Ident.alike_unmarkedList : ∀ idents : List Ident,
    Alike Schema.idents (.list (Ident.dataList (Ident.unmarkedList idents))) (.list (Ident.dataList idents))
  | [] => .nil _
  | ident :: rest => .cons (Ident.alike_unmarked ident) (Ident.alike_unmarkedList rest)
end

mutual
theorem Stmt.alike_unmarked : ∀ statement : Stmt, Alike (.record .stmt) statement.unmarked.datum statement.datum
  | .expression line value => .stmt line rfl value.alike_unmarked
  | .assign line targets value =>
    .stmt line rfl (.record (.cons (Expr.alike_unmarkedList targets) (.cons value.alike_unmarked .nil)))
  | .branch line condition thenBody none =>
    .stmt line rfl (.record (.cons condition.alike_unmarked
      (.cons (Stmt.alike_unmarkedList thenBody) (.cons (.refl _ _) .nil))))
  | .branch line condition thenBody (some elseBody) =>
    .stmt line rfl (.record (.cons condition.alike_unmarked
      (.cons (Stmt.alike_unmarkedList thenBody) (.cons (Stmt.alike_unmarkedList elseBody) .nil))))
  | .forEach line loopName columns body =>
    .stmt line rfl (.record (.cons loopName.alike_unmarked
      (.cons columns.alike_unmarked (.cons (Stmt.alike_unmarkedList body) .nil))))
  | .whileLoop line condition body =>
    .stmt line rfl (.record (.cons condition.alike_unmarked (.cons (Stmt.alike_unmarkedList body) .nil)))
  | .attempt line body handler none =>
    .stmt line rfl (.record (.cons (Stmt.alike_unmarkedList body)
      (.cons (Handler.alike_unmarked handler) (.cons (.refl _ _) .nil))))
  | .attempt line body handler (some finallyBody) =>
    .stmt line rfl (.record (.cons (Stmt.alike_unmarkedList body)
      (.cons (Handler.alike_unmarked handler) (.cons (Stmt.alike_unmarkedList finallyBody) .nil))))
  | .function line name params body =>
    .stmt line rfl (.record (.cons name.alike_unmarked
      (.cons (Ident.alike_unmarkedList params) (.cons (Stmt.alike_unmarkedList body) .nil))))
  | .declare line .global names => .stmt line rfl (Ident.alike_unmarkedList names)
  | .declare line .persistent names => .stmt line rfl (Ident.alike_unmarkedList names)
  | .return _ none => .refl _ _
  | .return line (some value) => .stmt line rfl value.alike_unmarked
  | .word .. => .refl _ _
  | .comment .. => .refl _ _

theorem Handler.alike_unmarked : ∀ handler : Handler, Alike (.record .handler) handler.unmarked.datum handler.datum
  | .absent => .refl _ _
  | .present none body => .record (.cons (.refl _ _) (.cons (Stmt.alike_unmarkedList body) .nil))
  | .present (some name) body =>
    .record (.cons name.alike_unmarked (.cons (Stmt.alike_unmarkedList body) .nil))

theorem Stmt.alike_unmarkedList : ∀ statements : List Stmt,
    Alike Schema.stmts (.list (Stmt.dataList (Stmt.unmarkedList statements))) (.list (Stmt.dataList statements))
  | [] => .nil _
  | statement :: rest => .cons (Stmt.alike_unmarked statement) (Stmt.alike_unmarkedList rest)
end

theorem Program.alike_unmarked (program : Program) : Alike (.record .program) program.unmarked.datum program.datum :=
  .record (.cons (Stmt.alike_unmarkedList program.statements) .nil)

/-- Programs that only differ in annotations are alike. -/
theorem Program.alike_of_unmarked {one other : Program} (same : one.unmarked = other.unmarked) :
    Alike (.record .program) one.datum other.datum := by
  have left := one.alike_unmarked
  have right := other.alike_unmarked
  rw [← same] at right
  exact ⟨left.depth.symm.trans right.depth, left.floats.symm.trans right.floats, left.records.symm.trans right.records⟩

end ArrayLift
