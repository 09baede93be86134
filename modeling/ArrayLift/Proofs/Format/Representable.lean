import ArrayLift.Proofs.Annotation.Mentions
import ArrayLift.Proofs.Annotation.Parts
import ArrayLift.Proofs.Format.Trees
import ArrayLift.Proofs.Format.Writing
import Mathlib.Algebra.GroupWithZero.Nat

/-! The programs that the format can represent: the identities of their identifiers have 32 bits, the counts of results
in their calls 64, and their floating-point numbers are finite. -/
namespace ArrayLift

namespace Schema

/-- Data that fit the fields of a record one by one. -/
def FitsFields : List Field → List Datum → Prop
  | [], [] => True
  | field :: fields, value :: rest =>
    (field.schema.Fits value ∨ value = .absent ∧ field.presence = .optional) ∧ FitsFields fields rest
  | _, _ => False

theorem FitsFields.each : ∀ {fields : List Field} {values : List Datum}, FitsFields fields values →
    values.length = fields.length ∧ ∀ part ∈ fields.zip values,
      part.1.schema.Fits part.2 ∨ part.2 = .absent ∧ part.1.presence = .optional
  | [], [], _ => ⟨rfl, List.forall_mem_nil _⟩
  | _ :: _, _ :: _, ⟨first, later⟩ =>
    ⟨congrArg Nat.succ later.each.1, List.forall_mem_cons.mpr ⟨first, later.each.2⟩⟩

theorem Fits.ofFields {kind : RecordKind} {values : List Datum} (fits : FitsFields kind.fields values) :
    Fits (.record kind) (.record values) := by
  obtain ⟨complete, each⟩ := fits.each
  refine .record complete (fun part placed missing => ?_) (fun part placed present => ?_)
  · rcases each part placed with fits | ⟨-, optional⟩
    · exact absurd missing fits.ne_absent
    · exact optional
  · rcases each part placed with fits | ⟨missing, -⟩
    · exact fits
    · exact absurd missing present

theorem Fits.word {bits value : Nat} (small : value < 2 ^ bits) : Fits (.word bits) (.ofNat value) := by
  have greatest : Nat.pow 2 bits - 1 = 2 ^ bits - 1 := rfl
  exact .whole (Int.natCast_nonneg value) (by omega)

theorem Fits.atLine {kind : RecordKind} {choice : ChoiceKind} {content : Datum}
    (fields : kind.fields = [⟨"kind", .choice choice, .required⟩, ⟨"line", .line, .required⟩]) (line : SourceLine)
    (fits : Fits (.choice choice) content) : Fits (.record kind) (.atLine line content) := by
  refine .ofFields ?_
  rw [fields]
  exact ⟨.inl fits, .inl (.word (UInt32.toNat_lt line)), trivial⟩

theorem Fits.expr {name : String} {schema : Schema} {content : Datum} (line : SourceLine)
    (known : ChoiceKind.exprKind.payload? name = some (.content schema)) (fits : Fits schema content) :
    Fits .expr (.atLine line (.choice name content)) :=
  .atLine rfl line (.content known fits)

theorem Fits.stmt {name : String} {schema : Schema} {content : Datum} (line : SourceLine)
    (known : ChoiceKind.stmtKind.payload? name = some (.content schema)) (fits : Fits schema content) :
    Fits (.record .stmt) (.atLine line (.choice name content)) :=
  .atLine rfl line (.content known fits)

theorem Fits.nil (items : Schema) : Fits (.list items) (.list []) :=
  .list (List.forall_mem_nil _)

theorem Fits.cons {items : Schema} {datum : Datum} {rest : List Datum} (first : Fits items datum)
    (later : Fits (.list items) (.list rest)) : Fits (.list items) (.list (datum :: rest)) := by
  cases later with
  | list each => exact .list (List.forall_mem_cons.mpr ⟨first, each⟩)

end Schema

open Schema

theorem Role.fits : ∀ role : Role, Fits (.choice .role) role.datum
  | .unknown | .variable | .function => .bare rfl

/-- The identities of identifiers have 32 bits, the counts of results 64, and floating-point numbers are finite. -/
structure Representable (mentions : List Mention) (parts : List (Place × Expr)) (floats : List Binary64) : Prop where
  ids : Mention.All (fun ident => ∀ id, ident.id = some id → id < 2 ^ 32) mentions
  results : ∀ part ∈ parts, ∀ line results target arguments, part.2 = .index line (.call results) target arguments →
    results < 2 ^ 64
  finite : ∀ value ∈ floats, value.isFinite

namespace Representable

variable {mentions mentions' : List Mention} {parts parts' : List (Place × Expr)} {floats floats' : List Binary64}
  {part : Place × Expr}

theorem append : Representable (mentions ++ mentions') (parts ++ parts') (floats ++ floats') ↔
    Representable mentions parts floats ∧ Representable mentions' parts' floats' := by
  constructor
  · rintro ⟨ids, results, finite⟩
    obtain ⟨ids, ids'⟩ := Mention.All.append.mp ids
    obtain ⟨results, results'⟩ := List.forall_mem_append.mp results
    obtain ⟨finite, finite'⟩ := List.forall_mem_append.mp finite
    exact ⟨⟨ids, results, finite⟩, ⟨ids', results', finite'⟩⟩
  · rintro ⟨⟨ids, results, finite⟩, ⟨ids', results', finite'⟩⟩
    exact ⟨Mention.All.append.mpr ⟨ids, ids'⟩, List.forall_mem_append.mpr ⟨results, results'⟩,
      List.forall_mem_append.mpr ⟨finite, finite'⟩⟩

/-- What holds of an expression and its inside holds inside. -/
theorem inside (representable : Representable mentions (part :: parts) floats) : Representable mentions parts floats :=
  ⟨representable.ids, (List.forall_mem_cons.mp representable.results).2, representable.finite⟩

theorem ofPassedBy (representable : Representable (mentions.map Mention.passedBy) parts floats) :
    Representable mentions parts floats :=
  ⟨Mention.All.passedBy.mp representable.ids, representable.results, representable.finite⟩

end Representable

theorem Datum.floats_atLine (line : SourceLine) (name : String) (content : Datum) :
    (atLine line (.choice name content)).floats = content.floats := by
  simp [atLine, floats, floatsIn, ofNat]

theorem Role.floats (role : Role) : role.datum.floats = [] := by
  cases role <;> rfl

/-- The floating-point numbers of an identifier are those of its default value. -/
theorem Ident.floats_datumWith (name : String) (init : Datum) (role : Role) (reserved : Bool) (id : Option IdentId) :
    (Ident.datumWith name init role reserved id).floats = init.floats := by
  cases id <;> simp [Ident.datumWith, Datum.floats, Datum.floatsIn, Role.floats, Datum.ofNat, Datum.ofOption]

theorem Ident.fits_datumWith (name : String) {init : Datum} (role : Role) (reserved : Bool) {id : Option IdentId}
    (fits : Schema.expr.Fits init ∨ init = .absent) (small : ∀ own, id = some own → own < 2 ^ 32) :
    Schema.ident.Fits (Ident.datumWith name init role reserved id) := by
  refine .ofFields ⟨.inl (.text name), fits.imp_right fun missing => ⟨missing, rfl⟩, .inl role.fits,
    .inl (.flag reserved), ?_, trivial⟩
  cases id with
  | none => exact .inr ⟨rfl, rfl⟩
  | some id => exact .inl (.word (small id rfl))

theorem Literal.fits (line : SourceLine) : ∀ {value : Literal}, (∀ float ∈ value.datum.floats, float.isFinite) →
    Schema.expr.Fits (.atLine line value.datum)
  | .number (.int value), _ =>
    .expr line rfl (.content rfl (.whole (Int64.minValue_le_toInt value) (Int64.toInt_le value)))
  | .number (.float value), finite => .expr line rfl (.content rfl (.float (finite value (by
    simp [Literal.datum, Number.datum, Datum.floats]))))
  | .text value, _ => .expr line rfl (.text value)
  | .logical value, _ => .expr line rfl (.flag value)

theorem Literal.floats_atLine (line : SourceLine) (value : Literal) :
    (Datum.atLine line value.datum).floats = value.datum.floats := by
  cases value <;> exact Datum.floats_atLine ..

/-- The record of an indexed expression. -/
theorem IndexForm.fits (line : SourceLine) {form : IndexForm} {target arguments : Datum}
    (small : ∀ results, form = .call results → results < 2 ^ 64) (fits : Schema.expr.Fits target)
    (fits' : Schema.exprs.Fits arguments) : Schema.expr.Fits (.atLine line (form.datum target arguments)) := by
  cases form with
  | apply => exact .expr line rfl (.ofFields ⟨.inl fits, .inl fits', trivial⟩)
  | arrayRef => exact .expr line rfl (.ofFields ⟨.inl fits, .inl fits', trivial⟩)
  | cellRef => exact .expr line rfl (.ofFields ⟨.inl fits, .inl fits', trivial⟩)
  | call results =>
    exact .expr line rfl (.ofFields ⟨.inl fits, .inl fits', .inl (.word (small results rfl)), trivial⟩)

theorem IndexForm.floats (form : IndexForm) (line : SourceLine) (target arguments : Datum) :
    (Datum.atLine line (form.datum target arguments)).floats = target.floats ++ arguments.floats := by
  cases form <;> simp [IndexForm.datum, Datum.floats_atLine, Datum.floats, Datum.floatsIn, Datum.ofNat]

mutual
theorem Ident.fits : ∀ ident : Ident, Representable ident.mentions ident.parts ident.datum.floats →
    Schema.ident.Fits ident.datum
  | .mk name none role reserved id, representable =>
    Ident.fits_datumWith name role reserved (.inr rfl) (representable.ids _ (List.mem_cons_self ..))
  | .mk name (some init) role reserved id, representable => by
    obtain ⟨own, inner⟩ := List.forall_mem_cons.mp representable.ids
    have finite := representable.finite
    rw [Ident.datum, Ident.floats_datumWith] at finite
    have fits := Expr.fits init (.value 1) (.ofPassedBy ⟨inner, representable.results, finite⟩)
    exact Ident.fits_datumWith name role reserved (.inl fits) own

theorem Expr.fits : ∀ (expr : Expr) (place : Place),
    Representable expr.mentions (expr.parts place) expr.datum.floats → Schema.expr.Fits expr.datum
  | .ident line ident, place, representable => by
    rw [Expr.datum, Datum.floats_atLine] at representable
    exact .expr line rfl (Ident.fits ident representable.inside)
  | .literal line value, place, representable => by
    rw [Expr.datum, Literal.floats_atLine] at representable
    exact Literal.fits line representable.finite
  | .operation line spelling operands none, place, representable => by
    simp only [Expr.datum, Datum.floats_atLine, Datum.floats, Datum.floatsIn, List.nil_append,
      List.append_nil] at representable
    exact .expr line rfl (.ofFields ⟨.inl (.text spelling),
      .inl (Expr.fitsList operands (.value 1) representable.inside), .inr ⟨rfl, rfl⟩, trivial⟩)
  | .operation line spelling operands (some result), place, representable => by
    simp only [Expr.datum, Datum.floats_atLine, Datum.floats, Datum.floatsIn, List.nil_append,
      List.append_nil] at representable
    obtain ⟨first, last⟩ := Representable.append.mp representable.inside
    exact .expr line rfl (.ofFields ⟨.inl (.text spelling), .inl (Expr.fitsList operands (.value 1) first),
      .inl (Ident.fits result last), trivial⟩)
  | .field line base name, place, representable => by
    simp only [Expr.datum, Datum.floats_atLine, Datum.floats, Datum.floatsIn, List.append_nil] at representable
    exact .expr line rfl (.ofFields ⟨.inl (Expr.fits base place.inner representable.inside),
      .inl (.content rfl (.text name)), trivial⟩)
  | .dynamicField line base selector, place, representable => by
    simp only [Expr.datum, Datum.floats_atLine, Datum.floats, Datum.floatsIn, List.append_nil] at representable
    obtain ⟨first, last⟩ := Representable.append.mp representable.inside
    exact .expr line rfl (.ofFields ⟨.inl (Expr.fits base place.inner first),
      .inl (.content rfl (Expr.fits selector (.value 1) last)), trivial⟩)
  | .index line form target arguments, place, representable => by
    have small (results : Nat) (call : form = .call results) : results < 2 ^ 64 :=
      representable.results _ (List.mem_cons_self ..) line results target arguments (call ▸ rfl)
    simp only [Expr.datum, IndexForm.floats, Datum.floats] at representable
    obtain ⟨first, last⟩ := Representable.append.mp representable.inside
    exact IndexForm.fits line small (Expr.fits target place.inner first) (Expr.fitsList arguments (.value 1) last)
  | .rows line brackets rows, place, representable => by
    cases brackets with
    | matrix =>
      simp only [Expr.datum, Brackets.datum, Datum.floats_atLine, Datum.floats] at representable
      exact .expr line rfl (Expr.fitsRows rows representable.inside)
    | cell =>
      simp only [Expr.datum, Brackets.datum, Datum.floats_atLine, Datum.floats] at representable
      exact .expr line rfl (Expr.fitsRows rows representable.inside)
  | .lambda line params body, place, representable => by
    simp only [Expr.datum, Datum.floats_atLine, Datum.floats, Datum.floatsIn, List.append_nil] at representable
    obtain ⟨first, last⟩ := Representable.append.mp representable.inside
    exact .expr line rfl (.ofFields ⟨.inl (Ident.fitsList params first), .inl (Expr.fits body (.value 1) last),
      trivial⟩)

theorem Expr.fitsList : ∀ (exprs : List Expr) (place : Place),
    Representable (Expr.mentionsList exprs) (Expr.partsList exprs place) (Datum.floatsIn (Expr.dataList exprs)) →
      Schema.exprs.Fits (.list (Expr.dataList exprs))
  | [], _, _ => .nil _
  | expr :: rest, place, representable => by
    obtain ⟨first, later⟩ := Representable.append.mp representable
    exact .cons (Expr.fits expr place first) (Expr.fitsList rest place later)

theorem Expr.fitsRows : ∀ rows : List (List Expr),
    Representable (Expr.mentionsRows rows) (Expr.partsRows rows) (Datum.floatsIn (Expr.dataRows rows)) →
      Fits (.list .exprs) (.list (Expr.dataRows rows))
  | [], _ => .nil _
  | row :: rest, representable => by
    obtain ⟨first, later⟩ := Representable.append.mp representable
    exact .cons (Expr.fitsList row (.value 1) first) (Expr.fitsRows rest later)

theorem Ident.fitsList : ∀ idents : List Ident,
    Representable (Ident.mentionsList idents) (Ident.partsList idents) (Datum.floatsIn (Ident.dataList idents)) →
      Schema.idents.Fits (.list (Ident.dataList idents))
  | [], _ => .nil _
  | ident :: rest, representable => by
    obtain ⟨first, later⟩ := Representable.append.mp representable
    exact .cons (Ident.fits ident first) (Ident.fitsList rest later)
end

theorem Word.fits (line : SourceLine) : ∀ word : Word, Fits (.record .stmt) (.atLine line word.datum)
  | .break | .continue | .pass | .nothing => .atLine rfl line (.bare rfl)

mutual
theorem Stmt.fits : ∀ statement : Stmt, Representable statement.mentions statement.parts statement.datum.floats →
    Fits (.record .stmt) statement.datum
  | .expression line value, representable => by
    rw [Stmt.datum, Datum.floats_atLine] at representable
    exact .stmt line rfl (value.fits (.value 1) representable)
  | .assign line targets value, representable => by
    simp only [Stmt.datum, Datum.floats_atLine, Datum.floats, Datum.floatsIn, List.append_nil] at representable
    -- The parts of the value come before those of the targets.
    obtain ⟨ids, results, finite⟩ := representable
    obtain ⟨ids, ids'⟩ := Mention.All.append.mp ids
    obtain ⟨results', results⟩ := List.forall_mem_append.mp results
    obtain ⟨finite, finite'⟩ := List.forall_mem_append.mp finite
    exact .stmt line rfl (.ofFields ⟨.inl (Expr.fitsList targets .assigned ⟨ids, results, finite⟩),
      .inl (value.fits _ ⟨ids', results', finite'⟩), trivial⟩)
  | .branch line condition thenBody none, representable => by
    simp only [Stmt.datum, Datum.floats_atLine, Datum.floats, Datum.floatsIn, List.append_nil] at representable
    obtain ⟨first, last⟩ := Representable.append.mp representable
    exact .stmt line rfl (.ofFields ⟨.inl (condition.fits _ first), .inl (Stmt.fitsList thenBody last),
      .inr ⟨rfl, rfl⟩, trivial⟩)
  | .branch line condition thenBody (some elseBody), representable => by
    simp only [Stmt.datum, Datum.floats_atLine, Datum.floats, Datum.floatsIn, List.append_nil,
      ← List.append_assoc] at representable
    obtain ⟨before, last⟩ := Representable.append.mp representable
    obtain ⟨first, middle⟩ := Representable.append.mp before
    exact .stmt line rfl (.ofFields ⟨.inl (condition.fits _ first), .inl (Stmt.fitsList thenBody middle),
      .inl (Stmt.fitsList elseBody last), trivial⟩)
  | .forEach line loopName columns body, representable => by
    simp only [Stmt.datum, Datum.floats_atLine, Datum.floats, Datum.floatsIn, List.append_nil,
      ← List.append_assoc] at representable
    obtain ⟨before, last⟩ := Representable.append.mp representable
    obtain ⟨first, middle⟩ := Representable.append.mp before
    exact .stmt line rfl (.ofFields ⟨.inl (loopName.fits first), .inl (columns.fits _ middle),
      .inl (Stmt.fitsList body last), trivial⟩)
  | .whileLoop line condition body, representable => by
    simp only [Stmt.datum, Datum.floats_atLine, Datum.floats, Datum.floatsIn, List.append_nil] at representable
    obtain ⟨first, last⟩ := Representable.append.mp representable
    exact .stmt line rfl (.ofFields ⟨.inl (condition.fits _ first), .inl (Stmt.fitsList body last), trivial⟩)
  | .attempt line body handler none, representable => by
    simp only [Stmt.datum, Datum.floats_atLine, Datum.floats, Datum.floatsIn, List.append_nil] at representable
    obtain ⟨first, last⟩ := Representable.append.mp representable
    exact .stmt line rfl (.ofFields ⟨.inl (Stmt.fitsList body first),
      (Handler.fits handler last).imp_right fun missing => ⟨missing, rfl⟩, .inr ⟨rfl, rfl⟩, trivial⟩)
  | .attempt line body handler (some finallyBody), representable => by
    simp only [Stmt.datum, Datum.floats_atLine, Datum.floats, Datum.floatsIn, List.append_nil,
      ← List.append_assoc] at representable
    obtain ⟨before, last⟩ := Representable.append.mp representable
    obtain ⟨first, middle⟩ := Representable.append.mp before
    exact .stmt line rfl (.ofFields ⟨.inl (Stmt.fitsList body first),
      (Handler.fits handler middle).imp_right fun missing => ⟨missing, rfl⟩, .inl (Stmt.fitsList finallyBody last),
      trivial⟩)
  | .function line name params body, representable => by
    simp only [Stmt.datum, Datum.floats_atLine, Datum.floats, Datum.floatsIn, List.append_nil,
      ← List.append_assoc] at representable
    obtain ⟨before, last⟩ := Representable.append.mp representable
    obtain ⟨first, ids, results, finite⟩ := Representable.append.mp before
    exact .stmt line rfl (.ofFields ⟨.inl (name.fits first),
      .inl (Ident.fitsList params ⟨Ident.all_mentionsList_of_paramMentions ids, results, finite⟩),
      .inl (Stmt.fitsList body last), trivial⟩)
  | .declare line declaration names, representable => by
    cases declaration with
    | global =>
      rw [Stmt.datum, Declaration.datum, Datum.floats_atLine] at representable
      exact .stmt line rfl (Ident.fitsList names representable)
    | persistent =>
      rw [Stmt.datum, Declaration.datum, Datum.floats_atLine] at representable
      exact .stmt line rfl (Ident.fitsList names representable)
  | .return line none, _ => .atLine rfl line (.null rfl)
  | .return line (some value), representable => by
    rw [Stmt.datum, Datum.floats_atLine] at representable
    exact .atLine rfl line (.nullable rfl (value.fits _ representable))
  | .word line word, _ => word.fits line
  | .comment line content, _ => .stmt line rfl (.text content)

theorem Handler.fits : ∀ handler : Handler, Representable handler.mentions handler.parts handler.datum.floats →
    Fits (.record .handler) handler.datum ∨ handler.datum = .absent
  | .absent, _ => .inr rfl
  | .present none body, representable => by
    simp only [Handler.datum, Option.map_none, Datum.ofOption, Datum.floats, Datum.floatsIn, List.append_nil,
      List.nil_append] at representable
    exact .inl (.ofFields ⟨.inr ⟨rfl, rfl⟩, .inl (Stmt.fitsList body representable), trivial⟩)
  | .present (some name) body, representable => by
    simp only [Handler.datum, Option.map_some, Datum.ofOption, Datum.floats, Datum.floatsIn,
      List.append_nil] at representable
    obtain ⟨first, last⟩ := Representable.append.mp representable
    exact .inl (.ofFields ⟨.inl (name.fits first), .inl (Stmt.fitsList body last), trivial⟩)

theorem Stmt.fitsList : ∀ statements : List Stmt,
    Representable (Stmt.mentionsList statements) (Stmt.partsList statements)
      (Datum.floatsIn (Stmt.dataList statements)) → Schema.stmts.Fits (.list (Stmt.dataList statements))
  | [], _ => .nil _
  | statement :: rest, representable => by
    obtain ⟨first, later⟩ := Representable.append.mp representable
    exact .cons (Stmt.fits statement first) (Stmt.fitsList rest later)
end

namespace Program

/-- The floating-point literals of a program. -/
def floats (program : Program) : List Binary64 :=
  program.datum.floats

theorem fits {program : Program} (representable : Representable program.mentions program.parts program.floats) :
    Fits (.record .program) program.datum := by
  rw [floats, datum, Datum.floats, Datum.floatsIn, Datum.floatsIn, List.append_nil] at representable
  exact .ofFields ⟨.inl (Stmt.fitsList program.statements representable), trivial⟩

end Program
end ArrayLift
