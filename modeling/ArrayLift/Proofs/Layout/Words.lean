import ArrayLift.Proofs.Layout.Nested
import ArrayLift.Proofs.Layout.Solid

/-! The words of a program: its names, field names and operator spellings. If they are plain, the text of every
expression, target and assignment fills a line. -/
namespace ArrayLift
open Code

mutual
/-- The name of an identifier, and the words of its default value. -/
def Ident.vocabulary : Ident → List String
  | .mk name none _ _ _ => [name]
  | .mk name (some init) _ _ _ => name :: Expr.vocabulary init

/-- The names, field names and operator spellings of an expression. -/
def Expr.vocabulary : Expr → List String
  | .ident _ named => Ident.vocabulary named
  | .literal .. => []
  | .operation _ spelling operands none => spelling :: Expr.vocabularyList operands
  | .operation _ spelling operands (some result) =>
    spelling :: (Expr.vocabularyList operands ++ Ident.vocabulary result)
  | .field _ object name => name :: Expr.vocabulary object
  | .dynamicField _ object selector => Expr.vocabulary object ++ Expr.vocabulary selector
  | .index _ _ target arguments => Expr.vocabulary target ++ Expr.vocabularyList arguments
  | .rows _ _ elements => Expr.vocabularyRows elements
  | .lambda _ params body => Ident.vocabularyList params ++ Expr.vocabulary body

def Expr.vocabularyList : List Expr → List String
  | [] => []
  | expr :: rest => Expr.vocabulary expr ++ Expr.vocabularyList rest

def Expr.vocabularyRows : List (List Expr) → List String
  | [] => []
  | row :: rest => Expr.vocabularyList row ++ Expr.vocabularyRows rest

def Ident.vocabularyList : List Ident → List String
  | [] => []
  | ident :: rest => Ident.vocabulary ident ++ Ident.vocabularyList rest
end

/-- All words are plain. -/
def PlainWords (vocabulary : List String) : Prop :=
  ∀ word ∈ vocabulary, PlainWord word

instance (vocabulary : List String) : Decidable (PlainWords vocabulary) :=
  inferInstanceAs (Decidable (∀ word ∈ vocabulary, PlainWord word))

@[simp] theorem plainWords_cons (word : String) (rest : List String) :
    PlainWords (word :: rest) ↔ PlainWord word ∧ PlainWords rest :=
  List.forall_mem_cons

@[simp] theorem plainWords_append (one other : List String) :
    PlainWords (one ++ other) ↔ PlainWords one ∧ PlainWords other :=
  List.forall_mem_append

variable (words : ReservedWords)

mutual
theorem Ident.solid_identText : ∀ ident : Ident, PlainWords ident.vocabulary → Yields Solid (identText words ident)
  | .mk _ none _ _ _, plain => .pure (solid_pythonName (plain _ (by simp [Ident.vocabulary])) _)
  | .mk _ (some init) _ _ _, plain => by
    simp only [Ident.vocabulary, plainWords_cons] at plain
    exact .bind (Expr.solid_exprText init plain.2) fun _ value =>
      .pure ((solid_pythonName plain.1 _).between (by decide) value)

/-- The text of an expression of plain words fills a line. -/
theorem Expr.solid_exprText : ∀ expr : Expr, PlainWords expr.vocabulary → Yields Solid (exprText words expr)
  | .ident _ named, plain => Ident.solid_identText named plain
  | .literal _ value, _ => .pure (solid_literal value)
  | .operation line _ operands none, plain => by
    simp only [Expr.vocabulary, plainWords_cons] at plain
    exact solid_compose line plain.1 (Expr.solid_operandsOf operands plain.2) nofun
  | .operation line _ operands (some result), plain => by
    simp only [Expr.vocabulary, plainWords_cons, plainWords_append] at plain
    refine solid_compose line plain.1 (Expr.solid_operandsOf operands plain.2.1) fun name named => ?_
    cases named
    exact Ident.solid_identText result plain.2.2
  | .field _ object _, plain => by
    simp only [Expr.vocabulary, plainWords_cons] at plain
    exact .bind (Expr.solid_exprText object plain.2) fun _ solid =>
      .pure (solid.between (by decide) (solid_pythonName plain.1 _))
  | .dynamicField _ object selector, plain => by
    simp only [Expr.vocabulary, plainWords_append] at plain
    exact .bind (Expr.solid_exprText object plain.1) fun _ one =>
      .bind (Expr.solid_exprText selector plain.2) fun _ other =>
        .pure (solid_callOf _ (one.between (by decide) other).unbroken)
  | .index _ form target arguments, plain => by
    simp only [Expr.vocabulary, plainWords_append] at plain
    have indexed := Expr.solid_exprText target plain.1
    have each := Expr.solid_operandsOf arguments plain.2
    cases form with
    | apply => exact solid_composeCall ⟨target, exprText words target⟩ indexed each 1
    | call results => exact solid_composeCall ⟨target, exprText words target⟩ indexed each results
    | arrayRef | cellRef => exact solid_subscript indexed each
  | .rows _ brackets elements, plain => solid_composeRows brackets (Expr.solid_rowsOf elements plain)
  | .lambda _ params body, plain => by
    simp only [Expr.vocabulary, plainWords_append] at plain
    refine .bind (Ident.solid_identTexts params plain.1) fun names each => ?_
    have listed : Unbroken (String.intercalate "," names) :=
      unbroken_join (by decide) fun text member => (each text member).unbroken
    exact .bind (Expr.solid_exprText body plain.2) fun _ solid =>
      .pure ((Solid.around (by decide) listed (by decide)).append solid.unbroken)

theorem Expr.solid_operandsOf : ∀ exprs : List Expr, PlainWords (Expr.vocabularyList exprs) →
    SolidOperands (operandsOf words exprs)
  | [], _ => nofun
  | expr :: rest, plain => by
    simp only [Expr.vocabularyList, plainWords_append] at plain
    exact List.forall_mem_cons.mpr ⟨Expr.solid_exprText expr plain.1, Expr.solid_operandsOf rest plain.2⟩

theorem Expr.solid_rowsOf : ∀ rows : List (List Expr), PlainWords (Expr.vocabularyRows rows) →
    ∀ row ∈ rowsOf words rows, SolidOperands row
  | [], _ => nofun
  | row :: rest, plain => by
    simp only [Expr.vocabularyRows, plainWords_append] at plain
    exact List.forall_mem_cons.mpr ⟨Expr.solid_operandsOf row plain.1, Expr.solid_rowsOf rest plain.2⟩

theorem Ident.solid_identTexts : ∀ idents : List Ident, PlainWords (Ident.vocabularyList idents) →
    Yields (fun texts => ∀ text ∈ texts, Solid text) (identTexts words idents)
  | [], _ => .pure (by simp)
  | ident :: rest, plain => by
    simp only [Ident.vocabularyList, plainWords_append] at plain
    exact .bind (Ident.solid_identText ident plain.1) fun _ solid =>
      .bind (Ident.solid_identTexts rest plain.2) fun _ others => .pure (by simpa [solid] using others)
end

theorem Expr.solid_targetText : ∀ target : Expr, PlainWords target.vocabulary →
    Yields Solid (targetText words target)
  | .index _ _ target arguments, plain => by
    simp only [Expr.vocabulary, plainWords_append] at plain
    exact solid_subscript (Expr.solid_targetText target plain.1) (Expr.solid_operandsOf words arguments plain.2)
  | .field _ object _, plain => by
    simp only [Expr.vocabulary, plainWords_cons] at plain
    exact .bind (Expr.solid_targetText object plain.2) fun _ solid =>
      .pure (solid.between (by decide) (solid_pythonName plain.1 _))
  | .ident line named, plain => Expr.solid_exprText words (.ident line named) plain
  | .literal line value, plain => Expr.solid_exprText words (.literal line value) plain
  | .operation line spelling operands result, plain =>
    Expr.solid_exprText words (.operation line spelling operands result) plain
  | .dynamicField line object selector, plain => Expr.solid_exprText words (.dynamicField line object selector) plain
  | .rows line brackets elements, plain => Expr.solid_exprText words (.rows line brackets elements) plain
  | .lambda line params body, plain => Expr.solid_exprText words (.lambda line params body) plain

theorem plainWords_of_mem {target : Expr} {targets : List Expr} (plain : PlainWords (Expr.vocabularyList targets))
    (member : target ∈ targets) : PlainWords target.vocabulary := by
  induction targets with
  | nil => cases member
  | cons first rest ih =>
    simp only [Expr.vocabularyList, plainWords_append] at plain
    obtain rfl | later := List.mem_cons.mp member
    · exact plain.1
    · exact ih plain.2 later

/-- The text of an assignment, whatever its targets are. -/
theorem solid_assignText (line : SourceLine) {targets : List Expr} {value : Expr}
    (plainTargets : PlainWords (Expr.vocabularyList targets)) (plainValue : PlainWords value.vocabulary) :
    Yields Solid (assignText words line targets value) := by
  refine .bind (Expr.solid_exprText words value plainValue) fun text solid => ?_
  have each : ∀ target ∈ targets, Yields Solid (targetText words target) := fun target member =>
    Expr.solid_targetText words target (plainWords_of_mem plainTargets member)
  have copied : Solid (callOf .copy text) := solid_callOf .copy solid.unbroken
  have assigned {left : String} (start : Solid left) : Solid (left ++ "=" ++ text) := start.between (by decide) solid
  split
  case h_1 => exact .error _
  case h_2 _ object name =>
    simp only [Expr.vocabularyList, Expr.vocabulary, plainWords_append, plainWords_cons] at plainTargets
    obtain ⟨⟨field, inner⟩, _⟩ := plainTargets
    exact .bind (Expr.solid_targetText words object inner) fun _ left =>
      .pure ((left.between (by decide) (solid_pythonName field _)).between (by decide) copied)
  case h_3 _ object selector =>
    simp only [Expr.vocabularyList, Expr.vocabulary, plainWords_append] at plainTargets
    obtain ⟨⟨inner, computed⟩, _⟩ := plainTargets
    exact .bind (Expr.solid_targetText words object inner) fun _ left =>
      .bind (Expr.solid_exprText words selector computed) fun _ middle =>
        .pure (solid_callOf _ ((left.between (by decide) middle).between (by decide) solid).unbroken)
  case h_4 target _ _ =>
    refine .bind (each target (by simp)) fun left start => .pure ?_
    split
    · exact start.between (by decide) copied
    · exact assigned start
  case h_5 some _ _ _ =>
    refine .bind (.mapM targets (targetText words) each) fun lefts ⟨same, starts⟩ => .pure ?_
    have nonempty : lefts ≠ [] := List.ne_nil_of_length_pos (same ▸ List.length_pos_of_ne_nil some)
    exact assigned (solid_join (by decide) nonempty starts)

/-! Statements. -/

mutual
/-- The words of a statement are plain, and no comment in it is broken into lines. -/
def Stmt.Legible : Stmt → Prop
  | .expression _ value => PlainWords value.vocabulary
  | .assign _ targets value => PlainWords (Expr.vocabularyList targets) ∧ PlainWords value.vocabulary
  | .branch _ condition thenBody none => PlainWords condition.vocabulary ∧ Stmt.LegibleList thenBody
  | .branch _ condition thenBody (some elseBody) =>
    PlainWords condition.vocabulary ∧ Stmt.LegibleList thenBody ∧ Stmt.LegibleList elseBody
  | .forEach _ loopName columns body =>
    PlainWords loopName.vocabulary ∧ PlainWords columns.vocabulary ∧ Stmt.LegibleList body
  | .whileLoop _ condition body => PlainWords condition.vocabulary ∧ Stmt.LegibleList body
  | .attempt _ body handler none => Stmt.LegibleList body ∧ Handler.Legible handler
  | .attempt _ body handler (some finallyBody) =>
    Stmt.LegibleList body ∧ Handler.Legible handler ∧ Stmt.LegibleList finallyBody
  | .function _ name params body =>
    PlainWords name.vocabulary ∧ PlainWords (Ident.vocabularyList params) ∧ Stmt.LegibleList body
  | .declare _ _ names => PlainWords (Ident.vocabularyList names)
  | .return _ none => True
  | .return _ (some value) => PlainWords value.vocabulary
  | .word .. => True
  | .comment _ text => Unbroken text

def Handler.Legible : Handler → Prop
  | .absent => True
  | .present none body => Stmt.LegibleList body
  | .present (some name) body => PlainWords name.vocabulary ∧ Stmt.LegibleList body

def Stmt.LegibleList : List Stmt → Prop
  | [] => True
  | statement :: rest => Stmt.Legible statement ∧ Stmt.LegibleList rest
end

namespace Stmt

theorem LegibleList.append {one other : List Stmt} (first : LegibleList one) (second : LegibleList other) :
    LegibleList (one ++ other) := by
  induction one with
  | nil => exact second
  | cons statement rest ih => exact ⟨first.1, ih first.2⟩

end Stmt

mutual
theorem Stmt.legible_nested : ∀ statement : Stmt, statement.Legible → statement.nested.Legible
  | .branch _ _ thenBody none, ⟨plain, legible⟩ => ⟨plain, Stmt.legible_nestedList thenBody legible⟩
  | .branch _ _ thenBody (some elseBody), ⟨plain, legible, legibleElse⟩ =>
    ⟨plain, Stmt.legible_nestedList thenBody legible, Stmt.legible_nestedList elseBody legibleElse⟩
  | .forEach _ _ _ body, ⟨plainName, plain, legible⟩ => ⟨plainName, plain, Stmt.legible_nestedList body legible⟩
  | .whileLoop _ _ body, ⟨plain, legible⟩ => ⟨plain, Stmt.legible_nestedList body legible⟩
  | .attempt _ body handler none, ⟨legible, legibleHandler⟩ =>
    ⟨Stmt.legible_nestedList body legible, Handler.legible_nested handler legibleHandler⟩
  | .attempt _ body handler (some finallyBody), ⟨legible, legibleHandler, legibleFinally⟩ =>
    ⟨Stmt.legible_nestedList body legible, Handler.legible_nested handler legibleHandler,
      Stmt.legible_nestedList finallyBody legibleFinally⟩
  | .function _ _ _ body, ⟨plainName, plain, legible⟩ => ⟨plainName, plain, Stmt.legible_nestedList body legible⟩
  | .expression .., legible | .assign .., legible | .declare .., legible | .return _ none, legible
  | .return _ (some _), legible | .word .., legible | .comment .., legible => legible

theorem Handler.legible_nested : ∀ handler : Handler, handler.Legible → handler.nested.Legible
  | .absent, _ => trivial
  | .present none body, legible => Stmt.legible_nestedList body legible
  | .present (some _) body, ⟨plain, legible⟩ => ⟨plain, Stmt.legible_nestedList body legible⟩

theorem Stmt.legible_nestedParts : ∀ statements : List Stmt, Stmt.LegibleList statements →
    Stmt.LegibleList (Stmt.nestedParts statements).1 ∧ Stmt.LegibleList (Stmt.nestedParts statements).2
  | [], _ => ⟨trivial, trivial⟩
  | statement :: rest, ⟨legible, legibleRest⟩ => by
    have first := Stmt.legible_nested statement legible
    obtain ⟨own, after⟩ := Stmt.legible_nestedParts rest legibleRest
    obtain ⟨line, name, params, rfl⟩ | bodied | plain := statement.kinds
    · exact ⟨trivial, ⟨legible.1, legible.2.1, own⟩, after⟩
    · rw [Stmt.nestedParts_bodied bodied]
      exact ⟨trivial, first, own.append after⟩
    · rw [Stmt.nestedParts_plain plain]
      exact ⟨⟨first, own⟩, after⟩

theorem Stmt.legible_nestedList : ∀ statements : List Stmt, Stmt.LegibleList statements →
    Stmt.LegibleList (Stmt.nestedList statements) := by
  intro statements legible
  obtain ⟨own, after⟩ := Stmt.legible_nestedParts statements legible
  exact own.append after
end

end ArrayLift
