import ArrayLift.Proofs.Layout.Shows
import ArrayLift.Proofs.Layout.Words

/-! The text of a program, read by its indentation, is the program: what is generated for a statement shows its
blocks, at every level. -/
namespace ArrayLift.Code
open Stmt

section
variable {settings : Settings}

/-- A header behind which the lines of a list show its blocks. -/
theorem agree_suite {level : Nat} {header : String} (solid : Solid header) {body : List Stmt}
    (agree : Agree (Depicts settings (level + 1) (body.all isNoop))
      (sectionLines settings.reserved body (level + 1) (level + 1) false) (outlineList settings body)) :
    Agree (Depicts settings level false)
      (do
        let lines ← sectionLines settings.reserved body (level + 1) (level + 1) false
        pure (lineAt level header :: closed body (level + 1) lines))
      (do
        let blocks ← outlineList settings body
        pure [.compound header (suite body blocks)]) :=
  agree.bind fun _ _ depicted => .pure (.suite body depicted solid)

/-- The three parts of an attempt. -/
theorem agree_attempt {level : Nat} {body : List Stmt} {handler : Handler} {finallyBody : Option (List Stmt)}
    (tried : Agree (Depicts settings (level + 1) (body.all isNoop))
      (sectionLines settings.reserved body (level + 1) (level + 1) false) (outlineList settings body))
    (handled : Agree (Shows settings level) (handlerLines settings.reserved handler level) (handler.outline settings))
    (last : Agree (Shows settings level) (finallyLines settings.reserved (finalBody? handler finallyBody) level)
      (finallyOutline settings (finalBody? handler finallyBody))) (line : SourceLine) (keyword : String) :
    Agree (Depicts settings level false)
      (stmtLines settings.reserved (.attempt line body handler finallyBody) level keyword)
      ((Stmt.attempt line body handler finallyBody).outline settings keyword) := by
  rw [stmtLines_attempt, outline_attempt]
  refine tried.bind fun lines blocks depicted => handled.bind fun _ _ shownHandled => last.bind fun _ _ shownLast => ?_
  exact .pure ⟨((Depicts.suite body depicted (by decide)).1.append shownHandled).append shownLast, rfl⟩

mutual
/-- The lines of a statement show its blocks, unless both are missing for the same reason. -/
theorem agree_outline (source : SourceUnbroken settings) : ∀ (statement : Stmt) (level : Nat) {keyword : String},
    Solid keyword → statement.Explicit → statement.Legible → statement.isFlatFunction = false →
      Agree (Depicts settings level statement.isNoop) (stmtLines settings.reserved statement level keyword)
        (statement.outline settings keyword)
  | .expression _ value, _, _, _, _, legible, _ =>
    .bindSame (Expr.solid_exprText _ value legible) fun _ solid => .pure ⟨.text solid, rfl⟩
  | .assign line _ _, _, _, _, _, ⟨plainTargets, plainValue⟩, _ =>
    .bindSame (solid_assignText _ line plainTargets plainValue) fun _ solid =>
      .pure ⟨.assignment source solid line, rfl⟩
  | .branch _ condition thenBody none, level, _, opens, explicit, ⟨plain, legible⟩, _ => by
    rw [outline_then]
    exact .bindSame (Expr.solid_exprText _ condition plain) fun _ solid =>
      agree_suite (solid_header (opens.append (by decide)) solid.unbroken)
        (agree_outlineList source thenBody (level + 1) explicit legible)
  | .branch _ condition thenBody (some elseBody), level, keyword, opens, ⟨explicit, explicitElse⟩,
      ⟨plain, legible, legibleElse⟩, _ => by
    have others : Agree (Shows settings level) (elseLines settings.reserved elseBody level)
        (elseOutline settings elseBody) := by
      unfold elseLines elseOutline
      cases lone : loneBranch? elseBody with
      | none =>
        have agree := agree_outlineList source elseBody (level + 1) explicitElse legibleElse
        exact (agree_suite (by decide) agree).mono fun _ _ depicted => depicted.1
      -- The condition stands at the level of the one before it, so its blocks follow those without a header.
      | some nested =>
        have further : Solid "elif" := by decide
        have agree := agree_outlineEach source elseBody explicitElse legibleElse nested (mem_of_loneBranch? lone)
          (isFlatFunction_of_loneBranch? lone) level further
        exact agree.mono fun _ _ depicted => depicted.1
    rw [stmtLines_else, outline_else]
    refine .bindSame (Expr.solid_exprText _ condition plain) fun text solid => ?_
    refine (agree_outlineList source thenBody (level + 1) explicit legible).bind fun _ _ depicted => ?_
    have start : Solid (keyword ++ " ") := opens.append (by decide)
    have header := solid_header start solid.unbroken
    exact others.bind fun _ _ shown => .pure ⟨(Depicts.suite thenBody depicted header).1.append shown, rfl⟩
  | .forEach _ loopName columns body, level, _, _, explicit, ⟨plainName, plain, legible⟩, _ => by
    simp only [stmtLines, outline]
    refine .bindSame (Ident.solid_identText _ loopName plainName) fun name solidName => ?_
    refine .bindSame (solid_grouped (Expr.solid_exprText _ columns plain)) fun text solid => ?_
    have start : Solid ("for " ++ name) := Solid.append (by decide) solidName.unbroken
    have loop : Solid ("for " ++ name ++ " in " ++ text) := start.between (by decide) solid
    exact agree_suite (solid_header (loop.append (by decide)) (by decide))
      (agree_outlineList source body (level + 1) explicit legible)
  | .whileLoop _ condition body, level, _, _, explicit, ⟨plain, legible⟩, _ => by
    simp only [stmtLines, outline]
    exact .bindSame (Expr.solid_exprText _ condition plain) fun _ solid =>
      agree_suite (solid_header (by decide) solid.unbroken)
        (agree_outlineList source body (level + 1) explicit legible)
  | .attempt line body handler none, level, keyword, _, ⟨explicit, explicitHandler⟩, ⟨legible, legibleHandler⟩,
      _ => by
    refine agree_attempt (agree_outlineList source body (level + 1) explicit legible)
      (agree_outlineHandler source handler level explicitHandler legibleHandler) ?_ line keyword
    cases handler with
    | absent =>
      have nothing : Depicts settings (level + 1) true [] [] := ⟨.nil, rfl⟩
      simp only [finalBody?, finallyLines, finallyOutline, sectionLines_nil, outlineList, pure_bind, idleLines_false]
      exact .pure (Depicts.suite [] nothing (by decide)).1
    | present => exact .pure .nil
  | .attempt line body handler (some finallyBody), level, keyword, _, ⟨explicit, explicitHandler, explicitFinally⟩,
      ⟨legible, legibleHandler, legibleFinally⟩, _ => by
    refine agree_attempt (agree_outlineList source body (level + 1) explicit legible)
      (agree_outlineHandler source handler level explicitHandler legibleHandler) ?_ line keyword
    have given : finalBody? handler (some finallyBody) = some finallyBody := by cases handler <;> rfl
    have agree := agree_outlineList source finallyBody (level + 1) explicitFinally legibleFinally
    rw [given]
    exact (agree_suite (by decide) agree).mono fun _ _ depicted => depicted.1
  | .function _ name params body, level, _, _, explicit, ⟨plainName, plain, legible⟩, bodied => by
    have some : body.isEmpty = false := bodied
    simp only [stmtLines, headerLines, outline, bind_assoc, pure_bind, some, Bool.false_eq_true, if_false]
    refine .bindSame (Ident.solid_identText _ name plainName) fun text solid => ?_
    refine .bindSame (Ident.solid_identTexts _ params plain) fun texts each => ?_
    exact (agree_outlineList source body (level + 1) explicit legible).bind fun _ _ ⟨shown, busy⟩ =>
      .pure ⟨.function solid each (shown.closed busy), rfl⟩
  | .declare _ _ names, _, _, _, _, plain, _ => by
    simp only [stmtLines, outline]
    split
    · exact rfl
    · refine .bindSame (Ident.solid_identTexts _ names plain) fun texts each => .pure ⟨.text ?_, rfl⟩
      exact Solid.append (by decide) (unbroken_join (by decide) fun text member => (each text member).unbroken)
  | .return _ none, _, _, _, _, _, _ => .pure ⟨.text (by decide), rfl⟩
  | .return _ (some value), _, _, _, _, legible, _ =>
    .bindSame (Expr.solid_exprText _ value legible) fun _ solid =>
      .pure ⟨.text (Solid.append (by decide) solid.unbroken), rfl⟩
  | .word _ .break, _, _, _, _, _, _ => .pure ⟨.text (by decide), rfl⟩
  | .word _ .continue, _, _, _, _, _, _ => .pure ⟨.text (by decide), rfl⟩
  | .word _ .pass, _, _, _, _, _, _ => .pure ⟨.text (by decide), rfl⟩
  | .word _ .nothing, _, _, _, _, _, _ => .pure ⟨.blank, rfl⟩
  | .comment .., _, _, _, _, unbroken, _ => .pure ⟨.comment unbroken, rfl⟩

theorem agree_outlineEach (source : SourceUnbroken settings) : ∀ statements : List Stmt, ExplicitList statements →
    LegibleList statements → ∀ statement ∈ statements, statement.isFlatFunction = false →
      ∀ (level : Nat) {keyword : String}, Solid keyword →
        Agree (Depicts settings level statement.isNoop) (stmtLines settings.reserved statement level keyword)
          (statement.outline settings keyword)
  | [], _, _, _, member, _, _, _, _ => nomatch member
  | first :: rest, ⟨explicit, _, explicitRest⟩, ⟨legible, legibleRest⟩, statement, member, bodied, level, _,
      opens => by
    obtain same | later := List.mem_cons.mp member
    · rw [same] at bodied ⊢
      exact agree_outline source first level opens explicit legible bodied
    · exact agree_outlineEach source rest explicitRest legibleRest statement later bodied level opens

theorem agree_outlineHandler (source : SourceUnbroken settings) : ∀ (handler : Handler) (level : Nat),
    handler.Explicit → handler.Legible →
      Agree (Shows settings level) (handlerLines settings.reserved handler level) (handler.outline settings)
  | .absent, _, _, _ => .pure .nil
  | .present none body, level, explicit, legible => by
    have agree := agree_outlineList source body (level + 1) explicit legible
    exact (agree_suite (by decide) agree).mono fun _ _ depicted => depicted.1
  | .present (some name) body, level, explicit, ⟨plain, legible⟩ => by
    have agree := agree_outlineList source body (level + 1) explicit legible
    simp only [handlerLines, Handler.outline, pure_bind]
    exact .bindSame (Ident.solid_identText _ name plain) fun _ solid =>
      (agree_suite (solid_header (by decide) solid.unbroken) agree).mono fun _ _ depicted => depicted.1

theorem agree_outlineList (source : SourceUnbroken settings) : ∀ (statements : List Stmt) (level : Nat),
    ExplicitList statements → LegibleList statements →
      Agree (Depicts settings level (statements.all isNoop))
        (sectionLines settings.reserved statements level level false) (outlineList settings statements)
  | [], _, _, _ => by
    rw [sectionLines_nil]
    exact .pure ⟨.nil, rfl⟩
  | statement :: rest, level, ⟨explicit, owns, explicitRest⟩, ⟨legible, legibleRest⟩ => by
    have others := agree_outlineList source rest level explicitRest legibleRest
    have opens : Solid "if" := by decide
    have first := agree_outline source statement level opens explicit legible
    obtain ⟨line, name, params, rfl⟩ | bodied | plain := statement.kinds
    -- The list is explicit, so the function owns nothing behind it and its suite is `pass` alone.
    · obtain ⟨plainName, plain, _⟩ := legible
      have empty : Shows settings (level + 1) [passAt (level + 1)] [.simple "pass"] := .text (by decide)
      rw [sectionLines_flat, sectionLines_anew _ (owns rfl)]
      simp only [headerLines, outlineList, outline, bind_assoc, pure_bind]
      refine .bindSame (Ident.solid_identText _ name plainName) fun text solid => ?_
      refine .bindSame (Ident.solid_identTexts _ params plain) fun texts each => ?_
      exact others.bind fun _ _ ⟨shown, _⟩ =>
        .pure ⟨by simpa [idleLines, suite] using (Shows.function solid each empty).append shown, rfl⟩
    · rw [sectionLines_bodied _ bodied]
      exact (first bodied.2).bind fun _ _ depicted => others.bind fun _ _ depictedRest =>
        .pure (depicted.append depictedRest)
    · rw [sectionLines_plain _ plain]
      exact (first (isFlatFunction_of_plain plain)).bind fun _ _ depicted => others.bind fun _ _ depictedRest =>
        .pure (depicted.append depictedRest)
end
end

end ArrayLift.Code

namespace ArrayLift
open Code

/-- The text of a program read by its indentation, without blank lines and comments, is the program: what was written
for every statement, in the suite of what it belongs to. Every header has a suite, and the text ends with a line. -/
theorem Program.ofText?_generate (settings : Settings) (program : Program) (wide : 0 < settings.indentWidth)
    (source : SourceUnbroken settings) (legible : Stmt.LegibleList program.statements)
    {text : String} (generated : generate settings program = .ok text) :
    ∃ blocks, program.outline settings = .ok blocks ∧ Block.ofText? settings.indentWidth text = some blocks ∧
      Block.FilledList blocks ∧ ∃ lines, text = lines ++ "\n" := by
  rw [← generate_nested] at generated
  have agree := agree_outlineList source program.nested.statements 0 (Stmt.explicit_nestedList _)
    (Stmt.legible_nestedList _ legible)
  simp only [generate, programLines, blockLines] at generated
  cases made : sectionLines settings.reserved program.nested.statements 0 0 false with
  | error fault => rw [made] at generated; cases generated
  | ok lines =>
    rw [made] at generated
    cases generated
    obtain ⟨blocks, outlined, shown, busy⟩ := agree.right_of_left made
    have closed := shown.closed busy
    refine ⟨Stmt.suite program.nested.statements blocks, ?_, ?_, closed.filled, ?_⟩
    · rw [Program.outline, outlined]
      rfl
    · rw [Block.ofText?, Line.ofText_layout settings closed.unbroken, closed.rows]
      exact Block.read_rowsList wide closed.filled
    · exact Line.layout_ends settings (closed.lines_ne_nil (suite_ne_nil busy))

/-- A condition that does nothing, a further condition in its place, and a function that owns a comment alone. -/
def commentedBranches : Program :=
  let name (text : String) : Expr := .ident 1 (.named text)
  ⟨[.branch 1 (name "a") [.comment 2 "% nothing"]
      (some [.branch 3 (name "b") [.assign 4 [name "x"] (name "a")] none]),
    .function 5 (.named "f") [] [],
    .comment 6 "% later"]⟩

def commentedSettings : Settings := { sourceName := some "m.m", reserved := .empty }

/-- The blocks of branches and of a function with comments, read from their text. -/
theorem Program.ofText?_commentedBranches :
    let text := "if a:\n    # nothing\n    pass\nelif b:\n    x=copy(a)  # m.m:4\n@function\n"
      ++ "def f(*args,**kwargs):\n    varargin = f.varargin\n    nargin = f.nargin\n    # later\n    pass\n"
    generate commentedSettings commentedBranches = .ok text ∧
      Block.ofText? 4 text = some [.compound "if a:" [.simple "pass"], .compound "elif b:" [.simple "x=copy(a)  # m.m:4"],
        .simple "@function", .compound "def f(*args,**kwargs):"
          [.simple "varargin = f.varargin", .simple "nargin = f.nargin", .simple "pass"]] := by
  intro text
  have generated : generate commentedSettings commentedBranches = .ok text := by decide +kernel
  have outlined : commentedBranches.outline commentedSettings =
      .ok [.compound "if a:" [.simple "pass"], .compound "elif b:" [.simple "x=copy(a)  # m.m:4"],
        .simple "@function", .compound "def f(*args,**kwargs):"
          [.simple "varargin = f.varargin", .simple "nargin = f.nargin", .simple "pass"]] := rfl
  have source : SourceUnbroken commentedSettings := by decide
  have legible : Stmt.LegibleList commentedBranches.statements :=
    ⟨⟨by decide, ⟨(by decide : Unbroken "% nothing"), trivial⟩, ⟨by decide, ⟨by decide, by decide⟩, trivial⟩,
        trivial⟩,
      ⟨by decide, by decide, trivial⟩, (by decide : Unbroken "% later"), trivial⟩
  obtain ⟨blocks, outline, read, _⟩ :=
    Program.ofText?_generate commentedSettings commentedBranches (by decide) source legible generated
  rw [outlined] at outline
  cases outline
  exact ⟨generated, read⟩

end ArrayLift
