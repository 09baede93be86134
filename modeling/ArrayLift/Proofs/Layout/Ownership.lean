import ArrayLift.Code.Statement
import ArrayLift.Proofs.Layout.Nested
import ArrayLift.Proofs.Layout.Yields

/-! Generation and ownership. What a function without a body owns is put where its body would be, so that text is
generated for a program as for its explicit form. Resolution and generation agree on the owner of every statement. -/
namespace ArrayLift.Code
open Stmt

variable (words : ReservedWords)

/-- The line that closes the suite of a function that owned nothing that does something. -/
def idleLines (level : Nat) (idle : Bool) : List Line :=
  if idle then [passAt (level + 1)] else []

@[simp] theorem idleLines_false (level : Nat) : idleLines level false = [] := rfl

section
attribute [local simp] sectionLines stmtLines idleLines

theorem sectionLines_nil (level current : Nat) (idle : Bool) :
    sectionLines words [] level current idle = pure (idleLines level idle) := by
  simp

theorem sectionLines_plain {statement : Stmt} (plain : statement.isFunction = false) (rest : List Stmt)
    (level current : Nat) (idle : Bool) :
    sectionLines words (statement :: rest) level current idle = (do
      let lines ← stmtLines words statement current "if"
      let restLines ← sectionLines words rest level current (idle && statement.isNoop)
      pure (lines ++ restLines)) := by
  simp [plain]

theorem sectionLines_flat (line : SourceLine) (name : Ident) (params : List Ident) (rest : List Stmt)
    (level current : Nat) (idle : Bool) :
    sectionLines words (.function line name params [] :: rest) level current idle = (do
      let header ← headerLines words name params level
      let restLines ← sectionLines words rest level (level + 1) true
      pure (idleLines level idle ++ header ++ restLines)) := by
  simp [isFunction, isFlatFunction]

theorem sectionLines_bodied {statement : Stmt} (bodied : statement.IsBodied) (rest : List Stmt)
    (level current : Nat) (idle : Bool) :
    sectionLines words (statement :: rest) level current idle = (do
      let lines ← stmtLines words statement level "if"
      let restLines ← sectionLines words rest level level false
      pure (idleLines level idle ++ lines ++ restLines)) := by
  simp [bodied.1, bodied.2]

end

/-- Without functions, the lines of a list stand at one level. -/
theorem sectionLines_append_plain {between : List Stmt}
    (plain : ∀ statement ∈ between, statement.isFunction = false) (rest : List Stmt) (level current : Nat)
    (idle : Bool) :
    sectionLines words (between ++ rest) level current idle = (do
      let lines ← sectionLines words between current current false
      let restLines ← sectionLines words rest level current (idle && between.all isNoop)
      pure (lines ++ restLines)) := by
  induction between generalizing idle with
  | nil => simp [sectionLines_nil]
  | cons statement others ih =>
    have first := plain statement (by simp)
    have later : ∀ other ∈ others, other.isFunction = false := fun other member => plain other (by simp [member])
    simp only [List.cons_append, sectionLines_plain words first, ih later, Bool.false_and, List.all_cons,
      Bool.and_assoc, bind_assoc, pure_bind, List.append_assoc]

/-- A function closes what is open before it. -/
theorem sectionLines_anew {rest : List Stmt} (anew : StartsAnew rest) (level current : Nat) (idle : Bool) :
    sectionLines words rest level current idle = (do
      let restLines ← sectionLines words rest level level false
      pure (idleLines level idle ++ restLines)) := by
  match rest with
  | [] => simp [sectionLines_nil]
  | statement :: others =>
    obtain ⟨line, name, params, rfl⟩ | bodied | plain := statement.kinds
    · simp [sectionLines_flat, idleLines]
    · simp [sectionLines_bodied words bodied, idleLines]
    · simp [StartsAnew, plain] at anew

theorem sectionLines_append_anew (before : List Stmt) {rest : List Stmt} (anew : StartsAnew rest)
    (level current : Nat) (idle : Bool) :
    sectionLines words (before ++ rest) level current idle = (do
      let lines ← sectionLines words before level current idle
      let restLines ← sectionLines words rest level level false
      pure (lines ++ restLines)) := by
  induction before using byHead generalizing current idle with
  | empty => simpa [sectionLines_nil] using sectionLines_anew words anew level current idle
  | flat line name params others ih =>
    simp only [List.cons_append, sectionLines_flat, ih, bind_assoc, pure_bind, List.append_assoc]
  | bodied statement others bodied ih =>
    simp only [List.cons_append, sectionLines_bodied words bodied, ih, bind_assoc, pure_bind, List.append_assoc]
  | plain statement others plain ih =>
    simp only [List.cons_append, sectionLines_plain words plain, ih, bind_assoc, pure_bind, List.append_assoc]

/-- What a function owns is written like a body of its own. -/
theorem sectionLines_owned {body : List Stmt} (plain : ∀ statement ∈ body, statement.isFunction = false)
    (level : Nat) :
    sectionLines words body level (level + 1) true = (do
      let lines ← sectionLines words body (level + 1) (level + 1) false
      pure (closed body (level + 1) lines)) := by
  have split := sectionLines_append_plain words plain [] level (level + 1) true
  rw [List.append_nil] at split
  rw [split]
  simp only [sectionLines, closed, Bool.true_and, pure_bind]
  split <;> simp [*]

/-- A function that owns nothing behind it, whether it has a body or not. -/
theorem sectionLines_function (line : SourceLine) (name : Ident) (params : List Ident) {body : List Stmt}
    (plain : ∀ statement ∈ body, statement.isFunction = false) {rest : List Stmt} (anew : StartsAnew rest)
    (level : Nat) :
    sectionLines words (.function line name params body :: rest) level level false = (do
      let header ← headerLines words name params level
      let own ← sectionLines words body level (level + 1) true
      let restLines ← sectionLines words rest level level false
      pure (header ++ own ++ restLines)) := by
  cases body with
  | nil =>
    have behind := sectionLines_anew words anew level (level + 1) true
    simp only [sectionLines_flat, behind, sectionLines_nil, idleLines_false, bind_assoc, pure_bind, List.nil_append,
      List.append_assoc]
  | cons head tail =>
    have own := sectionLines_owned words plain level
    have bodied : (Stmt.function line name params (head :: tail)).IsBodied := ⟨rfl, rfl⟩
    have lines := sectionLines_bodied words bodied rest level level false
    rw [lines, own]
    simp only [stmtLines, idleLines_false, List.isEmpty_cons, Bool.false_eq_true, if_false, bind_assoc, pure_bind,
      List.nil_append, List.append_assoc]

theorem all_isNoop_joined (statements : List Stmt) :
    (joined (nestedParts statements)).all isNoop = statements.all isNoop := by
  induction statements using byHead with
  | empty => rfl
  | flat line name params rest => simp [nestedParts, joined, isNoop]
  | bodied statement rest bodied ih =>
    have busy : statement.isNoop = false := by
      match statement, bodied with
      | .function .., _ => rfl
    simp [nestedParts_bodied bodied, joined, nested_isNoop, busy]
  | plain statement rest plain ih =>
    simp only [joined, List.all_append] at ih
    simp [nestedParts_plain plain, joined, nested_isNoop, ← ih]

/-- The condition that is all there is in a list. -/
def loneBranch? : List Stmt → Option Stmt
  | [nested] => if isBranch nested then some nested else none
  | _ => none

theorem mem_of_loneBranch? {statements : List Stmt} {nested : Stmt} (lone : loneBranch? statements = some nested) :
    nested ∈ statements := by
  match statements with
  | [only] =>
    simp only [loneBranch?] at lone
    split at lone <;> simp_all

theorem isFlatFunction_of_loneBranch? {statements : List Stmt} {nested : Stmt}
    (lone : loneBranch? statements = some nested) : nested.isFlatFunction = false := by
  match statements with
  | [only] =>
    simp only [loneBranch?] at lone
    split at lone
    case isTrue branch =>
      cases lone
      cases nested <;> first | rfl | cases branch
    case isFalse => cases lone

theorem isBranch_nested (statement : Stmt) : isBranch statement.nested = isBranch statement := by
  cases statement with
  | branch _ _ _ elseBody => cases elseBody <;> rfl
  | attempt _ _ _ finallyBody => cases finallyBody <;> rfl
  | _ => rfl

theorem isBranch_function {statement : Stmt} (function : statement.isFunction = true) :
    isBranch statement = false := by
  cases statement <;> first | rfl | cases function

/-- A function in front of a condition does not leave it alone in its list, even if it owns it. -/
theorem loneBranch?_joined (statements : List Stmt) :
    loneBranch? (joined (nestedParts statements)) = (loneBranch? statements).map Stmt.nested := by
  match statements with
  | [] => rfl
  | [only] =>
    obtain ⟨line, name, params, rfl⟩ | bodied | plain := only.kinds
    · rfl
    · have other := isBranch_function bodied.1
      simp only [joined, nestedParts_bodied bodied]
      simp [nestedParts, loneBranch?, isBranch_nested, other]
    · simp only [joined, nestedParts_plain plain]
      cases h : isBranch only <;> simp [nestedParts, loneBranch?, isBranch_nested, h]
  | first :: second :: rest =>
    obtain ⟨next, others, shape⟩ := nestedParts_cons second rest
    rw [joined] at shape
    obtain ⟨line, name, params, rfl⟩ | bodied | plain := first.kinds
    · rw [nestedParts]
      generalize nestedParts (second :: rest) = parts
      obtain ⟨own, _ | _⟩ := parts <;> rfl
    · simp only [joined, nestedParts_bodied bodied, shape]
      rfl
    · simp only [joined, nestedParts_plain plain, List.cons_append, shape]
      rfl

/-- The lines of what is done unless a condition holds; a condition alone goes on with the keyword `elif`. -/
def elseLines (elseBody : List Stmt) (level : Nat) : Lines :=
  match loneBranch? elseBody with
  | some nested => stmtLines words nested level "elif"
  | none => do
    let lines ← sectionLines words elseBody (level + 1) (level + 1) false
    pure (lineAt level "else:" :: closed elseBody (level + 1) lines)

theorem stmtLines_else (line : SourceLine) (condition : Expr) (thenBody elseBody : List Stmt) (level : Nat)
    (keyword : String) :
    stmtLines words (.branch line condition thenBody (some elseBody)) level keyword = (do
      let text ← exprText words condition
      let thenLines ← sectionLines words thenBody (level + 1) (level + 1) false
      let elseLines ← elseLines words elseBody level
      pure (lineAt level (keyword ++ " " ++ text ++ ":") :: closed thenBody (level + 1) thenLines ++ elseLines)) := by
  match elseBody with
  | [] | _ :: _ :: _ => simp [stmtLines, elseLines, loneBranch?]
  | [only] => cases h : isBranch only <;> simp [stmtLines, elseLines, loneBranch?, h]

theorem elseLines_branch {only : Stmt} (branch : isBranch only = true) (level : Nat) :
    elseLines words [only] level = stmtLines words only level "elif" := by
  simp only [elseLines, loneBranch?, branch, if_true]

theorem elseLines_suite {elseBody : List Stmt} (plain : loneBranch? elseBody = none) (level : Nat) :
    elseLines words elseBody level = (do
      let lines ← sectionLines words elseBody (level + 1) (level + 1) false
      pure (lineAt level "else:" :: closed elseBody (level + 1) lines)) := by
  simp only [elseLines, plain]

/-- What is not one condition alone has a suite of its own. -/
theorem loneBranch?_one {only : Stmt} (plain : isBranch only = false) : loneBranch? [only] = none := by
  simp only [loneBranch?, plain, Bool.false_eq_true, if_false]

theorem closed_joined (statements : List Stmt) (level : Nat) (lines : List Line) :
    closed (joined (nestedParts statements)) level lines = closed statements level lines := by
  simp only [closed, all_isNoop_joined]

mutual
theorem stmtLines_nested : ∀ (statement : Stmt) (level : Nat) (keyword : String),
    stmtLines words statement.nested level keyword = stmtLines words statement level keyword
  | .branch _ _ thenBody none, _, _ => by
    simp only [Stmt.nested, stmtLines, sectionLines_joined thenBody, closed_joined]
  | .branch _ _ thenBody (some elseBody), level, _ => by
    have same : elseLines words (joined (nestedParts elseBody)) level = elseLines words elseBody level := by
      simp only [elseLines, loneBranch?_joined]
      cases lone : loneBranch? elseBody with
      | none => simp only [Option.map_none, sectionLines_joined elseBody, closed_joined]
      | some nested => exact stmtLines_nestedEach elseBody nested (mem_of_loneBranch? lone) level "elif"
    simp only [Stmt.nested, stmtLines_else, sectionLines_joined thenBody, closed_joined, same]
  | .forEach _ _ _ body, _, _ => by simp only [Stmt.nested, stmtLines, sectionLines_joined body, closed_joined]
  | .whileLoop _ _ body, _, _ => by simp only [Stmt.nested, stmtLines, sectionLines_joined body, closed_joined]
  | .attempt _ body handler none, _, _ => by
    have handled := handlerLines_nested handler
    cases handler <;> simp_all only [Stmt.nested, Handler.nested, stmtLines, sectionLines_joined body, closed_joined]
  | .attempt _ body handler (some finallyBody), _, _ => by
    simp only [Stmt.nested, stmtLines, sectionLines_joined body, closed_joined, handlerLines_nested handler,
      sectionLines_joined finallyBody]
  | .function _ _ _ [], _, _ => rfl
  | .function _ _ _ (head :: tail), _, _ => by
    obtain ⟨first, others, shape⟩ := nestedParts_cons head tail
    have body := sectionLines_joined (head :: tail)
    have ends := closed_joined (head :: tail)
    simp only [shape] at body ends
    simp only [Stmt.nested, stmtLines, shape, body, ends, List.isEmpty_cons]
  | .expression .., _, _ | .assign .., _, _ | .declare .., _, _ | .return .., _, _ | .word .., _, _
  | .comment .., _, _ => rfl

theorem stmtLines_nestedEach : ∀ (statements : List Stmt), ∀ statement ∈ statements,
    ∀ (level : Nat) (keyword : String),
      stmtLines words statement.nested level keyword = stmtLines words statement level keyword
  | [], _, member, _, _ => nomatch member
  | first :: rest, statement, member, level, keyword => by
    obtain same | later := List.mem_cons.mp member
    · exact same ▸ stmtLines_nested first level keyword
    · exact stmtLines_nestedEach rest statement later level keyword

theorem handlerLines_nested : ∀ (handler : Handler) (level : Nat),
    handlerLines words handler.nested level = handlerLines words handler level
  | .absent, _ => rfl
  | .present name body, _ => by
    simp only [Handler.nested, handlerLines, sectionLines_joined body, closed_joined]

theorem sectionLines_nestedParts : ∀ (statements : List Stmt) (level current : Nat) (idle : Bool),
    (do
      let own ← sectionLines words (nestedParts statements).1 level current idle
      let after ← sectionLines words (nestedParts statements).2 level level false
      pure (own ++ after)) = sectionLines words statements level current idle
  | [], _, _, _ => by simp [nestedParts, sectionLines_nil]
  | statement :: rest, level, current, idle => by
    have others := sectionLines_nestedParts rest
    have first := stmtLines_nested statement
    obtain ⟨line, name, params, rfl⟩ | bodied | plain := statement.kinds
    · have own := nestedParts_own rest
      have anew := nestedParts_after rest
      simp only [nestedParts, sectionLines_function words line name params own anew, sectionLines_flat, ← others,
        sectionLines_nil, bind_assoc, pure_bind, List.append_assoc]
    · simp only [nestedParts_bodied bodied, sectionLines_bodied words bodied, sectionLines_bodied words bodied.nested,
        sectionLines_joined rest, first, sectionLines_nil, idleLines_false, bind_assoc, pure_bind, List.nil_append,
        List.append_assoc]
    · have plain' := (nested_isFunction statement).trans plain
      simp only [nestedParts_plain plain, sectionLines_plain words plain, sectionLines_plain words plain', first,
        nested_isNoop, ← others, bind_assoc, pure_bind, List.append_assoc]

theorem sectionLines_joined : ∀ (statements : List Stmt) (level : Nat),
    sectionLines words (joined (nestedParts statements)) level level false =
      sectionLines words statements level level false := by
  intro statements level
  rw [joined, sectionLines_append_anew words _ (nestedParts_after statements)]
  exact sectionLines_nestedParts statements level level false
end

/-- The text of a program is that of its explicit form. -/
theorem generate_nested (settings : Settings) (program : Program) :
    generate settings program.nested = generate settings program := by
  simp only [generate, programLines, blockLines, Program.nested, nestedList, sectionLines_joined, closed_joined]

/-- Every line stands at the level or deeper, or is blank. -/
def Deep (level : Nat) (lines : List Line) : Prop :=
  ∀ line ∈ lines, line.text = "" ∨ level ≤ line.level

@[simp] theorem deep_nil (level : Nat) : Deep level [] := nofun

@[simp] theorem deep_cons (level : Nat) (line : Line) (lines : List Line) :
    Deep level (line :: lines) ↔ (line.text = "" ∨ level ≤ line.level) ∧ Deep level lines :=
  List.forall_mem_cons

@[simp] theorem deep_append (level : Nat) (one other : List Line) :
    Deep level (one ++ other) ↔ Deep level one ∧ Deep level other :=
  List.forall_mem_append

theorem Deep.mono {level deeper : Nat} {lines : List Line} (deep : Deep deeper lines) (below : level ≤ deeper) :
    Deep level lines :=
  fun line member => (deep line member).imp_right (Nat.le_trans below)

theorem deep_closed (statements : List Stmt) {level : Nat} {lines : List Line} (deep : Deep level lines) :
    Deep level (closed statements level lines) := by
  unfold closed
  split
  · simp [deep, passAt, lineAt]
  · exact deep

/-- A header with its suite. -/
theorem deep_suite (text : String) (statements : List Stmt) {level : Nat} {lines : List Line}
    (deep : Deep (level + 1) lines) : Deep level (lineAt level text :: closed statements (level + 1) lines) := by
  simpa [lineAt] using (deep_closed statements deep).mono (Nat.le_succ level)

/-- A header with the lines that are generated for its suite. -/
theorem suiteLines_deep (text : String) {statements : List Stmt} {level : Nat}
    (inside : Yields (Deep (level + 1)) (sectionLines words statements (level + 1) (level + 1) false)) :
    Yields (Deep level) (do
      let lines ← sectionLines words statements (level + 1) (level + 1) false
      pure (lineAt level text :: closed statements (level + 1) lines)) :=
  inside.bind fun _ deep => .pure (deep_suite text statements deep)

theorem headerLines_deep (name : Ident) (params : List Ident) (level : Nat) :
    Yields (Deep level) (headerLines words name params level) :=
  .bind .trivial fun name _ => .bind .trivial fun params _ => .pure <| by
    simp [LibraryName.implicitBindings, lineAt]

/-- What is done finally. Without it and without a handler nothing is done, because an attempt needs one of them. -/
def finalBody? : Handler → Option (List Stmt) → Option (List Stmt)
  | .absent, none => some []
  | _, finallyBody => finallyBody

def finallyLines (finallyBody : Option (List Stmt)) (level : Nat) : Lines :=
  match finallyBody with
  | some body => do
    let lines ← sectionLines words body (level + 1) (level + 1) false
    pure (lineAt level "finally:" :: closed body (level + 1) lines)
  | none => pure []

theorem stmtLines_attempt (line : SourceLine) (body : List Stmt) (handler : Handler) (finallyBody : Option (List Stmt))
    (level : Nat) (keyword : String) :
    stmtLines words (.attempt line body handler finallyBody) level keyword = (do
      let lines ← sectionLines words body (level + 1) (level + 1) false
      let handlerLines ← handlerLines words handler level
      let finallyLines ← finallyLines words (finalBody? handler finallyBody) level
      pure (lineAt level "try:" :: closed body (level + 1) lines ++ handlerLines ++ finallyLines)) := by
  cases handler <;> cases finallyBody <;>
    simp [stmtLines, finallyLines, finalBody?, sectionLines_nil, closed]

mutual
/-- The lines of a statement start at its level, and none of them is shallower. -/
theorem stmtLines_deep : ∀ (statement : Stmt) (level : Nat) (keyword : String),
    Yields (Deep level) (stmtLines words statement level keyword)
  | .expression .., _, _ | .assign .., _, _ | .return _ (some _), _, _ =>
    .bind .trivial fun _ _ => .pure (by simp [lineAt])
  | .branch _ _ thenBody none, level, _ =>
    .bind .trivial fun _ _ => suiteLines_deep words _ (bodyLines_deep thenBody (level + 1))
  | .branch _ _ thenBody (some elseBody), level, keyword => by
    have others : Yields (Deep level) (elseLines words elseBody level) := by
      unfold elseLines
      cases lone : loneBranch? elseBody with
      | none => exact suiteLines_deep words "else:" (bodyLines_deep elseBody (level + 1))
      | some nested => exact stmtLines_deepEach elseBody nested (mem_of_loneBranch? lone) level "elif"
    rw [stmtLines_else]
    exact .bind .trivial fun _ _ => .bind (bodyLines_deep thenBody (level + 1)) fun _ deep =>
      others.bind fun _ deepRest => .pure ((deep_append ..).mpr ⟨deep_suite _ thenBody deep, deepRest⟩)
  | .forEach _ _ _ body, level, _ =>
    .bind .trivial fun _ _ => .bind .trivial fun _ _ => suiteLines_deep words _ (bodyLines_deep body (level + 1))
  | .whileLoop _ _ body, level, _ =>
    .bind .trivial fun _ _ => suiteLines_deep words _ (bodyLines_deep body (level + 1))
  | .attempt line body handler finallyBody, level, keyword => by
    have last : Yields (Deep level) (finallyLines words (finalBody? handler finallyBody) level) := by
      match handler, finallyBody with
      | .absent, none =>
        have nothing : Yields (Deep (level + 1)) (sectionLines words [] (level + 1) (level + 1) false) := by
          rw [sectionLines_nil]
          exact .pure (deep_nil _)
        exact suiteLines_deep words "finally:" nothing
      | .present .., none => exact .pure (deep_nil _)
      | .absent, some finallyBody | .present .., some finallyBody =>
        exact suiteLines_deep words "finally:" (bodyLines_deep finallyBody (level + 1))
    rw [stmtLines_attempt]
    refine .bind (bodyLines_deep body (level + 1)) fun lines deep => ?_
    refine .bind (handlerLines_deep handler level) fun handled deepHandled => last.bind fun rest deepRest => .pure ?_
    simpa [deepHandled, deepRest] using deep_suite "try:" body deep
  | .function _ name params body, level, _ => by
    simp only [stmtLines]
    refine .bind (headerLines_deep words name params level) fun header deepHeader => ?_
    refine .bind (bodyLines_deep body (level + 1)) fun lines deep => .pure ?_
    have own := (deep_closed body deep).mono (Nat.le_succ level)
    split <;> simp [deepHeader, own]
  | .declare _ _ names, level, _ => by
    simp only [stmtLines]
    split
    · exact .error _
    · exact .bind .trivial fun _ _ => .pure (by simp [lineAt])
  | .return _ none, _, _ | .word _ .break, _, _ | .word _ .continue, _, _ | .word _ .pass, _, _
  | .word _ .nothing, _, _ | .comment .., _, _ => .pure (by simp [lineAt, passAt, Line.blank])

theorem stmtLines_deepEach : ∀ (statements : List Stmt), ∀ statement ∈ statements,
    ∀ (level : Nat) (keyword : String), Yields (Deep level) (stmtLines words statement level keyword)
  | [], _, member, _, _ => nomatch member
  | first :: rest, statement, member, level, keyword => by
    obtain same | later := List.mem_cons.mp member
    · exact same ▸ stmtLines_deep first level keyword
    · exact stmtLines_deepEach rest statement later level keyword

theorem handlerLines_deep : ∀ (handler : Handler) (level : Nat),
    Yields (Deep level) (handlerLines words handler level)
  | .absent, _ => .pure (deep_nil _)
  | .present none body, level => suiteLines_deep words "except Exception:" (bodyLines_deep body (level + 1))
  | .present (some _) body, level =>
    .bind .trivial fun spelled _ =>
      suiteLines_deep words ("except Exception as " ++ spelled ++ ":") (bodyLines_deep body (level + 1))

/-- The lines of a body stand at its level. -/
theorem bodyLines_deep : ∀ (statements : List Stmt) (level : Nat),
    Yields (Deep level) (sectionLines words statements level level false) :=
  fun statements level => sectionLines_deep statements level level false (Nat.le_refl level)

theorem sectionLines_deep : ∀ (statements : List Stmt) (level current : Nat) (idle : Bool), level ≤ current →
    Yields (Deep level) (sectionLines words statements level current idle)
  | [], level, current, idle, _ => .pure (by cases idle <;> simp [passAt, lineAt])
  | statement :: rest, level, current, idle, below => by
    have first := stmtLines_deep statement
    have passed : Deep level (idleLines level idle) := by cases idle <;> simp [idleLines, passAt, lineAt]
    obtain ⟨line, name, params, rfl⟩ | bodied | plain := statement.kinds
    · rw [sectionLines_flat]
      exact .bind (headerLines_deep words name params level) fun header deep =>
        .bind (sectionLines_deep rest level (level + 1) true (Nat.le_succ level)) fun lines others =>
          .pure (by simp [passed, deep, others])
    · rw [sectionLines_bodied words bodied]
      exact .bind (first level "if") fun lines deep =>
        .bind (sectionLines_deep rest level level false (Nat.le_refl _)) fun lines others =>
          .pure (by simp [passed, deep, others])
    · rw [sectionLines_plain words plain]
      exact .bind (first current "if") fun lines deep =>
        .bind (sectionLines_deep rest level current _ below) fun lines others =>
          .pure (by simp [deep.mono below, others])
end

/-- The lines of a function: two that open it at a level, and a suite below. -/
def Defines (name : Ident) (level : Nat) (lines : List Line) : Prop :=
  ∃ spelled parameters suite, identText words name = .ok spelled ∧ Deep (level + 1) suite ∧
    lines = lineAt level ("@" ++ LibraryName.functionMark.spelling)
      :: lineAt level ("def " ++ spelled ++ "(" ++ parameters ++ "):") :: suite

theorem defines_headerLines (name : Ident) (params : List Ident) (level : Nat) :
    Yields (fun header => ∀ suite, Deep (level + 1) suite → Defines words name level (header ++ suite))
      (headerLines words name params level) := by
  have spells : Yields (fun spelled => identText words name = .ok spelled) (identText words name) := fun _ => id
  refine spells.bind fun spelled known => ?_
  refine .bind .trivial fun parameters _ => .pure fun suite deep => ?_
  exact ⟨spelled, _, _, known, by simpa [LibraryName.implicitBindings, lineAt] using deep, rfl⟩

end ArrayLift.Code

namespace ArrayLift
open Code

namespace Stmt

/-- Does the last function of a list own what follows the list? -/
def leavesOpen (before : List Stmt) : Bool :=
  (before.reverse.find? isFunction).any isFlatFunction

/-- The last function of a list. -/
theorem last_function {before : List Stmt} {function : Stmt}
    (found : before.reverse.find? isFunction = some function) :
    ∃ earlier between, before = earlier ++ function :: between ∧
      ∀ statement ∈ between, statement.isFunction = false := by
  -- The last function is the first one from behind.
  obtain ⟨_, later, earlier, shape, others⟩ := List.find?_eq_some_iff_append.mp found
  refine ⟨earlier.reverse, later.reverse, ?_, by simpa using others⟩
  have reversed := congrArg List.reverse shape
  simpa using reversed

theorem of_leavesOpen {before : List Stmt} (opened : leavesOpen before = true) :
    ∃ earlier line name params between, before = earlier ++ .function line name params [] :: between ∧
      ∀ statement ∈ between, statement.isFunction = false := by
  unfold leavesOpen at opened
  cases found : before.reverse.find? isFunction with
  | none => simp [found] at opened
  | some function =>
    obtain ⟨earlier, between, shape, plain⟩ := last_function found
    obtain ⟨line, name, params, rfl⟩ | bodied | other := function.kinds
    · exact ⟨earlier, line, name, params, between, shape, plain⟩
    · simp [found, bodied.2] at opened
    · exact absurd (List.find?_some found) (by simp [other])

theorem of_not_leavesOpen {before : List Stmt} (closed : leavesOpen before = false) :
    (∀ statement ∈ before, statement.isFunction = false) ∨
      ∃ earlier function between, before = earlier ++ function :: between ∧ function.IsBodied ∧
        ∀ statement ∈ between, statement.isFunction = false := by
  unfold leavesOpen at closed
  cases found : before.reverse.find? isFunction with
  | none => exact .inl (by simpa using found)
  | some function =>
    obtain ⟨earlier, between, shape, plain⟩ := last_function found
    obtain ⟨line, name, params, rfl⟩ | bodied | other := function.kinds
    · simp [found, isFlatFunction] at closed
    · exact .inr ⟨earlier, function, between, shape, bodied, plain⟩
    · exact absurd (List.find?_some found) (by simp [other])

/-- The walk behind a list that leaves no function open. -/
theorem walkList_append_closed (limit : Nat) {before : List Stmt} (closed : leavesOpen before = false)
    (rest : List Stmt) (scope : ScopeId) (point : Point) :
    walkList limit (before ++ rest) scope none point =
      walkList limit rest scope none (walkList limit before scope none point) := by
  obtain plain | ⟨earlier, function, between, rfl, bodied, plain⟩ := of_not_leavesOpen closed
  · exact walkList_append_plain limit plain rest scope none point
  · have anew (others : List Stmt) : StartsAnew (function :: others) := by simp [StartsAnew, bodied.1]
    simp only [List.append_assoc, List.cons_append, walkList_append_anew limit earlier (anew _),
      walkList_bodied limit bodied, walkList_append_plain limit plain]
    rfl

/-- The lines behind a list that leaves no function open. -/
theorem sectionLines_append_closed (words : ReservedWords) {before : List Stmt} (closed : leavesOpen before = false)
    (rest : List Stmt) (level : Nat) :
    sectionLines words (before ++ rest) level level false = (do
      let lines ← sectionLines words before level level false
      let restLines ← sectionLines words rest level level false
      pure (lines ++ restLines)) := by
  obtain plain | ⟨earlier, function, between, rfl, bodied, plain⟩ := of_not_leavesOpen closed
  · exact sectionLines_append_plain words plain rest level level false
  · have anew (others : List Stmt) : StartsAnew (function :: others) := by simp [StartsAnew, bodied.1]
    simp only [List.append_assoc, List.cons_append, sectionLines_append_anew words earlier (anew _),
      sectionLines_bodied words bodied, sectionLines_append_plain words plain, Bool.false_and, idleLines_false,
      bind_assoc, pure_bind, List.nil_append]

variable (limit : Nat) (words : ReservedWords)

/-- The statement is walked in the scope of the function in front of it, and written into the suite of that
function, one level below the list. -/
def StandsInFunction (earlier : List Stmt) (line : SourceLine) (name : Ident) (params : List Ident)
    (between : List Stmt) (statement : Stmt) (after : List Stmt) : Prop :=
  ∀ (scope : ScopeId) (point : Point) (level : Nat),
    let statements := earlier ++ .function line name params [] :: between ++ statement :: after
    let outside := walkList limit earlier scope none point
    let function := outside.enterFunction scope name params line
    walkList limit statements scope none point =
        walkList limit after function.1 (some (scope, outside.flow))
          (statement.walk limit function.1 (walkList limit between function.1 none function.2)) ∧
      sectionLines words statements level level false = (do
        let lines ← sectionLines words earlier level level false
        let header ← headerLines words name params level
        let owned ← sectionLines words between (level + 1) (level + 1) false
        let own ← stmtLines words statement (level + 1) "if"
        let rest ← sectionLines words after level (level + 1) (between.all isNoop && statement.isNoop)
        pure (lines ++ (header ++ owned ++ own) ++ rest)) ∧
      ∀ header owned own, headerLines words name params level = .ok header →
        sectionLines words between (level + 1) (level + 1) false = .ok owned →
        stmtLines words statement (level + 1) "if" = .ok own → Defines words name level (header ++ owned ++ own)

/-- The statement is walked in the scope of the list, and written at its level. -/
def StandsInList (before : List Stmt) (statement : Stmt) (after : List Stmt) : Prop :=
  ∀ (scope : ScopeId) (point : Point) (level : Nat),
    walkList limit (before ++ statement :: after) scope none point =
        walkList limit after scope none (statement.walk limit scope (walkList limit before scope none point)) ∧
      sectionLines words (before ++ statement :: after) level level false = (do
        let lines ← sectionLines words before level level false
        let own ← stmtLines words statement level "if"
        let rest ← sectionLines words after level level false
        pure (lines ++ own ++ rest))

theorem standsInFunction (earlier : List Stmt) (line : SourceLine) (name : Ident) (params : List Ident)
    {between : List Stmt} (others : ∀ statement ∈ between, statement.isFunction = false) {statement : Stmt}
    (plain : statement.isFunction = false) (after : List Stmt) :
    StandsInFunction limit words earlier line name params between statement after := by
  intro scope point level
  have anew (rest : List Stmt) : StartsAnew (.function line name params [] :: rest) := by simp [StartsAnew, isFunction]
  refine ⟨?_, ?_, fun header owned own opened written put => ?_⟩
  · simp only [List.append_assoc, List.cons_append, walkList_append_anew limit earlier (anew _), walkList_flat,
      walkList_append_plain limit others, walkList_plain limit plain]
    rfl
  · simp only [List.append_assoc, List.cons_append, sectionLines_append_anew words earlier (anew _),
      sectionLines_flat, sectionLines_append_plain words others, sectionLines_plain words plain, Bool.true_and,
      idleLines_false, bind_assoc, pure_bind, List.nil_append]
  · rw [List.append_assoc]
    have inside := bodyLines_deep words between (level + 1) owned written
    have statementInside := stmtLines_deep words statement (level + 1) "if" own put
    have suite := (deep_append ..).mpr ⟨inside, statementInside⟩
    exact defines_headerLines words name params level header opened _ suite

theorem standsInList {before : List Stmt} (closed : leavesOpen before = false) {statement : Stmt}
    (plain : statement.isFunction = false) (after : List Stmt) :
    StandsInList limit words before statement after := by
  intro scope point level
  refine ⟨?_, ?_⟩
  · rw [walkList_append_closed limit closed, walkList_plain limit plain]
  · rw [sectionLines_append_closed words closed]
    simp only [sectionLines_plain words plain, Bool.false_and, bind_assoc, pure_bind, List.append_assoc]

end Stmt

/-- Resolution and generation agree on the owner of every statement. A statement behind a function without a body
is walked in its scope and written into its suite, any other in the scope and at the level of the list around it.
A program with what its functions own in their bodies is resolved and written like the program itself. -/
theorem Program.owners_agree (settings : Settings) (program : Program) :
    (program.nested.resolve settings =
        { program.resolve settings with program := (program.resolve settings).program.nested } ∧
      generate settings program.nested = generate settings program ∧
      Stmt.ExplicitList program.nested.statements) ∧
    ∀ (limit : Nat) (before : List Stmt) (statement : Stmt) (after : List Stmt), statement.isFunction = false →
      if Stmt.leavesOpen before then
        ∃ earlier line name params between, before = earlier ++ .function line name params [] :: between ∧
          (∀ other ∈ between, other.isFunction = false) ∧
          Stmt.StandsInFunction limit settings.reserved earlier line name params between statement after
      else Stmt.StandsInList limit settings.reserved before statement after := by
  refine ⟨⟨program.resolve_nested settings, generate_nested settings program, ?_⟩,
    fun limit before statement after plain => ?_⟩
  · exact Stmt.explicit_nestedList program.statements
  · split
    case isTrue opened =>
      obtain ⟨earlier, line, name, params, between, shape, others⟩ := Stmt.of_leavesOpen opened
      exact ⟨earlier, line, name, params, between, shape, others,
        Stmt.standsInFunction limit settings.reserved earlier line name params others plain after⟩
    case isFalse closed =>
      exact Stmt.standsInList limit settings.reserved (by simpa using closed) plain after

/-- A function without a body owns what follows it, also behind a comment; one with a body owns nothing else. -/
theorem Program.owners_agree_behindFunctions :
    let flat := Stmt.function 1 (.named "f") [] []
    let bodied := Stmt.function 1 (.named "f") [] [.return 2 none]
    let comment := Stmt.comment 2 "% text"
    let statement := Stmt.word 3 .pass
    (statement.isFunction = false ∧ Stmt.leavesOpen [bodied, flat, comment] = true ∧
      ∃ earlier line name params between,
        [bodied, flat, comment] = earlier ++ .function line name params [] :: between ∧
          (∀ other ∈ between, other.isFunction = false) ∧
          Stmt.StandsInFunction 3 .empty earlier line name params between statement []) ∧
      Stmt.leavesOpen [flat, bodied, comment] = false ∧
        Stmt.StandsInList 3 .empty [flat, bodied, comment] statement [] := by
  intro flat bodied comment statement
  have agreed := (Program.owners_agree { reserved := .empty } ⟨[]⟩).2 3
  have opened : Stmt.leavesOpen [bodied, flat, comment] = true := rfl
  have closed : Stmt.leavesOpen [flat, bodied, comment] = false := rfl
  have owned := agreed [bodied, flat, comment] statement [] rfl
  have listed := agreed [flat, bodied, comment] statement [] rfl
  rw [if_pos opened] at owned
  rw [if_neg (ne_true_of_eq_false closed)] at listed
  exact ⟨⟨rfl, opened, owned⟩, closed, listed⟩

end ArrayLift
