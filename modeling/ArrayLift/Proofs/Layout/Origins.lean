import ArrayLift.Proofs.Layout.Ownership

/-! Which lines stem from assignments and from comments. Each of these statements gives one line, and the lines stand
in the order of the statements; of the text of a comment nothing is left in the other lines. -/
namespace ArrayLift
open Code

/-- A statement whose line can be told from the others: an assignment by its source line, a comment by its marker. -/
inductive Origin where
  | assignment (line : SourceLine) (targets : List Expr) (value : Expr)
  | comment (text : String)

mutual
/-- The assignments and the comments of a statement in the order of the text. -/
def Stmt.origins : Stmt → List Origin
  | .assign line targets value => [.assignment line targets value]
  | .comment _ text => [.comment text]
  | .branch _ _ thenBody none => Stmt.originsList thenBody
  | .branch _ _ thenBody (some elseBody) => Stmt.originsList thenBody ++ Stmt.originsList elseBody
  | .forEach _ _ _ body => Stmt.originsList body
  | .whileLoop _ _ body => Stmt.originsList body
  | .attempt _ body handler none => Stmt.originsList body ++ Handler.origins handler
  | .attempt _ body handler (some finallyBody) =>
    Stmt.originsList body ++ Handler.origins handler ++ Stmt.originsList finallyBody
  | .function _ _ _ body => Stmt.originsList body
  | .expression .. | .declare .. | .return .. | .word .. => []

def Handler.origins : Handler → List Origin
  | .absent => []
  | .present _ body => Stmt.originsList body

def Stmt.originsList : List Stmt → List Origin
  | [] => []
  | statement :: rest => Stmt.origins statement ++ Stmt.originsList rest
end

/-- The assignments and the comments of a program in the order of the text. -/
def Program.origins (program : Program) : List Origin :=
  Stmt.originsList program.statements

mutual
/-- The statement with nothing left of the texts of its comments. -/
def Stmt.uncommented : Stmt → Stmt
  | .comment line _ => .comment line ""
  | .branch line condition thenBody none => .branch line condition (Stmt.uncommentedList thenBody) none
  | .branch line condition thenBody (some elseBody) =>
    .branch line condition (Stmt.uncommentedList thenBody) (some (Stmt.uncommentedList elseBody))
  | .forEach line loopName columns body => .forEach line loopName columns (Stmt.uncommentedList body)
  | .whileLoop line condition body => .whileLoop line condition (Stmt.uncommentedList body)
  | .attempt line body handler none =>
    .attempt line (Stmt.uncommentedList body) (Handler.uncommented handler) none
  | .attempt line body handler (some finallyBody) =>
    .attempt line (Stmt.uncommentedList body) (Handler.uncommented handler) (some (Stmt.uncommentedList finallyBody))
  | .function line name params body => .function line name params (Stmt.uncommentedList body)
  | .expression line value => .expression line value
  | .assign line targets value => .assign line targets value
  | .declare line declaration names => .declare line declaration names
  | .return line value => .return line value
  | .word line word => .word line word

def Handler.uncommented : Handler → Handler
  | .absent => .absent
  | .present name body => .present name (Stmt.uncommentedList body)

def Stmt.uncommentedList : List Stmt → List Stmt
  | [] => []
  | statement :: rest => Stmt.uncommented statement :: Stmt.uncommentedList rest
end

/-- The program with nothing left of the texts of its comments. -/
def Program.uncommented (program : Program) : Program :=
  ⟨Stmt.uncommentedList program.statements⟩

namespace Stmt

@[simp] theorem isNoop_uncommented (statement : Stmt) : statement.uncommented.isNoop = statement.isNoop := by
  cases statement with
  | branch _ _ _ elseBody => cases elseBody <;> rfl
  | attempt _ _ _ finallyBody => cases finallyBody <;> rfl
  | _ => rfl

@[simp] theorem isFunction_uncommented (statement : Stmt) :
    statement.uncommented.isFunction = statement.isFunction := by
  cases statement with
  | branch _ _ _ elseBody => cases elseBody <;> rfl
  | attempt _ _ _ finallyBody => cases finallyBody <;> rfl
  | _ => rfl

@[simp] theorem isEmpty_uncommentedList (statements : List Stmt) :
    (uncommentedList statements).isEmpty = statements.isEmpty := by
  cases statements <;> rfl

@[simp] theorem isFlatFunction_uncommented (statement : Stmt) :
    statement.uncommented.isFlatFunction = statement.isFlatFunction := by
  cases statement with
  | branch _ _ _ elseBody => cases elseBody <;> rfl
  | attempt _ _ _ finallyBody => cases finallyBody <;> rfl
  | function _ _ _ body => exact isEmpty_uncommentedList body
  | _ => rfl

@[simp] theorem isBranch_uncommented (statement : Stmt) : isBranch statement.uncommented = isBranch statement := by
  cases statement with
  | branch _ _ _ elseBody => cases elseBody <;> rfl
  | attempt _ _ _ finallyBody => cases finallyBody <;> rfl
  | _ => rfl

theorem all_isNoop_uncommentedList (statements : List Stmt) :
    (uncommentedList statements).all isNoop = statements.all isNoop := by
  induction statements with
  | nil => rfl
  | cons statement rest ih => simp only [uncommentedList, List.all_cons, isNoop_uncommented, ih]

end Stmt

namespace Code

/-- The lines of statements with such assignments and comments in them, beside those without the texts of the
comments. -/
inductive Composed (words : ReservedWords) : List Origin → List Line → List Line → Prop
  | nil : Composed words [] [] []
  /-- A line of another statement. -/
  | other {origins : List Origin} {lines bare : List Line} {line : Line} (unassigned : line.assignment = none)
      (rest : Composed words origins lines bare) : Composed words origins (line :: lines) (line :: bare)
  | assignment {origins : List Origin} {lines bare : List Line} {level : Nat} {line : SourceLine}
      {targets : List Expr} {value : Expr} {text : String} (made : assignText words line targets value = .ok text)
      (rest : Composed words origins lines bare) :
      Composed words (.assignment line targets value :: origins) (⟨level, text, some line⟩ :: lines)
        (⟨level, text, some line⟩ :: bare)
  | comment {origins : List Origin} {lines bare : List Line} (level : Nat) (text : String)
      (rest : Composed words origins lines bare) :
      Composed words (.comment text :: origins) (lineAt level (Comment.line text) :: lines) (lineAt level "" :: bare)

namespace Composed

variable {words : ReservedWords} {origins others : List Origin} {lines bare more less : List Line}

theorem append (first : Composed words origins lines bare) (second : Composed words others more less) :
    Composed words (origins ++ others) (lines ++ more) (bare ++ less) := by
  induction first with
  | nil => exact second
  | other unassigned _ ih => exact .other unassigned ih
  | assignment made _ ih => exact .assignment made ih
  | comment level text _ ih => exact .comment level text ih

/-- Lines that stem from neither. -/
theorem plain (unassigned : ∀ line ∈ lines, line.assignment = none) : Composed words [] lines lines := by
  induction lines with
  | nil => exact .nil
  | cons line rest ih =>
    obtain ⟨first, later⟩ := List.forall_mem_cons.mp unassigned
    exact .other first (ih later)

theorem header (level : Nat) (text : String) (composed : Composed words origins lines bare) :
    Composed words origins (lineAt level text :: lines) (lineAt level text :: bare) :=
  .other rfl composed

theorem closed (composed : Composed words origins lines bare) (statements : List Stmt) (level : Nat) :
    Composed words origins (closed statements level lines)
      (Code.closed (Stmt.uncommentedList statements) level bare) := by
  unfold Code.closed
  rw [Stmt.all_isNoop_uncommentedList]
  split
  · have idle : Composed words [] [passAt level] [passAt level] := .plain (by simp [passAt, lineAt])
    simpa using composed.append idle
  · exact composed

end Composed

variable (words : ReservedWords)

/-- Lines beside those without the texts of comments, or the same fault. -/
def Traced (origins : List Origin) : Lines → Lines → Prop :=
  Agree (Composed words origins)

namespace Traced

variable {words} {origins : List Origin}

/-- Lines that stem from neither, made the same way. -/
theorem plain {result : Lines} (unassigned : Yields (fun lines => ∀ line ∈ lines, line.assignment = none) result) :
    Traced words [] result result := by
  cases result with
  | error => exact rfl
  | ok lines => exact Composed.plain (unassigned lines rfl)

/-- A single line of another statement. -/
theorem single (result : Rendered) (level : Nat) (make : String → String) :
    Traced words [] (do
      let text ← result
      pure [lineAt level (make text)]) (do
      let text ← result
      pure [lineAt level (make text)]) :=
  .plain (.bind .trivial fun _ _ => .pure (by simp [lineAt]))

/-- The statements of a list below a line. -/
theorem suite {lines bare : Lines} (traced : Traced words origins lines bare) (level : Nat) (header : String)
    (body : List Stmt) (inner : Nat) :
    Traced words origins (do
      let lines ← lines
      pure (lineAt level header :: closed body inner lines)) (do
      let lines ← bare
      pure (lineAt level header :: closed (Stmt.uncommentedList body) inner lines)) :=
  .bind traced fun _ _ composed => .pure (.header level header (composed.closed body inner))

end Traced

theorem unassigned_headerLines (name : Ident) (params : List Ident) (level : Nat) :
    Yields (fun lines => ∀ line ∈ lines, line.assignment = none) (headerLines words name params level) := by
  refine .bind .trivial fun name _ => .bind .trivial fun params _ => .pure fun line member => ?_
  obtain first | binding := List.mem_append.mp member
  · obtain rfl | rfl : line = _ ∨ line = _ := by simpa using first
    · rfl
    · rfl
  · obtain ⟨_, _, rfl⟩ := List.mem_map.mp binding
    rfl

mutual
theorem stmtLines_traced : ∀ (statement : Stmt) (level : Nat) (keyword : String),
    Traced words statement.origins (stmtLines words statement level keyword)
      (stmtLines words statement.uncommented level keyword)
  | .expression .., level, _ => .single _ level id
  | .assign line targets value, level, _ => by
    simp only [Stmt.uncommented, stmtLines]
    cases made : assignText words line targets value with
    | error => exact rfl
    | ok text => exact Composed.assignment made .nil
  | .branch _ condition thenBody none, level, _ =>
    .bindSame .trivial fun _ _ => Traced.suite (sectionLines_traced thenBody _ _ _) level _ thenBody _
  | .branch _ condition thenBody (some elseBody), level, _ => by
    have others : Traced words (Stmt.originsList elseBody) (elseLines words elseBody level)
        (elseLines words (Stmt.uncommentedList elseBody) level) := by
      have suite (alone : loneBranch? elseBody = none) (bare : loneBranch? (Stmt.uncommentedList elseBody) = none) :
          Traced words (Stmt.originsList elseBody) (elseLines words elseBody level)
            (elseLines words (Stmt.uncommentedList elseBody) level) := by
        rw [elseLines_suite words alone, elseLines_suite words bare]
        exact .suite (sectionLines_traced elseBody _ _ _) level _ _ _
      cases elseBody with
      | nil => exact suite rfl rfl
      | cons only rest =>
        cases rest with
        | cons second others => exact suite rfl rfl
        | nil =>
          cases branch : isBranch only with
          | false => exact suite (loneBranch?_one branch) (loneBranch?_one (only.isBranch_uncommented.trans branch))
          | true =>
            have bare : isBranch only.uncommented = true := only.isBranch_uncommented.trans branch
            rw [Stmt.uncommentedList, Stmt.uncommentedList, elseLines_branch words branch, elseLines_branch words bare,
              Stmt.originsList, Stmt.originsList, List.append_nil]
            exact stmtLines_traced only level "elif"
    simp only [Stmt.uncommented, stmtLines_else]
    refine .bindSame .trivial fun text _ => .bind (sectionLines_traced thenBody _ _ _) fun _ _ first => ?_
    exact .bind others fun _ _ behind => .pure (.append (.header level _ (first.closed thenBody _)) behind)
  | .forEach _ _ _ body, level, _ =>
    .bindSame .trivial fun _ _ => .bindSame .trivial fun _ _ =>
      Traced.suite (sectionLines_traced body _ _ _) level _ body _
  | .whileLoop _ _ body, level, _ =>
    .bindSame .trivial fun _ _ => Traced.suite (sectionLines_traced body _ _ _) level _ body _
  | .attempt _ body handler none, level, _ => by
    have last : Traced words [] (finallyLines words (finalBody? handler none) level)
        (finallyLines words (finalBody? handler.uncommented none) level) := by
      cases handler with
      | absent => exact .suite (sectionLines_traced [] _ _ _) level _ [] _
      | present => exact Composed.nil
    simp only [Stmt.uncommented, stmtLines_attempt, Stmt.origins]
    refine .bind (sectionLines_traced body _ _ _) fun _ _ first => ?_
    refine .bind (handlerLines_traced handler level) fun _ _ handled => .bind last fun _ _ behind => .pure ?_
    simpa using ((Composed.header level _ (first.closed body _)).append handled).append behind
  | .attempt _ body handler (some finallyBody), level, _ => by
    have last : Traced words (Stmt.originsList finallyBody)
        (finallyLines words (finalBody? handler (some finallyBody)) level)
        (finallyLines words (finalBody? handler.uncommented (some (Stmt.uncommentedList finallyBody))) level) := by
      cases handler <;> exact .suite (sectionLines_traced finallyBody _ _ _) level _ _ _
    simp only [Stmt.uncommented, stmtLines_attempt]
    refine .bind (sectionLines_traced body _ _ _) fun _ _ first => ?_
    refine .bind (handlerLines_traced handler level) fun _ _ handled => .bind last fun _ _ behind => .pure ?_
    exact ((Composed.header level _ (first.closed body _)).append handled).append behind
  | .function _ name params body, level, _ => by
    refine .bindSame (unassigned_headerLines words name params level) fun header unassigned => ?_
    refine .bind (sectionLines_traced body _ _ _) fun _ _ inner => .pure ?_
    refine (Composed.plain unassigned).append ?_
    cases body with
    | nil => exact .nil
    | cons head tail => exact inner.closed (head :: tail) _
  | .declare _ _ names, level, _ => by
    simp only [Stmt.uncommented, stmtLines]
    split
    · exact rfl
    · exact .plain (.bind .trivial fun _ _ => .pure (by simp [lineAt]))
  | .return _ none, _, _ | .word _ .break, _, _ | .word _ .continue, _, _ | .word _ .pass, _, _
  | .word _ .nothing, _, _ => .plain (.pure (by simp [lineAt, passAt, Line.blank]))
  | .return _ (some _), level, _ => .single _ level _
  | .comment _ text, level, _ => Composed.comment level text .nil

theorem handlerLines_traced : ∀ (handler : Handler) (level : Nat),
    Traced words handler.origins (handlerLines words handler level) (handlerLines words handler.uncommented level)
  | .absent, _ => Composed.nil
  | .present none body, level => .suite (sectionLines_traced body _ _ _) level _ body _
  | .present (some _) body, level =>
    .bindSame .trivial fun _ _ => Traced.suite (sectionLines_traced body _ _ _) level _ body _

theorem sectionLines_traced : ∀ (statements : List Stmt) (level current : Nat) (idle : Bool),
    Traced words (Stmt.originsList statements) (sectionLines words statements level current idle)
      (sectionLines words (Stmt.uncommentedList statements) level current idle)
  | [], level, _, idle => by
    rw [Stmt.uncommentedList, sectionLines_nil]
    refine .plain (.pure ?_)
    cases idle <;> simp [idleLines, passAt, lineAt]
  | statement :: rest, level, current, idle => by
    rw [Stmt.uncommentedList, sectionLines, sectionLines, Stmt.isFunction_uncommented,
      Stmt.isFlatFunction_uncommented, Stmt.isNoop_uncommented]
    split
    · refine .bind (stmtLines_traced statement _ _) fun _ _ first => ?_
      refine .bind (sectionLines_traced rest _ _ _) fun _ _ behind => .pure ?_
      have idles : Composed words [] (idleLines level idle) (idleLines level idle) :=
        .plain (by cases idle <;> simp [idleLines, passAt, lineAt])
      exact (idles.append first).append behind
    · refine .bind (stmtLines_traced statement _ _) fun _ _ first => ?_
      exact .bind (sectionLines_traced rest _ _ _) fun _ _ behind => .pure (first.append behind)
end

/-- The lines of a program beside those without the texts of its comments. -/
theorem programLines_traced (program : Program) :
    Traced words program.origins (programLines words program) (programLines words program.uncommented) :=
  .bind (sectionLines_traced words program.statements 0 0 false) fun _ _ composed =>
    .pure (composed.closed program.statements 0)

end Code
end ArrayLift
