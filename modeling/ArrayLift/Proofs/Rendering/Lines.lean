import ArrayLift.Proofs.Layout.Ownership
import ArrayLift.Proofs.Rendering.Texts

/-! Where the texts of nodes stand in the lines of a program, and so in the text that is generated. -/
namespace ArrayLift
namespace Code

variable {words : ReservedWords}

/-- The text stands within one of the lines. -/
def Stands (lines : List Line) (part : String) : Prop :=
  ∃ line ∈ lines, Within part line.text

/-- The lines, if there are any, hold the texts of the nodes. -/
def Displays (words : ReservedWords) (nodes : List Node) (lines : Lines) : Prop :=
  Yields (fun lines => Carries words nodes (Stands lines)) lines

namespace Carries

variable {nodes : List Node} {lines : List Line}

theorem before (carries : Carries words nodes (Stands lines)) (others : List Line) :
    Carries words nodes (Stands (lines ++ others)) :=
  carries.mono fun _ ⟨line, member, within⟩ => ⟨line, List.mem_append_left _ member, within⟩

theorem behind (carries : Carries words nodes (Stands lines)) (others : List Line) :
    Carries words nodes (Stands (others ++ lines)) :=
  carries.mono fun _ ⟨line, member, within⟩ => ⟨line, List.mem_append_right _ member, within⟩

theorem below (carries : Carries words nodes (Stands lines)) (header : Line) :
    Carries words nodes (Stands (header :: lines)) :=
  carries.behind [header]

theorem head {text : String} (carries : Carries words nodes (Within · text)) {line : Line}
    (within : Within text line.text) : Carries words nodes (Stands (line :: lines)) :=
  carries.mono fun _ inner => ⟨line, List.mem_cons_self, inner.trans within⟩

theorem closed (carries : Carries words nodes (Stands lines)) (statements : List Stmt) (level : Nat) :
    Carries words nodes (Stands (closed statements level lines)) := by
  unfold Code.closed
  split
  · exact carries.before _
  · exact carries

end Carries

namespace Displays

variable {nodes before after : List Node} {lines : Lines}

theorem nothing : Displays words [] lines := fun _ _ => .nil

theorem statement (displays : Displays words nodes lines) {statement : Stmt} :
    Displays words (.statement statement :: nodes) lines :=
  fun text made => .cons (fun _ => nofun) (displays text made)

/-- A single line. -/
theorem single {result : Rendered} (holds : Holds words nodes result) {make : String → Line}
    (within : ∀ text, Within text (make text).text) :
    Displays words nodes (do
      let text ← result
      pure [make text]) :=
  .bind holds fun text carries => .pure (carries.head (within text))

/-- The statements of a list below a line. -/
theorem suite (displays : Displays words nodes lines) (header : Line) (body : List Stmt) (level : Nat) :
    Displays words nodes (do
      let lines ← lines
      pure (header :: closed body level lines)) :=
  .bind displays fun _ carries => .pure ((carries.closed body level).below header)

/-- The statements of a list below a line that is made of a text. -/
theorem headed {result : Rendered} (holds : Holds words before result) (displays : Displays words after lines)
    {make : String → Line} (within : ∀ text, Within text (make text).text) (body : List Stmt) (level : Nat) :
    Displays words (before ++ after) (do
      let text ← result
      let lines ← lines
      pure (make text :: closed body level lines)) :=
  .bind holds fun text carries => .bind displays fun _ others =>
    .pure (.append (carries.head (within text)) ((others.closed body level).below _))

end Displays

theorem headerLines_displays (name : Ident) (params : List Ident) (level : Nat) :
    Displays words (name.nodes ++ Ident.nodesList params) (headerLines words name params level) := by
  refine .bind (name.identText_holds words) fun text carries => ?_
  refine .bind (Ident.identTexts_holds words params) fun texts each => .pure ?_
  refine Carries.before (.below (.append ?_ ?_) _) _
  · exact carries.head ((((Within.refl text).right _).left _ |>.left _).left _)
  · refine each.mono fun part known => ?_
    obtain ⟨param, member, within⟩ := known
    exact ⟨_, List.mem_cons_self, ((within.join (List.mem_append_left _ member)).right _).left _⟩

variable (words)

mutual
theorem stmtLines_displays : ∀ (statement : Stmt) (level : Nat) (keyword : String),
    Displays words statement.nodes (stmtLines words statement level keyword)
  | .expression _ value, _, _ => .statement (.single (value.exprText_holds words) .refl)
  | .assign line targets value, _, _ => .single (assignText_holds words line targets value) .refl
  | .branch _ condition thenBody none, level, _ =>
    .statement (.headed (condition.exprText_holds words) (sectionLines_displays thenBody _ _ _)
      (fun text => (Within.refl text).around _ _) _ _)
  | .branch line condition thenBody (some elseBody), level, keyword => by
    have others : Displays words (Stmt.nodesList elseBody) (elseLines words elseBody level) := by
      match elseBody with
      | [] | _ :: _ :: _ =>
        rw [elseLines_suite words (by rfl)]
        exact .suite (sectionLines_displays _ _ _ _) _ _ _
      | [only] =>
        cases branch : isBranch only with
        | false =>
          rw [elseLines_suite words (loneBranch?_one branch)]
          exact .suite (sectionLines_displays [only] _ _ _) _ _ _
        | true =>
          rw [elseLines_branch words branch, Stmt.nodesList, Stmt.nodesList, List.append_nil]
          exact stmtLines_displays only level "elif"
    rw [stmtLines_else, Stmt.nodes]
    refine .statement (.bind (condition.exprText_holds words) fun text carries => ?_)
    refine .bind (sectionLines_displays thenBody _ _ _) fun lines inner => .bind others fun rest behind => .pure ?_
    refine .append ((carries.head ((Within.refl text).around _ _)).before _) (.append ?_ (behind.behind _))
    exact ((inner.closed thenBody _).below _).before _
  | .forEach _ loopName columns body, level, _ => by
    have grouped : Holds words columns.nodes (Operand.grouped ⟨columns, exprText words columns⟩) :=
      Operand.grouped_holds (columns.exprText_holds words)
    refine .statement (.bind (loopName.identText_holds words) fun name named => ?_)
    refine .bind grouped fun text carries => .bind (sectionLines_displays body _ _ _) fun lines inner => .pure ?_
    refine .append (named.head ?_) (.append (carries.head ?_) ((inner.closed body _).below _))
    · exact ((((Within.refl name).right _).left _).left _ |>.left _ |>.left _).left _
    · exact (((Within.refl text).right _).left _ |>.left _).left _
  | .whileLoop _ condition body, level, _ =>
    .statement (.headed (condition.exprText_holds words) (sectionLines_displays body _ _ _)
      (fun text => (Within.refl text).around _ _) _ _)
  | .attempt line body handler none, level, keyword => by
    rw [stmtLines_attempt, Stmt.nodes]
    refine .statement (.bind (sectionLines_displays body _ _ _) fun lines inner => ?_)
    refine .bind (handlerLines_displays handler level) fun handled carries => .bind .trivial fun rest _ => .pure ?_
    exact .append ((((inner.closed body _).below _).before _).before _) ((carries.behind _).before _)
  | .attempt line body handler (some finallyBody), level, keyword => by
    have last : Displays words (Stmt.nodesList finallyBody)
        (finallyLines words (finalBody? handler (some finallyBody)) level) := by
      cases handler <;> exact .suite (sectionLines_displays finallyBody _ _ _) _ _ _
    rw [stmtLines_attempt, Stmt.nodes]
    refine .statement (.bind (sectionLines_displays body _ _ _) fun lines inner => ?_)
    refine .bind (handlerLines_displays handler level) fun handled carries => last.bind fun rest behind => .pure ?_
    refine .append ((((inner.closed body _).below _).before _).before _) (.append ?_ (behind.behind _))
    exact (carries.behind _).before _
  | .function _ name params body, level, _ => by
    refine .statement (.bind (headerLines_displays name params level) fun header carries => ?_)
    refine .bind (sectionLines_displays body _ _ _) fun lines inner => .pure (.append (carries.before _) ?_)
    cases body with
    | nil => exact .nil
    | cons => exact (inner.closed _ _).behind _
  | .declare _ _ names, level, _ => by
    simp only [stmtLines]
    split
    · exact .error _
    · refine .statement (.bind (Ident.identTexts_holds words names) fun texts each => .pure ?_)
      exact each.mono fun part ⟨name, member, within⟩ => ⟨_, List.mem_cons_self, (within.join member).right _⟩
  | .return _ none, _, _ | .word _ .break, _, _ | .word _ .continue, _, _ | .word _ .pass, _, _
  | .word _ .nothing, _, _ | .comment .., _, _ => .statement .nothing
  | .return _ (some value), _, _ =>
    .statement (.single (value.exprText_holds words) fun text => (Within.refl text).right _)

theorem handlerLines_displays : ∀ (handler : Handler) (level : Nat),
    Displays words handler.nodes (handlerLines words handler level)
  | .absent, _ => .nothing
  | .present none body, _ => .suite (sectionLines_displays body _ _ _) _ _ _
  | .present (some name) body, _ =>
    .headed (name.identText_holds words) (sectionLines_displays body _ _ _)
      (fun text => (Within.refl text).around _ _) _ _

theorem sectionLines_displays : ∀ (statements : List Stmt) (level current : Nat) (idle : Bool),
    Displays words (Stmt.nodesList statements) (sectionLines words statements level current idle)
  | [], _, _, _ => .nothing
  | statement :: rest, level, current, idle => by
    rw [sectionLines]
    split
    · refine .bind (stmtLines_displays statement _ _) fun lines carries => ?_
      refine .bind (sectionLines_displays rest _ _ _) fun others behind => .pure ?_
      exact .append ((carries.behind _).before _) (behind.behind _)
    · refine .bind (stmtLines_displays statement _ _) fun lines carries => ?_
      refine .bind (sectionLines_displays rest _ _ _) fun others behind => .pure ?_
      exact .append (carries.before _) (behind.behind _)
end

theorem within_content (settings : Settings) (line : Line) : Within line.text (line.content settings) := by
  unfold Line.content
  split
  · exact (Within.refl _).left _
  · exact .refl _

theorem within_render (settings : Settings) (line : Line) : Within line.text (line.render settings) := by
  unfold Line.render
  split
  case isTrue blank => exact String.isEmpty_iff.mp blank ▸ .empty _
  case isFalse => exact (within_content settings line).around _ _

theorem within_layout (settings : Settings) {lines : List Line} {part : String} (stands : Stands lines part) :
    Within part (Line.layout settings lines) := by
  obtain ⟨line, member, within⟩ := stands
  refine (within.trans (within_render settings line)).trans ?_
  rw [Within, Line.layout, String.toList_join, List.flatMap_def]
  exact List.infix_of_mem_flatten (List.mem_map_of_mem (List.mem_map_of_mem member))

/-- Every name and every operation that generation renders stands in the text that it gives. -/
theorem generate_holds (settings : Settings) (program : Program) :
    Holds settings.reserved program.nodes (generate settings program) := by
  have lines : Displays settings.reserved program.nodes (programLines settings.reserved program) :=
    .bind (sectionLines_displays settings.reserved program.statements 0 0 false) fun lines carries =>
      .pure (carries.closed program.statements 0)
  exact .bind lines fun _ carries => .pure (carries.mono fun _ => within_layout settings)

end Code
end ArrayLift
