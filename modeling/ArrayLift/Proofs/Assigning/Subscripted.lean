import ArrayLift.Proofs.Layout.Yields
import ArrayLift.Proofs.Naming.DefaultWords
import ArrayLift.Proofs.Rendering.Assembly

/-! Assignments in whose targets some of the parentheses are decided to index. In a target that is written as a target
this changes nothing. Behind the first field with a computed name, though, a target is written as a value, and there
every parenthesis that is decided shows in the text. -/
namespace ArrayLift

namespace Expr

/-- The same expression, in which some of the parentheses on the way to its root are decided to index. -/
inductive Subscripted : Expr → Expr → Prop where
  | same (expr : Expr) : Subscripted expr expr
  | index {target other : Expr} (line : SourceLine) (form : IndexForm) (arguments : List Expr)
      (inner : Subscripted target other) :
      Subscripted (.index line form target arguments) (.index line form other arguments)
  | parentheses {target other : Expr} {form : IndexForm} (line : SourceLine) (arguments : List Expr)
      (round : form ≠ .cellRef) (inner : Subscripted target other) :
      Subscripted (.index line form target arguments) (.index line .arrayRef other arguments)
  | field {object other : Expr} (line : SourceLine) (name : String) (inner : Subscripted object other) :
      Subscripted (.field line object name) (.field line other name)
  | dynamicField {object other : Expr} (line : SourceLine) (selector : Expr) (inner : Subscripted object other) :
      Subscripted (.dynamicField line object selector) (.dynamicField line other selector)

/-- What is written as a value on the way of a target to its root: the object of the first field with a computed
name. -/
def valued? : Expr → Option Expr
  | .index _ _ target _ => valued? target
  | .field _ object _ => valued? object
  | .dynamicField _ object _ => some object
  | _ => none

/-- What is written as a value in the targets of an assignment. The object of a single target is written as a target
even if the name of its field is computed. -/
def valuedParts : List Expr → List (Option Expr)
  | [.dynamicField _ object _] => [object.valued?]
  | targets => targets.map valued?

/-- A name has no way to its root. -/
theorem Subscripted.ident?_of_ne {expr other : Expr} (subscripted : Subscripted expr other) (differ : other ≠ expr) :
    expr.ident? = none ∧ other.ident? = none := by
  cases subscripted with
  | same => exact absurd rfl differ
  | index | parentheses | field | dynamicField => exact ⟨rfl, rfl⟩

end Expr

namespace Code

/-- Neither text is a start of the other. -/
def Diverges (one other : String) : Prop :=
  ¬one.toList <+: other.toList ∧ ¬other.toList <+: one.toList

namespace Diverges

variable {one other : String}

theorem ne (diverges : Diverges one other) : other ≠ one := by
  rintro rfl
  exact diverges.1 List.prefix_rfl

/-- Nothing behind the texts brings them together. -/
theorem append (diverges : Diverges one other) (left right : String) : Diverges (one ++ left) (other ++ right) := by
  have met (rest : List Char) (first : one.toList <+: rest) (second : other.toList <+: rest) : False := by
    rcases List.prefix_or_prefix_of_prefix first second with start | start
    · exact diverges.1 start
    · exact diverges.2 start
  rw [Diverges, String.toList_append, String.toList_append]
  constructor
  · intro start
    exact met _ ((List.prefix_append ..).trans start) (List.prefix_append ..)
  · intro start
    exact met _ (List.prefix_append ..) ((List.prefix_append ..).trans start)

theorem prepend_iff (start : String) : Diverges (start ++ one) (start ++ other) ↔ Diverges one other := by
  simp [Diverges, List.prefix_append_right_inj]

theorem prepend (diverges : Diverges one other) (start : String) : Diverges (start ++ one) (start ++ other) :=
  (prepend_iff start).mpr diverges

/-- Texts with something around them. -/
theorem around (diverges : Diverges one other) (start left right : String) :
    Diverges (start ++ one ++ left) (start ++ other ++ right) :=
  (diverges.prepend start).append left right

theorem of_opening (left right : String) : Diverges ("(" ++ left) ("[" ++ right) := by
  simp [Diverges]

end Diverges

instance (one other : String) : Decidable (Diverges one other) :=
  inferInstanceAs (Decidable (_ ∧ _))

/-- Results that are the same fault or diverge are equal only as faults. -/
theorem Agree.eq_iff_fault {one other : Rendered} (apart : Agree Diverges one other) :
    other = one ↔ ∃ fault, one = .error fault := by
  cases one with
  | error fault =>
    cases other with
    | error => exact ⟨fun _ => ⟨fault, rfl⟩, fun _ => congrArg _ (Eq.symm apart)⟩
    | ok => cases apart
  | ok text =>
    cases other with
    | error => cases apart
    | ok => exact ⟨fun same => absurd (Except.ok.inj same) apart.ne, nofun⟩

/-- What stands before a call that fills the workspace. -/
def workspaceOpening : String :=
  LibraryName.workspace.spelling ++ "." ++ LibraryName.workspaceMerge ++ "("

/-- A call starts with what is called and a parenthesis, unless it fills the workspace. -/
theorem composeCall_opens (target : Operand) (arguments : List Operand) (results : Nat) :
    ∃ behind : String → String, composeCall target arguments results = (do
      let callee ← target.text
      let listed ← Operand.listed arguments
      pure ((if loadsWorkspace target.expr then workspaceOpening else "") ++ callee ++ "(" ++ behind listed)) := by
  let request := LibraryName.nargout.spelling ++ "=" ++ toString results
  refine ⟨fun listed => (if results ≤ 1 then listed else if listed.isEmpty then request else listed ++ "," ++ request)
    ++ ")" ++ if loadsWorkspace target.expr then ")" else "", ?_⟩
  refine congrArg (target.text >>= ·) (funext fun callee => congrArg (Operand.listed arguments >>= ·) ?_)
  funext listed
  beta_reduce
  split_ifs <;> simp [request, workspaceOpening, String.append_assoc]

theorem subscript_opens (target : Rendered) (arguments : List Operand) :
    ∃ behind : String → String, subscript target arguments = (do
      let target ← target
      let listed ← Operand.listed arguments
      pure (target ++ "[" ++ behind listed)) := by
  cases arguments with
  | nil =>
    refine ⟨fun _ => Operator.colon.canonical ++ "]", ?_⟩
    simp [subscript, Operand.listed, Operand.joined, String.append_assoc]
  | cons first rest => exact ⟨fun listed => listed ++ "]", by simp [subscript, String.append_assoc]⟩

variable {words : ReservedWords}

/-- The name of what fills the workspace does not start like the workspace. -/
theorem diverges_of_loads {target : Expr} (loads : loadsWorkspace target = true) :
    Yields (Diverges workspaceOpening) (exprText words target) := by
  have named {name : String} (loader : LibraryName.isWorkspaceLoader name = true) (reserved : Bool) :
      Diverges workspaceOpening (ReservedWords.pythonName name reserved) := by
    obtain rfl : name = "load" := by simpa [LibraryName.isWorkspaceLoader, LibraryName.workspaceLoaders] using loader
    cases reserved <;> decide
  match target with
  | .ident _ (.mk name none _ _ _) => exact .pure (named loads _)
  | .ident _ (.mk name (some init) _ _ _) =>
    refine .bind .trivial fun value _ => .pure ?_
    simpa [String.append_assoc, Ident.name] using (named loads _).append "" ("=" ++ value)
  | .literal .. | .operation .. | .field .. | .dynamicField .. | .index .. | .rows .. | .lambda .. => cases loads

/-- A call and a subscript with the same start. -/
theorem call_apart (target : Expr) (arguments : List Operand) (results : Nat) :
    Agree Diverges (composeCall ⟨target, exprText words target⟩ arguments results)
      (subscript (exprText words target) arguments) := by
  obtain ⟨called, callText⟩ := composeCall_opens ⟨target, exprText words target⟩ arguments results
  obtain ⟨indexed, indexText⟩ := subscript_opens (exprText words target) arguments
  rw [callText, indexText]
  cases loads : loadsWorkspace target with
  | false =>
    refine .bindSame .trivial fun text _ => .bindSame .trivial fun listed _ => .pure ?_
    simpa [String.append_assoc] using (Diverges.of_opening (called listed) (indexed listed)).prepend text
  | true =>
    refine .bindSame (diverges_of_loads loads) fun text apart => .bindSame .trivial fun listed _ => .pure ?_
    simpa [String.append_assoc] using apart.append (text ++ "(" ++ called listed) ("[" ++ indexed listed)

theorem subscript_apart {target other : Rendered} (apart : Agree Diverges target other) (arguments : List Operand) :
    Agree Diverges (subscript target arguments) (subscript other arguments) := by
  obtain ⟨first, firstText⟩ := subscript_opens target arguments
  obtain ⟨second, secondText⟩ := subscript_opens other arguments
  rw [firstText, secondText]
  refine apart.bind fun one two diverges => .bindSame .trivial fun listed _ => .pure ?_
  simpa only [String.append_assoc] using diverges.append ("[" ++ first listed) ("[" ++ second listed)

/-- An indexed expression starts with what is indexed, unless that is a name. -/
theorem composeIndex_opens {target : Operand} (plain : target.expr.ident? = none) (form : IndexForm)
    (arguments : List Operand) :
    ∃ behind : String → String, composeIndex form target arguments = (do
      let target ← target.text
      let listed ← Operand.listed arguments
      pure (target ++ behind listed)) := by
  have called (results : Nat) : ∃ behind : String → String, composeCall target arguments results = (do
      let target ← target.text
      let listed ← Operand.listed arguments
      pure (target ++ behind listed)) := by
    obtain ⟨behind, opens⟩ := composeCall_opens target arguments results
    refine ⟨fun listed => "(" ++ behind listed, ?_⟩
    simpa [loadsWorkspace, plain, String.append_assoc] using opens
  cases form with
  | apply => exact called 1
  | call results => exact called results
  | arrayRef | cellRef =>
    obtain ⟨behind, opens⟩ := subscript_opens target.text arguments
    refine ⟨fun listed => "[" ++ behind listed, ?_⟩
    simpa only [composeIndex, String.append_assoc] using opens

/-- Where what is indexed diverges, so do the indexed expressions, however they are written. -/
theorem composeIndex_apart {target other : Operand} (plain : target.expr.ident? = none)
    (same : other.expr.ident? = none) (apart : Agree Diverges target.text other.text) (form decided : IndexForm)
    (arguments : List Operand) :
    Agree Diverges (composeIndex form target arguments) (composeIndex decided other arguments) := by
  obtain ⟨first, firstText⟩ := composeIndex_opens plain form arguments
  obtain ⟨second, secondText⟩ := composeIndex_opens same decided arguments
  rw [firstText, secondText]
  exact apart.bind fun one two diverges => .bindSame .trivial fun listed _ => .pure (diverges.append _ _)

end Code

open Code

variable {words : ReservedWords}

namespace Expr.Subscripted

/-- An expression in value position shows every parenthesis that is decided. -/
theorem exprText_apart {expr other : Expr} (subscripted : Subscripted expr other) (differ : other ≠ expr) :
    Agree Diverges (exprText words expr) (exprText words other) := by
  induction subscripted with
  | same => exact absurd rfl differ
  | @index target other line form arguments inner ih =>
    have changed : other ≠ target := mt (congrArg (Expr.index line form · arguments)) differ
    obtain ⟨plain, same⟩ := inner.ident?_of_ne changed
    exact @composeIndex_apart ⟨_, _⟩ ⟨_, _⟩ plain same (ih changed) form form _
  | @parentheses target other form line arguments round inner ih =>
    by_cases changed : other = target
    · subst changed
      cases form with
      | apply => exact call_apart _ _ 1
      | call results => exact call_apart _ _ results
      | arrayRef => exact absurd rfl differ
      | cellRef => exact absurd rfl round
    · obtain ⟨plain, same⟩ := inner.ident?_of_ne changed
      exact @composeIndex_apart ⟨_, _⟩ ⟨_, _⟩ plain same (ih changed) form .arrayRef _
  | @field object other line name inner ih =>
    have changed : other ≠ object := mt (congrArg (Expr.field line · name)) differ
    refine (ih changed).bind fun one two diverges => .pure ?_
    simpa only [String.append_assoc] using diverges.append _ _
  | @dynamicField object other line selector inner ih =>
    have changed : other ≠ object := mt (congrArg (Expr.dynamicField line · selector)) differ
    refine (ih changed).bind fun one two diverges => .bindSame .trivial fun listed _ => .pure ?_
    simpa only [callOf, String.append_assoc] using diverges.around (LibraryName.getAttribute.spelling ++ "(") _ _

end Expr.Subscripted

namespace Code

/-- The results are the same under a condition, and without it they diverge or are the same fault. -/
def Tells (alike : Prop) (one other : Rendered) : Prop :=
  (alike → other = one) ∧ (¬alike → Agree Diverges one other)

namespace Tells

variable {alike : Prop} {one other : Rendered}

theorem refl (result : Rendered) (holds : alike) : Tells alike result result :=
  ⟨fun _ => rfl, fun differ => absurd holds differ⟩

theorem iff {same : Prop} (tells : Tells alike one other) (meaning : same ↔ alike) : Tells same one other :=
  ⟨fun holds => tells.1 (meaning.mp holds), fun fails => tells.2 (mt meaning.mpr fails)⟩

theorem through (tells : Tells alike one other) (next : Rendered → Rendered)
    (keeps : Agree Diverges one other → Agree Diverges (next one) (next other)) : Tells alike (next one) (next other) :=
  ⟨fun holds => congrArg next (tells.1 holds), fun fails => keeps (tells.2 fails)⟩

/-- Texts with something around them. -/
theorem around (tells : Tells alike one other) (start behind : String) :
    Tells alike (do
      let text ← one
      pure (start ++ text ++ behind)) (do
      let text ← other
      pure (start ++ text ++ behind)) :=
  tells.through (fun result => result >>= fun text => pure (start ++ text ++ behind)) fun apart =>
    apart.bind fun _ _ diverges => .pure (diverges.around start behind behind)

/-- What comes behind a result that both have. -/
theorem behind {α : Type} (result : Except Fault α) {next after : α → Rendered}
    (tells : ∀ value, Tells alike (next value) (after value)) : Tells alike (result >>= next) (result >>= after) :=
  ⟨fun holds => congrArg (result >>= ·) (funext fun value => (tells value).1 holds),
    fun fails => .bindSame .trivial fun value _ => (tells value).2 fails⟩

/-- Either both are texts or both are faults. -/
theorem agree (tells : Tells alike one other) : Agree (fun _ _ => True) one other := by
  by_cases holds : alike
  · rw [tells.1 holds]
    cases one <;> simp [Agree]
  · exact (tells.2 holds).mono fun _ _ _ => trivial

/-- Two texts one behind the other. -/
theorem pair {same : Prop} {left right : Rendered} (first : Tells alike one other) (second : Tells same left right)
    (start : String) :
    Tells (alike ∧ same) (do
      let text ← one
      let rest ← left
      pure (start ++ text ++ rest)) (do
      let text ← other
      let rest ← right
      pure (start ++ text ++ rest)) := by
  by_cases holds : alike
  · rw [first.1 holds]
    refine .behind one fun text => ?_
    simpa using (second.around (start ++ text) "").iff (and_iff_right holds)
  · refine ⟨fun both => absurd both.1 holds, fun _ => ?_⟩
    exact (first.2 holds).bind fun _ _ diverges => second.agree.bind fun left right _ =>
      .pure (diverges.around start left right)

theorem eq_iff (tells : Tells alike one other) : other = one ↔ (∃ fault, one = .error fault) ∨ alike := by
  by_cases holds : alike
  · exact iff_of_true (tells.1 holds) (Or.inr holds)
  · rw [or_iff_left holds]
    exact (tells.2 holds).eq_iff_fault

end Tells
end Code

/-- A target shows what is decided in the part that is written as a value, and nothing else of it. -/
theorem Expr.Subscripted.targetText {target other : Expr} (subscripted : Subscripted target other) :
    Tells (other.valued? = target.valued?) (Code.targetText words target) (Code.targetText words other) := by
  induction subscripted with
  | same => exact .refl _ rfl
  | index line form arguments inner ih | parentheses line arguments round inner ih =>
    exact ih.through (subscript · _) fun apart => subscript_apart apart _
  | field line name inner ih =>
    simpa [Code.targetText, valued?, String.append_assoc] using ih.around "" ("." ++ fieldName words name)
  | dynamicField line selector inner _ =>
    constructor
    · intro alike
      obtain rfl := Option.some.inj alike
      rfl
    · intro differ
      refine (inner.dynamicField line selector).exprText_apart fun same => differ ?_
      exact congrArg valued? same

namespace Code

/-- Targets one behind the other, each behind a comma. -/
def furtherTargets (words : ReservedWords) : List Expr → Rendered
  | [] => pure ""
  | target :: rest => do
    let text ← targetText words target
    let rest ← furtherTargets words rest
    pure ("," ++ text ++ rest)

theorem furtherTargets_eq (words : ReservedWords) (targets : List Expr) :
    furtherTargets words targets = (do
      let texts ← targets.mapM (targetText words)
      pure (String.join (texts.map ("," ++ ·)))) := by
  induction targets with
  | nil => rfl
  | cons target rest ih => simp [furtherTargets, ih, String.join_cons]

theorem intercalate_eq_join (separator first : String) (rest : List String) :
    separator.intercalate (first :: rest) = first ++ String.join (rest.map (separator ++ ·)) := by
  induction rest generalizing first with
  | nil => simp
  | cons next others ih =>
    rw [String.intercalate_cons_cons, ih next, List.map_cons, String.join_cons]
    simp only [String.append_assoc]

theorem assignText_further (words : ReservedWords) (line : SourceLine) (first second : Expr) (rest : List Expr)
    (value : Expr) :
    assignText words line (first :: second :: rest) value = (do
      let text ← exprText words value
      let one ← targetText words first
      let others ← furtherTargets words (second :: rest)
      pure (one ++ others ++ "=" ++ text)) := by
  rw [assignText_several, furtherTargets_eq]
  simp [intercalate_eq_join, String.append_assoc]

/-- Several targets, one behind the other. -/
theorem furtherTargets_subscripted {targets others : List Expr} (each : List.Forall₂ Expr.Subscripted targets others) :
    Tells (others.map Expr.valued? = targets.map Expr.valued?) (furtherTargets words targets)
      (furtherTargets words others) := by
  induction each with
  | nil => exact .refl _ rfl
  | cons subscripted _ ih =>
    refine (subscripted.targetText.pair ih ",").iff ?_
    rw [List.map_cons, List.map_cons, List.cons.injEq]

/-- An assignment shows what is decided in the parts of its targets that are written as values. -/
theorem assignText_subscripted {targets others : List Expr} (each : List.Forall₂ Expr.Subscripted targets others)
    (line : SourceLine) (value : Expr) :
    Tells (Expr.valuedParts others = Expr.valuedParts targets) (assignText words line targets value)
      (assignText words line others value) := by
  cases each with
  | nil => exact .refl _ rfl
  | @cons target other _ _ subscripted rest =>
    cases rest with
    | nil =>
      have alone : Tells _ (targetText words target) _ := subscripted.targetText
      refine .behind _ fun text => ?_
      cases subscripted with
      | same => exact .refl _ rfl
      | index | parentheses =>
        simpa [Expr.valuedParts, Expr.ident?, String.append_assoc] using alone.around "" ("=" ++ text)
      | field line name inner =>
        have object : Tells _ (targetText words _) _ := inner.targetText
        simpa [Expr.valuedParts, Expr.valued?, String.append_assoc] using
          object.around "" ("." ++ fieldName words name ++ " = " ++ callOf .copy text)
      | dynamicField line selector inner =>
        have object : Tells _ (targetText words _) _ := inner.targetText
        refine (object.through (fun object => do
          let object ← object
          let selector ← exprText words selector
          pure (callOf .setAttribute (object ++ "," ++ selector ++ "," ++ text))) fun apart => ?_).iff
          (by simp [Expr.valuedParts])
        refine apart.bind fun one two diverges => .bindSame .trivial fun selector _ => .pure ?_
        simpa only [callOf, String.append_assoc] using diverges.around (LibraryName.setAttribute.spelling ++ "(") _ _
    | cons next more =>
      have first : Tells _ (targetText words target) _ := subscripted.targetText
      have further : Tells _ (furtherTargets words _) _ := furtherTargets_subscripted (.cons next more)
      have both := first.pair further ""
      rw [assignText_further, assignText_further]
      refine .behind _ fun text => ?_
      simpa [Expr.valuedParts, String.append_assoc] using both.around "" ("=" ++ text)

namespace Line

/-- What the line of an assignment has around the text of the assignment. -/
theorem layout_assignment (settings : Settings) (level : Nat) (line : SourceLine) :
    ∃ behind, ∀ text, text ≠ "" →
      layout settings [⟨level, text, some line⟩] = settings.indent level ++ text ++ behind := by
  cases sourced : settings.sourceName with
  | none =>
    refine ⟨"\n", fun text written => ?_⟩
    simp [layout, render, content, written, sourced]
  | some file =>
    refine ⟨provenance file line ++ "\n", fun text written => ?_⟩
    simp [layout, render, content, written, sourced, String.append_assoc]

theorem layout_diverges (settings : Settings) (level : Nat) (line : SourceLine) {one other : String}
    (diverges : Diverges one other) :
    Diverges (layout settings [⟨level, one, some line⟩]) (layout settings [⟨level, other, some line⟩]) := by
  obtain ⟨behind, written⟩ := layout_assignment settings level line
  have some : one ≠ "" := by
    rintro rfl
    exact diverges.1 List.nil_prefix
  have same : other ≠ "" := by
    rintro rfl
    exact diverges.2 List.nil_prefix
  rw [written one some, written other same]
  exact diverges.around _ behind behind

end Line
end Code

namespace Stmt

/-- Whether the parentheses of targets are decided or not, an assignment is written alike exactly if nothing is decided
behind the first field with a computed name of a target, a single target itself apart. An assignment without a text has
the same fault in either case. -/
theorem rendered_subscripted_iff (settings : Settings) (line : SourceLine) {targets others : List Expr} (value : Expr)
    (level : Nat) (keyword : String) (each : List.Forall₂ Expr.Subscripted targets others) :
    (stmtLines settings.reserved (.assign line others value) level keyword).map (Line.layout settings) =
        (stmtLines settings.reserved (.assign line targets value) level keyword).map (Line.layout settings) ↔
      (∃ fault, assignText settings.reserved line targets value = .error fault) ∨
        Expr.valuedParts others = Expr.valuedParts targets := by
  have tells : Tells _ (assignText settings.reserved line targets value) _ := assignText_subscripted each line value
  have written := tells.through (fun result => do
    let text ← result
    pure (Line.layout settings [⟨level, text, some line⟩])) fun apart =>
      apart.bind fun _ _ diverges => .pure (Line.layout_diverges settings level line diverges)
  have rendered (targets : List Expr) :
      (stmtLines settings.reserved (.assign line targets value) level keyword).map (Line.layout settings) = (do
        let text ← assignText settings.reserved line targets value
        pure (Line.layout settings [⟨level, text, some line⟩])) := by
    simp only [stmtLines]
    cases assignText settings.reserved line targets value <;> rfl
  rw [rendered, rendered, written.eq_iff]
  refine or_congr_left ?_
  cases assignText settings.reserved line targets value with
  | error fault => exact iff_of_true ⟨fault, rfl⟩ ⟨fault, rfl⟩
  | ok => exact ⟨nofun, nofun⟩

/-- The target `s(1).(n)(2)`, with its inner and its outer parentheses as they are decided. -/
def computedPlace (inner outer : IndexForm) : Expr :=
  .index 1 outer (.dynamicField 1 (.index 1 inner (.named "s" 1) [.literal 1 (.number (.int 1))]) (.named "n" 1))
    [.literal 1 (.number (.int 2))]

/-- The assignment of three to that target. -/
def computedAssignment (inner outer : IndexForm) : Stmt :=
  .assign 1 [computedPlace inner outer] (.literal 1 (.number (.int 3)))

theorem rendered_subscripted_outer :
    List.Forall₂ Expr.Subscripted [computedPlace .apply .apply] [computedPlace .apply .arrayRef] ∧
      (stmtLines .standard (computedAssignment .apply .arrayRef) 0 "if").map (Line.layout {}) =
        (stmtLines .standard (computedAssignment .apply .apply) 0 "if").map (Line.layout {}) := by
  have each : List.Forall₂ Expr.Subscripted [computedPlace .apply .apply] [computedPlace .apply .arrayRef] :=
    .cons (.parentheses _ _ (by decide) (.same _)) .nil
  have standard : ({} : Settings).reserved = .standard := by dsimp only
  have rendered := rendered_subscripted_iff {} 1 (.literal 1 (.number (.int 3))) 0 "if" each
  rw [standard] at rendered
  exact ⟨each, rendered.mpr (.inr rfl)⟩

/-- In the object of a computed field of a target, undecided parentheses call and decided ones index. -/
theorem rendered_subscripted_inner :
    List.Forall₂ Expr.Subscripted [computedPlace .apply .apply] [computedPlace .arrayRef .arrayRef] ∧
      generate {} ⟨[computedAssignment .apply .apply]⟩ = .ok "getattr(s(1),n)[2]=3\n" ∧
      generate {} ⟨[computedAssignment .arrayRef .arrayRef]⟩ = .ok "getattr(s[1],n)[2]=3\n" := by
  rw [ReservedWords.standard_eq]
  refine ⟨.cons ?_ .nil, by decide, by decide⟩
  exact .parentheses _ _ (by decide) (.dynamicField _ _ (.parentheses _ _ (by decide) (.same _)))

end Stmt
end ArrayLift
