import ArrayLift.Proofs.Assigning.Forms
import ArrayLift.Proofs.Naming.DefaultWords

/-! What assignments are in Python. A target has the form of a reference to which something can be assigned, unless it
is itself a field with a computed name: that one is a call. A single such target makes the whole statement a call that
sets the attribute; among several targets it stays on the left of the equality sign. -/
namespace ArrayLift

namespace Expr

/-- Is the expression an identifier, or made from one by indexing and field access? -/
def isPlace : Expr → Bool
  | .ident _ named => named.init.isNone
  | .index _ _ target _ => isPlace target
  | .field _ object _ => isPlace object
  | .dynamicField _ object _ => isPlace object
  | .literal .. | .operation .. | .rows .. | .lambda .. => false

/-- Is the expression itself a field with a computed name? -/
def isDynamicField : Expr → Bool
  | .dynamicField .. => true
  | _ => false

/-- What a place is as a target. -/
def reference : Expr → Python.Reference
  | .index .. => .subscript
  | .field .. => .member
  | .dynamicField .. => .call
  | _ => .name

theorem reference_call_iff (expr : Expr) : expr.reference = .call ↔ expr.isDynamicField = true := by
  cases expr <;> simp [reference, isDynamicField]

end Expr

open Code Python

/-- The keywords of Python are reserved. -/
def ReservedWords.Guards (words : ReservedWords) : Prop :=
  ∀ keyword ∈ keywords, words.contains keyword = true

theorem ReservedWords.guards_standard : ReservedWords.standard.Guards := by
  intro keyword known
  rw [contains_standard, decide_eq_true_eq]
  revert keyword
  decide

variable {words : ReservedWords}

theorem isWord_suffixed {name : List Char} (word : isWord name = true) : isWord (name ++ ['_']) = true := by
  cases name with
  | nil => cases word
  | cons first rest =>
    obtain ⟨starts, continues⟩ := Bool.and_eq_true_iff.mp word
    have suffix : continuesWord '_' = true := by decide
    simp [isWord, starts, List.all_append, continues, suffix]

/-- A word becomes a name. -/
theorem isName_pythonName (guards : words.Guards) {name : String} (word : isWord name.toList = true) (reserved : Bool) :
    isName (ReservedWords.pythonName name (reserved || words.contains name)) = true := by
  rw [isName, Bool.and_eq_true, Bool.not_eq_true', ReservedWords.pythonName]
  split
  case isTrue =>
    refine ⟨?_, Bool.eq_false_iff.mpr fun keyword => ?_⟩
    · rw [String.toList_append]
      exact isWord_suffixed word
    · exact suffixed_not_mem_keywords name (List.contains_iff_mem.mp keyword)
  case isFalse free =>
    refine ⟨word, Bool.eq_false_iff.mpr fun keyword => free ?_⟩
    rw [guards name (List.contains_iff_mem.mp keyword), Bool.or_true]

/-- The text of a target is a reference. -/
theorem Expr.refers_targetText (guards : words.Guards) : ∀ target : Expr, target.isPlace = true → Worded target.nodes →
    Yields (Refers target.reference) (targetText words target)
  | .ident _ (.mk _ none _ reserved _), _, worded => by
    simp only [Expr.nodes, Ident.nodes, worded_cons] at worded
    exact .pure (.name (isName_pythonName guards worded.2.1 reserved))
  | .index _ _ target arguments, place, worded => by
    simp only [Expr.nodes, worded_cons, worded_append] at worded
    rw [targetText, subscript_eq]
    refine .bind (refers_targetText guards target place worded.2.1) fun text refers => ?_
    have indexed := complete_indexText (Expr.complete_operandsOf words arguments worded.2.2)
    refine .bind indexed fun index complete => .pure ?_
    exact .subscript refers complete.balanced complete.written
  | .field _ object _, place, worded => by
    simp only [Expr.nodes, worded_cons] at worded
    refine .bind (refers_targetText guards object place worded.2) fun text refers => .pure ?_
    exact .member refers (isName_pythonName guards worded.1 false)
  | .dynamicField line object selector, place, worded => by
    simp only [Expr.nodes, worded_cons, worded_append] at worded
    refine .bind (Expr.complete_exprText words object worded.2.1) fun one first => ?_
    refine .bind (Expr.complete_exprText words selector worded.2.2) fun other second => .pure ?_
    have callee : Refers .name LibraryName.getAttribute.spelling := .name (by decide)
    exact .call callee (first.between (.bare (by decide)) second).balanced

/-- The texts of several targets, one for each. -/
theorem Expr.refers_targetTexts (guards : words.Guards) {targets : List Expr}
    (places : ∀ target ∈ targets, target.isPlace = true) (worded : Worded (Expr.nodesEach targets).flatten) :
    Yields (List.Forall₂ (fun target side => Refers target.reference side) targets)
      (targets.mapM (targetText words)) := by
  induction targets with
  | nil => exact .pure .nil
  | cons target rest ih =>
    obtain ⟨place, others⟩ := List.forall_mem_cons.mp places
    simp only [Expr.nodesEach, List.flatten_cons, worded_append] at worded
    rw [List.mapM_cons]
    refine .bind (target.refers_targetText guards place worded.1) fun side refers => ?_
    exact .bind (ih others worded.2) fun sides each => .pure (.cons refers each)

/-- References are calls exactly where the targets are fields with computed names. -/
theorem no_call_iff {targets : List Expr} {sides : List String}
    (each : List.Forall₂ (fun target side => Refers target.reference side) targets sides) :
    (∀ side ∈ sides, ∃ kind, Refers kind side) ∧
      ((∀ side ∈ sides, ¬Refers .call side) ↔ ∀ target ∈ targets, target.isDynamicField = false) := by
  induction each with
  | nil => exact ⟨nofun, iff_of_true nofun nofun⟩
  | @cons target side _ _ refers _ ih =>
    refine ⟨List.forall_mem_cons.mpr ⟨⟨_, refers⟩, ih.1⟩, ?_⟩
    have called : Refers .call side ↔ target.isDynamicField = true := by
      rw [← target.reference_call_iff]
      constructor
      · intro call
        exact (refers.call_iff call).mpr rfl
      · intro call
        exact call ▸ refers
    rw [List.forall_mem_cons, List.forall_mem_cons, ih.2, called, Bool.not_eq_true]

/-- A reference that is no call, in front of an equality sign. -/
theorem assigns_single {kind : Reference} {side text value : String} (refers : Refers kind side) (plain : kind ≠ .call)
    (shape : text = side ++ "=" ++ value ∨ text = side ++ " = " ++ value) : Assigns text := by
  have found : ∃ sides, leftSides? text = some sides ∧ sides = [side] := by
    rcases shape with rfl | rfl
    · have each : ∀ text ∈ [side], ∃ kind, Refers kind text := by simpa using ⟨kind, refers⟩
      have sides := leftSides?_several (List.cons_ne_nil side []) each value
      exact ⟨_, by simpa using sides, rfl⟩
    · have sides := leftSides?_spaced refers (" " ++ value)
      have gap : " = " = " " ++ "=" ++ " " := rfl
      refine ⟨_, ?_, rfl⟩
      rw [← sides, gap]
      simp only [String.append_assoc]
  obtain ⟨_, found, rfl⟩ := found
  refine (assigns_iff found (by simpa using ⟨kind, refers⟩)).mpr fun other member call => ?_
  obtain rfl := List.mem_singleton.mp member
  exact plain ((refers.call_iff call).mpr rfl)

/-- A call that sets an attribute. -/
theorem assigns_setAttribute {arguments : String} (balanced : Balanced arguments) :
    Assigns (callOf .setAttribute arguments) := by
  have refers : Refers .call (callOf .setAttribute arguments) := .call (.name (by decide)) balanced
  rw [Assigns, leftSides?_call refers]
  exact ⟨arguments, balanced, rfl⟩

namespace Stmt

/-- An assignment to places is one in Python exactly if it has a single target or none of its targets is itself a field
with a computed name. -/
theorem assignText_assigns_iff (guards : words.Guards) {line : SourceLine} {targets : List Expr} {value : Expr}
    (places : ∀ target ∈ targets, target.isPlace = true) (worded : Worded (Stmt.assign line targets value).nodes)
    {text : String} (rendered : assignText words line targets value = .ok text) :
    Assigns text ↔ targets.length = 1 ∨ ∀ target ∈ targets, target.isDynamicField = false := by
  simp only [Stmt.nodes, worded_append, worded_cons] at worded
  obtain ⟨wordedValue, -, wordedTargets⟩ := worded
  have valued := value.complete_exprText words wordedValue
  suffices Yields (fun text => Assigns text ↔
      targets.length = 1 ∨ ∀ target ∈ targets, target.isDynamicField = false) (assignText words line targets value) from
    this text rendered
  cases targets with
  | nil => exact .bind .trivial fun _ _ => .error _
  | cons first rest =>
    cases rest with
    | nil =>
      have place := places _ List.mem_cons_self
      cases first with
      | ident | index =>
        refine .bind .trivial fun text _ => ?_
        rw [flatten_nodesOne] at wordedTargets
        refine .bind (Expr.refers_targetText guards _ place wordedTargets) fun left refers => .pure ?_
        exact iff_of_true (assigns_single refers (by simp [Expr.reference]) (.inl rfl)) (.inl rfl)
      | field _ object name =>
        simp only [Expr.nodesEach, List.flatten_cons, Expr.nodes, worded_append, worded_cons] at wordedTargets
        refine .bind .trivial fun text _ => ?_
        refine .bind (object.refers_targetText guards place wordedTargets.1.2) fun left refers => .pure ?_
        have side := refers.member (isName_pythonName guards wordedTargets.1.1 false)
        exact iff_of_true (assigns_single side (by decide) (.inr rfl)) (.inl rfl)
      | dynamicField _ object selector =>
        simp only [Expr.nodesEach, List.flatten_cons, Expr.nodes, worded_append, worded_cons] at wordedTargets
        refine .bind valued fun text complete => ?_
        refine .bind (object.refers_targetText guards place wordedTargets.1.2.1) fun left refers => ?_
        refine .bind (selector.complete_exprText words wordedTargets.1.2.2) fun middle computed => .pure ?_
        have comma : Balanced "," := .bare (by decide)
        have arguments := ((refers.balanced.append comma).append computed.balanced).append comma
        exact iff_of_true (assigns_setAttribute (arguments.append complete.balanced)) (.inl rfl)
      | literal | operation | rows | lambda => cases place
    | cons second rest =>
      rw [assignText_several]
      refine .bind .trivial fun text _ => ?_
      refine .bind (Expr.refers_targetTexts guards places wordedTargets) fun sides each => .pure ?_
      obtain ⟨referring, calls⟩ := no_call_iff each
      have some : sides ≠ [] := by
        rintro rfl
        cases each
      rw [Python.assigns_iff (leftSides?_several some referring text) referring, calls]
      simp

/-- What `f` returns. -/
def resultOfF : Expr :=
  .index 1 .apply (.named "f" 1) []

/-- The targets `s(1).a` and `t.(n){2}`. -/
def computedInside : List Expr :=
  [.field 1 (.index 1 .apply (.named "s" 1) [.literal 1 (.number (.int 1))]) "a",
    .index 1 .cellRef (.dynamicField 1 (.named "t" 1) (.named "n" 1)) [.literal 1 (.number (.int 2))]]

theorem assigns_computedInside :
    assignText .standard 1 computedInside resultOfF = .ok "s[1].a,getattr(t,n)[2]=f()" ∧
      Assigns "s[1].a,getattr(t,n)[2]=f()" := by
  have rendered : assignText .standard 1 computedInside resultOfF = .ok "s[1].a,getattr(t,n)[2]=f()" := by
    rw [ReservedWords.standard_eq]
    decide
  have places : ∀ target ∈ computedInside, target.isPlace = true := by decide
  have worded : Worded (Stmt.assign 1 computedInside resultOfF).nodes := by decide
  have plain : ∀ target ∈ computedInside, target.isDynamicField = false := by decide
  exact ⟨rendered, (assignText_assigns_iff ReservedWords.guards_standard places worded rendered).mpr (.inr plain)⟩

/-- The targets `s.(n)` and `b`. -/
def computedAmongTwo : List Expr :=
  [.dynamicField 1 (.named "s" 1) (.named "n" 1), .named "b" 1]

/-- What `f` returns is assigned to a call. -/
theorem assigns_not_computedAmongTwo :
    generate {} ⟨[.assign 1 computedAmongTwo resultOfF]⟩ = .ok "getattr(s,n),b=f()\n" ∧
      (∀ target ∈ computedAmongTwo, target.isPlace = true) ∧
      Worded (Stmt.assign 1 computedAmongTwo resultOfF).nodes ∧
      leftSides? "getattr(s,n),b=f()" = some ["getattr(s,n)", "b"] ∧ Refers .call "getattr(s,n)" ∧
      ¬Assigns "getattr(s,n),b=f()" := by
  have sides : leftSides? "getattr(s,n),b=f()" = some ["getattr(s,n)", "b"] := by decide
  have callee : Refers .name "getattr" := .name (by decide)
  have arguments : Balanced "s,n" := by decide
  have call : Refers .call "getattr(s,n)" := .call callee arguments
  have named : Refers .name "b" := .name (by decide)
  have each : ∀ side ∈ ["getattr(s,n)", "b"], ∃ kind, Refers kind side := by
    simpa using ⟨⟨_, call⟩, ⟨_, named⟩⟩
  have rendered : generate {} ⟨[.assign 1 computedAmongTwo resultOfF]⟩ = .ok "getattr(s,n),b=f()\n" := by
    rw [ReservedWords.standard_eq]
    decide
  refine ⟨rendered, by decide, by decide, sides, call, fun assigns => ?_⟩
  exact (assigns_iff sides each).mp assigns _ List.mem_cons_self call

end Stmt

end ArrayLift
