import Mathlib.Data.List.Forall2
import ArrayLift.Proofs.Layout.Origins

/-! What the settings of the layout decide. Apart from the reserved names they have no part in the lines of a program:
the width of a level and the name of the source file come in when the lines are written. -/
namespace ArrayLift

def Origin.isAssignment : Origin → Bool
  | .assignment .. => true
  | .comment _ => false

namespace Code

/-- The line is that of the assignment: it has its text, and its number in the source. -/
def Line.Assigns (words : ReservedWords) (line : Line) : Origin → Prop
  | .assignment number targets value =>
    line.assignment = some number ∧ assignText words number targets value = .ok line.text
  | .comment _ => False

theorem callOf_ne_empty (name : LibraryName) (arguments : String) : callOf name arguments ≠ "" := by
  simp [callOf]

/-- An assignment always has a text. -/
theorem assignText_ne_empty (words : ReservedWords) (line : SourceLine) (targets : List Expr) (value : Expr) :
    Yields (· ≠ "") (assignText words line targets value) := by
  refine .bind .trivial fun text _ => ?_
  split
  · exact .error _
  · exact .bind .trivial fun _ _ => .pure (by simp)
  · exact .bind .trivial fun _ _ => .bind .trivial fun _ _ => .pure (callOf_ne_empty _ _)
  · exact .bind .trivial fun _ _ => .pure (by simp)
  · exact .bind .trivial fun _ _ => .pure (by simp)

namespace Composed

variable {words : ReservedWords} {origins : List Origin} {lines bare : List Line}

/-- The lines with a number are those of the assignments, one for each. -/
theorem assigns (composed : Composed words origins lines bare) :
    List.Forall₂ (Line.Assigns words) (lines.filter (·.assignment.isSome)) (origins.filter Origin.isAssignment) := by
  induction composed with
  | nil => exact .nil
  | other unassigned _ ih => simpa [unassigned] using ih
  | assignment made _ ih => exact .cons ⟨rfl, made⟩ ih
  | comment _ _ _ ih => exact ih

/-- A line without text is not that of an assignment. -/
theorem unassigned (composed : Composed words origins lines bare) :
    ∀ line ∈ lines, line.text = "" → line.assignment = none := by
  induction composed with
  | nil => nofun
  | other unassigned _ ih => exact List.forall_mem_cons.mpr ⟨fun _ => unassigned, ih⟩
  | assignment made _ ih =>
    exact List.forall_mem_cons.mpr ⟨fun empty => absurd empty (assignText_ne_empty _ _ _ _ _ made), ih⟩
  | comment _ _ _ ih => exact List.forall_mem_cons.mpr ⟨fun _ => rfl, ih⟩

end Composed

/-- A line in full: its indentation, its text, and behind an assignment the place in the source. -/
theorem Line.render_eq_full (settings : Settings) (line : Line) :
    line.render settings =
      if line.text = "" then "\n"
      else Settings.blanks (line.level * settings.indentWidth) ++ line.text ++
        ((line.assignment.bind fun number => settings.sourceName.map fun file => Line.provenance file number).getD "")
        ++ "\n" := by
  have content : line.content settings = line.text ++
      ((line.assignment.bind fun number => settings.sourceName.map fun file => Line.provenance file number).getD "") := by
    unfold Line.content
    cases settings.sourceName <;> cases line.assignment <;> simp
  simp only [Line.render, String.isEmpty_iff, content, Settings.indent, Nat.mul_comm, String.append_assoc]

/-- The settings of the layout have no part in what is generated. With the same reserved names there is one outcome, a
fault or lines; the lines with a number are those of the assignments in their order, and never empty. For every width
and source file the text is that fault, or those lines written one by one: nothing for an empty one, and otherwise the
blanks of its level, its text, and behind an assignment the place in the source if a file is named. -/
theorem generate_written (words : ReservedWords) (program : Program) :
    ∃ outcome : Except Fault (List Line),
      Yields (fun lines =>
        List.Forall₂ (Line.Assigns words) (lines.filter (·.assignment.isSome))
          (program.origins.filter Origin.isAssignment) ∧
        ∀ line ∈ lines, line.text = "" → line.assignment = none) outcome ∧
      ∀ settings : Settings, generate { settings with reserved := words } program =
        outcome.map fun lines => String.join (lines.map fun line =>
          if line.text = "" then "\n"
          else Settings.blanks (line.level * settings.indentWidth) ++ line.text ++
            ((line.assignment.bind fun number => settings.sourceName.map fun file =>
              "  # " ++ file ++ ":" ++ toString number.toNat).getD "") ++ "\n") := by
  refine ⟨programLines words program, fun lines made => ?_, fun settings => ?_⟩
  · obtain ⟨bare, _, composed⟩ := (programLines_traced words program).right_of_left made
    exact ⟨composed.assigns, composed.unassigned⟩
  · have written (lines : List Line) := List.map_congr_left fun line (_ : line ∈ lines) =>
      Line.render_eq_full { settings with reserved := words } line
    simp only [generate, Line.layout, written]
    cases programLines words program <;> rfl

end Code
end ArrayLift
