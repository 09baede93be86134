import ArrayLift.Proofs.Annotation.Idempotence
import ArrayLift.Compilation

/-! Strict settings make errors of what are warnings otherwise, and nothing else. The tree that a failed resolution
leaves behind is the resolved one, so that it may be compiled after all. -/
namespace ArrayLift

namespace Program

variable (program : Program) (settings : Settings)

/-- Lenient settings accept every program. -/
theorem checked_lenient : program.checked { settings with strict := false } =
    ((program.resolve settings).program, .ok (program.resolve settings)) := rfl

/-- Strict settings accept a program without diagnostics, and escalate the diagnostics of any other. -/
theorem checked_strict : program.checked { settings with strict := true } =
    ((program.resolve settings).program,
      if (program.resolve settings).diagnostics = [] then .ok (program.resolve settings)
      else .error (.strict ((program.resolve settings).diagnostics.map Diagnostic.escalate))) := by
  have rejected : (program.resolve settings).isRejected { settings with strict := true } = true ↔
      (program.resolve settings).diagnostics ≠ [] := by
    simp [Resolution.isRejected, Resolution.strictErrors]
  refine Prod.ext rfl ?_
  change (if (program.resolve settings).isRejected { settings with strict := true } = true then _ else _) = _
  split
  · rename_i fails
    rw [if_neg (rejected.mp fails)]
    rfl
  · rename_i passes
    rw [if_pos (not_not.mp (mt rejected.mpr passes))]
    rfl

/-- A resolved program is resolved already. -/
theorem resolve_resolved : (program.resolve settings).program.resolve settings =
    ⟨(program.resolve settings).program, (program.resolve settings).analysis, 0⟩ := by
  have alike : settings.reserved.Alike settings.reserved := fun _ => rfl
  have resolved := program.resolve_annotate (program.resolve settings).analysis.table settings.reserved settings
  simp only [program.withIds.1.annotate_again alike] at resolved
  exact resolved

/-- To compile a program leniently once it is resolved gives what it gives before, and changes nothing. -/
theorem compile_resolved : ((program.resolve settings).program.compile { settings with strict := false }).2 =
    (program.compile { settings with strict := false }).2.map fun compilation => { compilation with changes := 0 } := by
  simp only [compile, checked_lenient, resolve_resolved]
  cases Code.generate { settings with strict := false } (program.resolve settings).program <;> rfl

/-- Strict resolution fails exactly if lenient resolution, which never fails, has something to report. The error is the
reports in their order, each of them as an error. Both leave the same tree behind. What a strict compilation leaves
behind, also one that fails, gives under lenient settings the text and the diagnostics of the program, or the fault in
it, and nothing is left to change. -/
theorem strict_escalates_lenient (program : Program) (settings : Settings) :
    let strict := { settings with strict := true }
    let lenient := { settings with strict := false }
    let left := (program.compile strict).1
    ∃ resolution, (program.checked lenient).2 = .ok resolution ∧
      ((∃ cause, (program.checked strict).2 = .error cause) ↔ resolution.diagnostics ≠ []) ∧
      (∀ cause, (program.checked strict).2 = .error cause →
        cause = .strict (resolution.diagnostics.map fun diagnostic => { diagnostic with severity := .error })) ∧
      (program.checked strict).1 = (program.checked lenient).1 ∧ left = (program.checked strict).1 ∧
      (left.compile lenient).2 =
        (program.compile lenient).2.map (fun compilation => { compilation with changes := 0 }) ∧
      (left.resolve lenient).changes = 0 := by
  intro strict lenient left
  refine ⟨program.resolve settings, rfl, ?_, ?_, rfl, rfl, program.compile_resolved settings, ?_⟩
  · rw [checked_strict]
    by_cases clean : (program.resolve settings).diagnostics = [] <;> simp [clean]
  · intro cause failed
    rw [checked_strict] at failed
    split at failed
    · cases failed
    · cases failed
      rfl
  · exact congrArg Resolution.changes (program.resolve_resolved settings)

end Program
end ArrayLift
