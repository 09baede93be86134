import ArrayLift.Proofs.Naming.Lockstep
import ArrayLift.Proofs.Naming.Relabeled
import Mathlib.Logic.Equiv.Basic

/-! Resolution does not depend on how names are spelled. Under other names it gives the same result under these names:
nothing is decided by the order of names, and by their spelling only what is reserved. -/
namespace ArrayLift

variable {rename : String → String}

/-- Lists that agree place by place do so when they are sorted by what the entries at one place have in common. -/
theorem forall₂_mergeSort {α β : Type} {related : α → β → Prop} {first : α → α → Bool} {second : β → β → Bool}
    (same : ∀ {one other : α} {one' other' : β}, related one one' → related other other' →
      first one other = second one' other') {left : List α} {right : List β}
    (all : List.Forall₂ related left right) :
    List.Forall₂ related (left.mergeSort first) (right.mergeSort second) := by
  obtain ⟨lengths, pairs⟩ := List.forall₂_iff_zip.mp all
  have lefts : (left.zip right).map Prod.fst = left := List.map_fst_zip lengths.le
  have rights : (left.zip right).map Prod.snd = right := List.map_snd_zip lengths.ge
  let before (one other : α × β) : Bool := first one.1 other.1
  have sortedLeft : ((left.zip right).mergeSort before).map Prod.fst = left.mergeSort first := by
    rw [List.map_mergeSort (f := Prod.fst) (s := first) fun _ _ _ _ => rfl, lefts]
  have sortedRight : ((left.zip right).mergeSort before).map Prod.snd = right.mergeSort second := by
    rw [List.map_mergeSort (f := Prod.snd) (s := second) fun _ here _ there => same (pairs here) (pairs there), rights]
  rw [← sortedLeft, ← sortedRight, List.forall₂_map_left_iff, List.forall₂_map_right_iff, List.forall₂_same]
  exact fun pair member => pairs ((List.mergeSort_perm _ _).mem_iff.mp member)

theorem Diagnostic.Renamed.line_eq {before after : Diagnostic} (same : before.Renamed rename after) :
    after.line = before.line := by
  cases same <;> rfl

/-- The same occurrences are reported as ambiguous. -/
theorem ScopeTable.ambiguousIndices_renamed (injective : Function.Injective rename) (table : ScopeTable) :
    List.Forall₂ (Diagnostic.Renamed rename) table.ambiguousIndices (table.renamed rename).ambiguousIndices := by
  have found : (table.renamed rename).occurrences.filter (table.renamed rename).isAmbiguous =
      (table.occurrences.filter table.isAmbiguous).map (Occurrence.renamed rename) := by
    simp only [renamed, List.filter_map]
    exact congrArg (fun test => (table.occurrences.filter test).map _)
      (funext fun occurrence => table.isAmbiguous_renamed rename injective occurrence)
  unfold ambiguousIndices
  rw [found, List.map_map, List.forall₂_map_left_iff, List.forall₂_map_right_iff, List.forall₂_same]
  exact fun _ _ => .ambiguous

namespace Findings.Renamed

variable {before after : Findings} (here : before.Renamed rename after)
include here

theorem tables : (after.table.withRoles after.graph).withSummaries =
    (before.table.withRoles before.graph).withSummaries.renamed rename := by
  rw [here.table, here.graph, ScopeTable.withRoles_renamed, ScopeTable.withSummaries_renamed]

/-- The assignments that were left open are reported alike once the roles are known. -/
theorem settled (table : ScopeTable) : List.Forall₂ (Diagnostic.Renamed rename)
    (before.pending.filterMap (PendingAssignment.diagnostic? table))
    (after.pending.filterMap (PendingAssignment.diagnostic? (table.renamed rename))) := by
  rw [here.pending, List.filterMap_map]
  refine List.rel_filterMap (R := Eq) ?_ (List.forall₂_refl _)
  rintro ⟨line, targets, root⟩ _ rfl
  cases root with
  | none => exact .some (.unquoted (by simp))
  | some root =>
    have same := table.roleOf_renamed rename root.1
    by_cases role : table.roleOf root.1 = .variable
    · simp only [Function.comp_apply, PendingAssignment.diagnostic?, PendingAssignment.renamed, Option.map_some, same,
        role, if_true]
      exact .some .variable
    · simp only [Function.comp_apply, PendingAssignment.diagnostic?, PendingAssignment.renamed, Option.map_some, same,
        role, if_false]
      exact .none

/-- The same is concluded from the same findings. -/
theorem analysis (injective : Function.Injective rename) :
    after.analysis.graph = before.analysis.graph.renamed rename ∧
      after.analysis.table = before.analysis.table.renamed rename ∧
      List.Forall₂ (Diagnostic.Renamed rename) before.analysis.diagnostics after.analysis.diagnostics := by
  refine ⟨here.graph, here.tables, ?_⟩
  have settled := here.settled (before.table.withRoles before.graph).withSummaries
  have ambiguous := (before.table.withRoles before.graph).withSummaries.ambiguousIndices_renamed injective
  rw [← here.tables] at settled ambiguous
  have all := List.rel_append (List.rel_append here.diagnostics settled) ambiguous
  exact forall₂_mergeSort (fun one other => by rw [one.line_eq, other.line_eq]) all

end Findings.Renamed

namespace Point.Renamed

theorem start (names : List String) : (Point.mk .empty (.start names)).Renamed rename
    ⟨.empty, .start (names.map rename)⟩ := by
  have table (table : ScopeTable) : (names.map rename).foldl ScopeTable.declareFunction (table.renamed rename) =
      (names.foldl ScopeTable.declareFunction table).renamed rename := by
    induction names generalizing table with
    | nil => rfl
    | cons name rest ih => exact ih (table.declareFunction name)
  exact ⟨rfl, rfl, table .empty, rfl, rfl, rfl, .nil⟩

end Point.Renamed

namespace Program

variable {rename : Renaming} (program : Program)

theorem findings_renamed (faithful : rename.Faithful) (limit : Nat) :
    (program.findings limit).Renamed rename.name ((program.renamed rename).findings limit) := by
  have walked := Stmt.walkList_renamed faithful limit program.statements ScopeTable.script none
    (.start program.declaredFunctions)
  have declared : (program.renamed rename).declaredFunctions = program.declaredFunctions.map rename.name :=
    Stmt.declaredFunctionsList_renamed rename program.statements
  unfold findings
  rw [declared]
  exact walked.findings

/-- Resolution of a program with other names gives the result under these names, whatever becomes of the names of
fields: the same tree but for the flags of what is reserved, the same graph in the same order, the same table, and the
same diagnostics in the same order, up to the names that they quote. -/
theorem resolve_renamed (rename : Renaming) (faithful : rename.Faithful) (settings other : Settings)
    (program : Program) :
    let before := program.resolve settings
    let after := (program.renamed rename).resolve other
    after.program = (before.program.renamed rename).reflagged other.reserved ∧
      after.analysis.graph = before.analysis.graph.renamed rename.name ∧
      after.analysis.table = before.analysis.table.renamed rename.name ∧
      List.Forall₂ (Diagnostic.Renamed rename.name) before.diagnostics after.diagnostics := by
  intro before after
  let limit := walkLimit program.withIds.2
  obtain ⟨graph, table, diagnostics⟩ := (program.withIds.1.findings_renamed faithful limit).analysis faithful.injective
  have roles (id : IdentId) : ((program.withIds.1.renamed rename).findings limit).analysis.table.roleOf id =
      (program.withIds.1.findings limit).analysis.table.roleOf id := by rw [table, ScopeTable.roleOf_renamed]
  have annotated := program.withIds.1.annotate_renamed rename settings.reserved other.reserved roles
  simp only [after, before, resolve, program.withIds_renamed rename]
  exact ⟨annotated, graph, table, diagnostics⟩

/-- A name that is defined and one that is not; both are indexed as only arrays are. -/
def indexedToEnd : Program :=
  let upToEnd (name : String) (line : SourceLine) : Expr :=
    .index line .apply (.ident line (.named name)) [.ofSpelling "end" [] line]
  ⟨[.assignOne (.ident 1 (.named "x")) (upToEnd "y" 1), .ofExpr (upToEnd "x" 2)]⟩

/-- Both names exchanged. -/
theorem resolve_renamed_indexedToEnd :
    let exchanged : Renaming := ⟨Equiv.swap "x" "y", id⟩
    exchanged.Faithful ∧ List.Forall₂ (Diagnostic.Renamed exchanged.name) [.ambiguousIndex "y" 1]
      ((indexedToEnd.renamed exchanged).resolve {}).diagnostics := by
  intro exchanged
  have faithful : exchanged.Faithful := ⟨(Equiv.swap "x" "y").injective, by decide⟩
  have reported : (indexedToEnd.resolve {}).diagnostics = [.ambiguousIndex "y" 1] := by decide +kernel
  have renamed := (resolve_renamed exchanged faithful {} {} indexedToEnd).2.2.2
  rw [reported] at renamed
  exact ⟨faithful, renamed⟩

end Program
end ArrayLift
