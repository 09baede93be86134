import ArrayLift.Proofs.Scopes.Opened
import ArrayLift.Proofs.Arity.Agreement

/-! The scopes in the table that resolution returns: one for the script and one for each function on the route, in
their order, with the names of their occurrences and those that are declared on the route. -/
namespace ArrayLift

namespace Program

variable (program : Program)

/-- The scopes of a program without the names in them. -/
def headings : List Scope :=
  .fresh ScopeTable.script .script none 1 :: program.route.scopes 1

theorem map_id_headings :
    program.headings.map Scope.id = List.range' 0 (program.route.functionIds.length + 1) := by
  rw [List.range'_succ]
  exact congrArg (List.cons 0) (program.route.map_id_scopes 1)

theorem length_headings : program.headings.length = 1 + program.route.functionIds.length := by
  rw [← List.length_map Scope.id, map_id_headings, List.length_range', Nat.add_comm]

/-- A scope stands at the place that is its number. -/
theorem id_of_getElem?_headings {index : Nat} {heading : Scope} (found : program.headings[index]? = some heading) :
    heading.id = index := by
  obtain ⟨inside, _⟩ := List.getElem?_eq_some_iff.mp found
  have id : (program.headings.map Scope.id)[index]? = some index := by
    rw [map_id_headings, List.getElem?_range' (by rwa [length_headings, Nat.add_comm] at inside), Nat.one_mul,
      Nat.zero_add]
  rw [List.getElem?_map, found] at id
  exact Option.some.inj id

/-- The walk over a numbered program starts with the scope of the script alone. -/
theorem prepared_start (names : List String) :
    program.withIds.1.route.Prepared program.census program.withIds.1.headings ScopeTable.script 1
      (Point.mk .empty (.start names)).ledger := by
  obtain ⟨_, scopes⟩ := Findings.start_table names
  have length : (Point.mk .empty (.start names)).ledger.scopes.length = 1 := congrArg List.length scopes
  have opened := (Point.start_valid program.census names).findings.opened
  refine ⟨program.covers_route, fun heading member => ?_, ⟨opened, ?_, ?_⟩, ?_, ?_⟩
  · obtain ⟨index, found⟩ := List.mem_iff_getElem?.mp (List.mem_cons_of_mem _ member)
    rwa [program.withIds.1.id_of_getElem?_headings found]
  · rw [length]
    exact congrArg (List.map Scope.blank) scopes
  · intro scope member
    have only : scope ∈ [Scope.fresh ScopeTable.script .script none 1] := scopes ▸ member
    obtain rfl := List.mem_singleton.mp only
    exact Scope.unsummarized_fresh ..
  · rw [length]
    exact Nat.one_pos
  · rw [length]

/-- No name is declared before the walk. -/
theorem notes_start (names : List String) : (Point.mk .empty (.start names)).ledger.notes = ∅ := by
  obtain ⟨_, scopes⟩ := Findings.start_table names
  refine Set.eq_empty_of_forall_notMem fun note => ?_
  rintro ⟨scope, found, listed⟩
  have only : scope ∈ [Scope.fresh ScopeTable.script .script none 1] := scopes ▸ List.mem_of_getElem? found
  obtain rfl := List.mem_singleton.mp only
  cases declaration : note.declaration <;> rw [declaration] at listed <;> cases listed

/-- What the walk over a numbered program leaves in its ledger. -/
theorem findings_scopes :
    let scopes := (program.withIds.1.findings (walkLimit program.withIds.2)).table.scopes
    scopes.map Scope.blank = program.withIds.1.headings ∧ (∀ scope ∈ scopes, scope.Unsummarized) ∧
      {note : Note | ∃ scope, scopes[note.scope]? = some scope ∧ note.name ∈ scope.declaredNames note.declaration} =
        program.withIds.1.route.notes ScopeTable.script 1 := by
  intro scopes
  have passes : 0 < walkLimit program.withIds.2 := Nat.succ_pos _
  have entered := Route.walk_enters passes program.withIds.1.route ScopeTable.script 1 _
    (program.prepared_start program.withIds.1.declaredFunctions)
  have same := program.withIds.1.findings_route (walkLimit program.withIds.2)
  have table : scopes = _ := congrArg (fun findings => findings.table.scopes) same
  have notes := entered.notes
  rw [notes_start, Set.empty_union] at notes
  rw [table]
  refine ⟨?_, entered.sound.unsummarized, notes⟩
  refine entered.sound.headed.trans (List.take_of_length_le ?_)
  rw [length_headings]
  exact entered.opened

end Program

/-- The names of the occurrences of a scope with a role, those of declared functions apart. -/
def ScopeTable.Names (table : ScopeTable) (scope : ScopeId) (role : Role) (name : String) : Prop :=
  ∃ occurrence ∈ table.occurrences,
    occurrence.scope = scope ∧ occurrence.kind ≠ .functionName ∧ occurrence.role = role ∧ occurrence.name = name

namespace Program

variable (program : Program) (settings : Settings)

theorem resolve_role_known {occurrence : Occurrence}
    (member : occurrence ∈ (program.resolve settings).analysis.table.occurrences) : occurrence.role ≠ .unknown := by
  obtain ⟨origin, _, rfl⟩ := (program.resolve_occurrences settings occurrence).mp member
  exact DefUse.Graph.roleOf_known _ origin

/-- A scope of the table is a scope of the walk with the names of its occurrences. -/
theorem resolve_scopes (id : ScopeId) :
    (program.resolve settings).analysis.table.scopes[id]? =
      (program.withIds.1.findings (walkLimit program.withIds.2)).table.scopes[id]?.map
        ((program.resolve settings).analysis.table.occurrences.foldl (Scope.noting id)) := by
  let findings := program.withIds.1.findings (walkLimit program.withIds.2)
  have summary := (findings.table.withRoles findings.graph).scopes_withSummaries id
  rw [← ScopeTable.withSummaries_occurrences] at summary
  exact summary

/-- The table has the scope of the script and then one scope for each function on the route. -/
theorem blank_resolve :
    (program.resolve settings).analysis.table.scopes.map Scope.blank = program.withIds.1.headings := by
  rw [← program.findings_scopes.1]
  refine List.ext_getElem? fun id => ?_
  rw [List.getElem?_map, List.getElem?_map, program.resolve_scopes settings id, Option.map_map]
  exact congrArg (Option.map · _) (funext fun scope => (scope.noted_foldl id _).blank)

variable {program settings} {id : ScopeId} {scope : Scope}

/-- The names that are declared in a scope are those that are declared in it on the route. -/
theorem declaredNames_resolve (found : (program.resolve settings).analysis.table.scopes[id]? = some scope)
    (declaration : Declaration) : (scope.declaredNames declaration).Lists fun name =>
      ⟨declaration, id, name⟩ ∈ program.withIds.1.route.notes ScopeTable.script 1 := by
  obtain ⟨_, unsummarized, notes⟩ := program.findings_scopes
  rw [program.resolve_scopes settings, Option.map_eq_some_iff] at found
  obtain ⟨before, there, rfl⟩ := found
  rw [(before.noted_foldl id _).declaredNames declaration]
  refine ⟨(unsummarized before (List.mem_of_getElem? there)).declared declaration, fun name => ?_⟩
  rw [← notes]
  simp only [Set.mem_ofPred_eq, there, Option.some.injEq, exists_eq_left']

/-- Its variables and functions are the names of its occurrences with these roles. -/
theorem names_resolve (found : (program.resolve settings).analysis.table.scopes[id]? = some scope) :
    scope.variableNames.Lists ((program.resolve settings).analysis.table.Names id .variable) ∧
      scope.functionNames.Lists ((program.resolve settings).analysis.table.Names id .function) := by
  have known (occurrence : Occurrence)
      (member : occurrence ∈ (program.resolve settings).analysis.table.occurrences) :=
    program.resolve_role_known settings member
  rw [program.resolve_scopes settings, Option.map_eq_some_iff] at found
  obtain ⟨before, there, rfl⟩ := found
  obtain ⟨noVariable, noFunction, _⟩ := program.findings_scopes.2.1 before (List.mem_of_getElem? there)
  have empty (isVariable : Bool) : (before.namesOf isVariable).Lists fun _ => False := by
    refine ⟨?_, fun name => ?_⟩ <;> cases isVariable <;> simp [Scope.namesOf, noVariable, noFunction]
  have noted := before.noted_foldl id (program.resolve settings).analysis.table.occurrences
  have counted (isVariable : Bool) := noted.names (empty isVariable)
  constructor
  · refine (counted true).congr fun name => ?_
    simp only [false_or, Occurrence.Counts, ScopeTable.Names, and_assoc, iff_true]
  · refine (counted false).congr fun name => ?_
    simp only [false_or, Occurrence.Counts, ScopeTable.Names, and_assoc]
    refine exists_congr fun occurrence => and_congr_right fun member => ?_
    have role : occurrence.role ≠ .variable ↔ occurrence.role = .function := by
      have visited := known occurrence member
      cases same : occurrence.role <;> simp_all
    simp only [Bool.false_eq_true, iff_false, role]

end Program
end ArrayLift
