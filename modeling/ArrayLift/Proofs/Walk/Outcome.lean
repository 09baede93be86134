import ArrayLift.Proofs.Walk.Numbered
import ArrayLift.Proofs.Walk.Refinement
import ArrayLift.Resolution.Resolve

/-! What resolution returns, in terms of the route through the program: the edges are those that the route
followed on views gives, and the role of an occurrence depends on the edges to it. -/
namespace ArrayLift

open DefUse

/-- Nothing has been seen. -/
def View.start : View :=
  ⟨∅, ∅, fun _ _ => none⟩

namespace Program

/-- The occurrences and functions of a program once it is numbered. -/
def census (program : Program) : Census where
  occurrences := program.withIds.1.route.occurrences ScopeTable.script 1
  functions := program.withIds.1.route.functionIds
  single := (Stmt.spans_block program.statements 0).single ScopeTable.script 1
  named function member := by
    obtain ⟨id, same, _⟩ := (Stmt.spans_block program.statements 0).named function member
    exact ⟨id, same⟩
  distinct := (Stmt.spans_block program.statements 0).distinct

theorem covers_route (program : Program) :
    program.census.Covers program.withIds.1.route ScopeTable.script 1 :=
  ⟨List.Subset.refl _, List.Subset.refl _⟩

theorem tidy_route (program : Program) : program.route.Tidy := Stmt.tidy_routes program.statements

theorem three_le_walkLimit (count : Nat) : 3 ≤ walkLimit count := Nat.le_add_left 3 count

/-- The route through a numbered program, seen from the start with as many passes as resolution allows. -/
noncomputable def seen (program : Program) : View :=
  program.withIds.1.route.see (walkLimit program.withIds.2) ScopeTable.script 1 .start

end Program

theorem Findings.start_table (names : List String) :
    (Findings.start names).table.occurrences = [] ∧
      (Findings.start names).table.scopes = [Scope.fresh ScopeTable.script .script none 1] := by
  have kept (table : ScopeTable) :
      (names.foldl ScopeTable.declareFunction table).occurrences = table.occurrences ∧
      (names.foldl ScopeTable.declareFunction table).scopes = table.scopes := by
    induction names generalizing table with
    | nil => exact ⟨rfl, rfl⟩
    | cons name rest ih => exact ih (table.declareFunction name)
  exact kept ScopeTable.empty

theorem Point.start_valid (census : Census) (names : List String) :
    (Point.mk .empty (.start names)).Valid census := by
  obtain ⟨occurrences, scopes⟩ := Findings.start_table names
  have noNode (index : NodeId) : (Findings.start names).graph.node? index = none := by
    simp [Findings.start, Graph.empty, Graph.node?]
  refine ⟨⟨?_, ?_, ?_, ?_, ?_, ?_, ?_⟩, Flow.valid_empty _⟩
  · intro i j left right atI
    rw [noNode] at atI
    cases atI
  · intro source target member
    cases member
  · intro index node known
    rw [noNode] at known
    cases known
  · intro scope name pin met
    cases met
  · rw [occurrences]
    exact List.nil_subset _
  · rw [occurrences]
    exact .nil
  · intro id scope
    rw [scopes]
    constructor
    · intro met
      cases met
    · intro found
      obtain ⟨listed, inside⟩ := found
      have later := (List.mk_mem_zipIdx_iff_le_and_getElem?_sub.mp listed).1
      exact absurd inside (Nat.not_lt.mpr later)

theorem Point.start_opened (names : List String) :
    1 ≤ (Point.mk .empty (.start names)).findings.table.scopes.length := by
  rw [(Findings.start_table names).2]
  exact Nat.le_refl 1

theorem Point.start_view (names : List String) : (Point.mk .empty (.start names)).view = .start := by
  have links : (Findings.start names).graph.links = ∅ := by
    ext edge
    simp [Graph.links, Findings.start, Graph.empty]
  unfold Point.view
  rw [Flow.live_empty, links]
  rfl

namespace Program

variable (program : Program)

/-- The walk over a program follows its route. -/
theorem findings_route (limit : Nat) : program.findings limit =
    (program.route.walk limit ScopeTable.script ⟨.empty, .start program.declaredFunctions⟩).findings :=
  congrArg Point.findings (Stmt.walk_block limit program.statements ScopeTable.script _).symm

/-- What the walk over a numbered program finds. -/
theorem findings_valid :
    let findings := program.withIds.1.findings (walkLimit program.withIds.2)
    findings.Valid program.census ∧ findings.graph.links = program.seen.edges ∧
      ∀ occurrence, occurrence ∈ findings.table.occurrences ↔ occurrence ∈ program.census.occurrences := by
  intro findings
  let start : Point := ⟨.empty, .start program.withIds.1.declaredFunctions⟩
  have passes : 0 < walkLimit program.withIds.2 := Nat.succ_pos _
  have walked := Route.walk_follows passes program.withIds.1.route ScopeTable.script 1 start program.covers_route
    (Point.start_valid _ _) (Point.start_opened _)
  have same : findings = _ := program.withIds.1.findings_route (walkLimit program.withIds.2)
  have links := congrArg View.edges walked.reaches.view
  rw [Point.start_view] at links
  rw [same]
  exact ⟨walked.reaches.valid.findings, links, fun occurrence =>
    ⟨fun member => walked.reaches.valid.findings.recorded member, fun member => walked.reaches.visited member⟩⟩

end Program

theorem ScopeTable.withSummaries_occurrences (table : ScopeTable) :
    table.withSummaries.occurrences = table.occurrences := by
  have kept (occurrences : List Occurrence) (table : ScopeTable) :
      (occurrences.foldl summarize table).occurrences = table.occurrences := by
    induction occurrences generalizing table with
    | nil => rfl
    | cons first rest ih =>
      rw [List.foldl_cons, ih]
      unfold summarize
      split <;> rfl
  exact kept table.occurrences table

/-- A record is found under its identity. -/
theorem ScopeTable.occurrence?_eq {table : ScopeTable} {occurrence : Occurrence}
    (member : occurrence ∈ table.occurrences)
    (single : ∀ other ∈ table.occurrences, other.id = occurrence.id → other = occurrence) :
    table.occurrence? occurrence.id = some occurrence := by
  unfold occurrence?
  cases found : table.occurrences.find? (fun other => other.id = occurrence.id) with
  | none =>
    have missing := List.find?_eq_none.mp found occurrence member
    simp at missing
  | some other =>
    have same := List.find?_some found
    rw [single other (List.mem_of_find?_eq_some found) (by simpa using same)]

namespace Program

variable (program : Program) (settings : Settings)

theorem resolve_links : (program.resolve settings).analysis.graph.links = program.seen.edges :=
  program.findings_valid.2.1

/-- The occurrences in the table are those of the program, with the roles that the graph gives. -/
theorem resolve_occurrences (occurrence : Occurrence) :
    let analysis := (program.resolve settings).analysis
    occurrence ∈ analysis.table.occurrences ↔
      ∃ origin ∈ program.census.occurrences, { origin with role := analysis.graph.roleOf origin } = occurrence := by
  intro analysis
  let findings := program.withIds.1.findings (walkLimit program.withIds.2)
  have recorded : ∀ origin, origin ∈ findings.table.occurrences ↔ origin ∈ program.census.occurrences :=
    program.findings_valid.2.2
  have occurrences : analysis.table.occurrences =
      findings.table.occurrences.map fun origin => { origin with role := findings.graph.roleOf origin } :=
    ScopeTable.withSummaries_occurrences _
  rw [occurrences, List.mem_map]
  exact exists_congr fun origin => and_congr_left' (recorded origin)

/-- They are found under their identities. -/
theorem resolve_occurrence? {occurrence : Occurrence} (inside : occurrence ∈ program.census.occurrences) :
    let analysis := (program.resolve settings).analysis
    analysis.table.occurrence? occurrence.id =
      some { occurrence with role := analysis.graph.roleOf occurrence } := by
  intro analysis
  have member := (program.resolve_occurrences settings _).mpr ⟨occurrence, inside, rfl⟩
  refine ScopeTable.occurrence?_eq member fun other there same => ?_
  obtain ⟨origin, listed, rfl⟩ := (program.resolve_occurrences settings other).mp there
  rw [program.census.single origin listed occurrence inside same]

/-- The role in the table is the one that the graph gives. -/
theorem resolve_roleOf {occurrence : Occurrence} (inside : occurrence ∈ program.census.occurrences) :
    (program.resolve settings).analysis.table.roleOf occurrence.id =
      (program.resolve settings).analysis.graph.roleOf occurrence := by
  simp only [ScopeTable.roleOf, program.resolve_occurrence? settings inside, Option.map_some, Option.getD_some]

/-- A use that some definition reaches is one of a variable. -/
theorem resolve_roleOf_reached {occurrence : Occurrence}
    (inside : occurrence ∈ program.census.occurrences) (use : occurrence.kind = .use) {definition : Node}
    (edge : (definition, occurrence.node) ∈ program.seen.edges) :
    (program.resolve settings).analysis.table.roleOf occurrence.id = .variable := by
  rw [← program.resolve_links settings] at edge
  obtain ⟨source, target, member, _, there⟩ := edge
  have valid := program.findings_valid.1
  rw [program.resolve_roleOf settings inside]
  have found : (program.resolve settings).analysis.graph.nodeOf? occurrence.id = some target :=
    Graph.nodeOf?_eq valid.distinct there
  have reached : (program.resolve settings).analysis.graph.isReached target = true :=
    List.any_eq_true.mpr ⟨_, member, by simp⟩
  simp only [DefUse.Graph.roleOf, use, found, reached, if_true]

end Program
end ArrayLift
