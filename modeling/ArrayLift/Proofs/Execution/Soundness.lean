import ArrayLift.Proofs.Annotation.Parts
import ArrayLift.Proofs.Execution.Run
import ArrayLift.Proofs.Reaching.Definitions

/-! No variable is taken for a function: whatever way an execution takes to a use, a definition of the name on
it makes the use one of a variable, and everything indexed that starts there an array reference. -/
namespace ArrayLift

open DefUse

/-- The names that are defined where a region starts. -/
def Region.names (region : Region) : Set String :=
  {name | ∃ node ∈ region.start, node.name = name}

namespace Program

variable (program : Program) (settings : Settings)

/-- The use at the end of an edge is one of a variable. -/
theorem roleOf_of_edge {definition : Node} {id : IdentId} {name : String}
    (edge : (definition, .occurrence id name .use) ∈ program.seen.edges) :
    (program.resolve settings).analysis.table.roleOf id = .variable := by
  have valid := program.findings_valid.1
  have link := edge
  rw [← program.resolve_links settings] at link
  obtain ⟨source, target, member, _, there⟩ := link
  rcases valid.known target _ there with none | ⟨occurrence, inside, same⟩
  · cases none
  · obtain ⟨rfl, _, use⟩ := Node.occurrence.inj same
    replace edge : (definition, occurrence.node) ∈ program.seen.edges := same ▸ edge
    exact program.resolve_roleOf_reached settings inside use.symm edge

/-- An execution of the script or a function settles no use that the walk does not connect. -/
theorem edge_of_runs {region : Region} (member : region ∈ program.withIds.1.regions) {exit : Exit}
    {trace : Trace} (runs : region.body.Runs region.scope exit trace) {node : Node}
    (settled : node ∈ Trace.settled region.names trace) :
    (∃ id name, node = .occurrence id name .use) ∧ ∃ definition, (definition, node) ∈ program.seen.edges := by
  have enough := three_le_walkLimit program.withIds.2
  have tidy := program.withIds.1.tidy_route
  rcases List.mem_cons.mp member with rfl | nested
  · have nothing : Region.names ⟨ScopeTable.script, [], program.withIds.1.route, false⟩ ⊆ View.start.names := by
      intro name found
      obtain ⟨node, none, _⟩ := found
      cases none
    have settles : program.seen.Settles _ trace :=
      program.withIds.1.route.settles_runs enough tidy Nat.one_pos runs nothing
    exact settles.uses node settled
  · obtain ⟨entry, start, own, edges⟩ := Route.region_seen enough tidy Nat.one_pos nested View.start
    have known : region.names ⊆ entry.names := by
      intro name found
      obtain ⟨node, there, named⟩ := found
      exact ⟨node, start ▸ there, named⟩
    have settles := region.body.settles_runs enough own (Nat.lt_succ_self region.scope) runs known
    obtain ⟨use, definition, edge⟩ := settles.uses node settled
    exact ⟨use, definition, edges edge⟩

end Program

/-- A use that some execution of its scope reaches behind a definition of its name has the role of a variable,
and no part of the resolved tree that is indexed by parentheses and starts from it is a call. -/
theorem Program.array_of_settled_use (program : Program) (settings : Settings) {region : Region}
    (member : region ∈ program.withIds.1.regions) {exit : Exit} {trace : Trace}
    (runs : region.body.Runs region.scope exit trace) {node : Node}
    (settled : node ∈ Trace.settled region.names trace) :
    ∃ id name, node = .occurrence id name .use ∧ (program.resolve settings).analysis.table.roleOf id = .variable ∧
      ∀ results line form target arguments text,
        (.value results, .index line form target arguments) ∈ (program.resolve settings).program.parts →
        target.callee? = some (id, text) → form ≠ .cellRef → form = .arrayRef := by
  obtain ⟨⟨id, name, rfl⟩, definition, edge⟩ := program.edge_of_runs member runs settled
  have role := program.roleOf_of_edge settings edge
  refine ⟨id, name, rfl, role, fun results line form target arguments text part start paren => ?_⟩
  have decided := Stmt.arrayOnVariableList (program.resolve settings).analysis.table settings.reserved
    program.withIds.1.statements _ part
  rcases decided results line form target arguments id text rfl start role with cell | array
  · exact absurd cell paren
  · exact array

/-- A name is defined in a loop that is broken off, and indexed behind it. -/
def Program.definedBeforeBreak : Program :=
  ⟨[.whileLoop 1 (.literal 1 (.logical true))
      [.assign 2 [.ident 2 (.named "x")] (.literal 2 (.logical true)), .word 3 .break],
    .expression 5 (.index 5 .apply (.ident 5 (.named "x")) [.literal 5 (.logical true)])]⟩

theorem Program.runs_definedBeforeBreak : definedBeforeBreak.withIds.1.route.Runs ScopeTable.script .completed
    [.define (.occurrence 0 "x" .definition) [], .use (.occurrence 1 "x" .use)] := by
  have assign : Route.Runs ScopeTable.script
      (Stmt.assign 2 [.ident 2 (.mk "x" none .unknown false (some 0))] (.literal 2 (.logical true))).route .completed
      ([] ++ (([.define (.occurrence 0 "x" .definition) []] ++ []) ++ [])) :=
    .seq .stay (.seq (.seq (.step _) .stay) .stay)
  have pass : Route.Runs ScopeTable.script
      (.seq .stay (.seq (.seq (Stmt.route (.assign 2 [.ident 2 (.mk "x" none .unknown false (some 0))]
        (.literal 2 (.logical true)))) (.seq (.jump .broken) .stay)) .stay)) .broken
      ([] ++ ([.define (.occurrence 0 "x" .definition) []] ++ [])) :=
    .seq .stay (.stop (.seq assign (.stop (.jump .broken) (by decide))) (by decide))
  have indexed : Route.Runs ScopeTable.script (.seq (.seq .stay .stay) (.step (.use 1 "x" 5 true false))) .completed
      (([] ++ []) ++ [.use (.occurrence 1 "x" .use)]) := .seq (.seq .stay .stay) (.step _)
  exact .seq (.seq (.broken (.leave pass rfl)) (.seq indexed .stay)) .stay

theorem Program.array_definedBeforeBreak :
    ∃ id name, Node.occurrence 1 "x" .use = .occurrence id name .use ∧
      (definedBeforeBreak.resolve {}).analysis.table.roleOf id = .variable ∧
      ∀ results line form target arguments text,
        (.value results, .index line form target arguments) ∈ (definedBeforeBreak.resolve {}).program.parts →
        target.callee? = some (id, text) → form ≠ .cellRef → form = .arrayRef := by
  refine definedBeforeBreak.array_of_settled_use {} (List.mem_cons_self ..) runs_definedBeforeBreak ?_
  exact .inr (.inl ⟨rfl, .inr rfl⟩)

end ArrayLift
