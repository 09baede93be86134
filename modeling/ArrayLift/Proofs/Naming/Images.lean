import ArrayLift.Resolution.Analysis
import Mathlib.Data.String.Basic

/-! What resolution keeps, under other names. Facts, pins and nodes are told apart by their names, so it takes different
names for different ones to look them up; the sets of names stay in order whatever the names become. -/
namespace ArrayLift

open DefUse

variable (rename : String → String)

namespace Flow

def renamed (flow : Flow) : Flow :=
  ⟨flow.facts.map fun fact => { fact with name := rename fact.name }⟩

variable {rename} (injective : Function.Injective rename)
include injective

theorem contains_renamed (flow : Flow) (name : String) (node : NodeId) :
    (flow.renamed rename).contains ⟨rename name, node⟩ = flow.contains ⟨name, node⟩ := by
  have apart : Function.Injective fun fact : Fact => { fact with name := rename fact.name } := by
    intro one other same
    obtain ⟨names, nodes⟩ := Fact.mk.inj same
    exact congrArg₂ Fact.mk (injective names) nodes
  rw [contains, contains, Bool.eq_iff_iff, List.contains_iff_mem, List.contains_iff_mem]
  exact List.mem_map_of_injective apart (a := ⟨name, node⟩)

theorem definitions_renamed (flow : Flow) (name : String) :
    (flow.renamed rename).definitions (rename name) = flow.definitions name := by
  simp only [definitions, renamed, List.filter_map, List.map_map, Function.comp_def, injective.eq_iff]

theorem insert_renamed (flow : Flow) (name : String) (node : NodeId) :
    (flow.renamed rename).insert ⟨rename name, node⟩ = (flow.insert ⟨name, node⟩).renamed rename := by
  unfold insert
  rw [contains_renamed injective]
  split <;> rfl

theorem redefine_renamed (flow : Flow) (name : String) (nodes : List NodeId) :
    (flow.renamed rename).redefine (rename name) nodes = (flow.redefine name nodes).renamed rename := by
  have others : (⟨(flow.renamed rename).facts.filter fun fact => fact.name ≠ rename name⟩ : Flow) =
      renamed rename ⟨flow.facts.filter fun fact => fact.name ≠ name⟩ := by
    simp only [renamed, List.filter_map, Function.comp_def, ne_eq, injective.eq_iff]
  rw [redefine, redefine, others]
  generalize (⟨flow.facts.filter fun fact => fact.name ≠ name⟩ : Flow) = rest
  induction nodes generalizing rest with
  | nil => rfl
  | cons node nodes ih =>
    simp only [List.foldl_cons, insert_renamed injective]
    exact ih _

theorem merge_renamed (left right : Flow) :
    (left.renamed rename).merge (right.renamed rename) = (left.merge right).renamed rename := by
  obtain ⟨facts⟩ := right
  induction facts generalizing left with
  | nil => rfl
  | cons fact rest ih =>
    have first := insert_renamed injective left fact.name fact.node
    have others := ih (left.insert fact)
    simp only [merge, renamed, List.map_cons, List.foldl_cons] at first others ⊢
    rw [first, others]

theorem same_renamed (left right : Flow) :
    (left.renamed rename).same (right.renamed rename) = left.same right := by
  have contains (one other : Flow) : (one.renamed rename).facts.all (other.renamed rename).contains =
      one.facts.all other.contains := by
    rw [renamed, List.all_map]
    exact congrArg one.facts.all (funext fun fact => contains_renamed injective other fact.name fact.node)
  simp only [same, contains]

end Flow

namespace DefUse

def Node.renamed : Node → Node
  | .occurrence id name kind => .occurrence id (rename name) kind
  | .implicit scope name => .implicit scope (rename name)
  | .global name => .global (rename name)
  | .persistent scope name => .persistent scope (rename name)

def Graph.renamed (graph : Graph) : Graph :=
  { graph with nodes := graph.nodes.map (Node.renamed rename) }

theorem Node.occurrence?_renamed (node : Node) : (node.renamed rename).occurrence? = node.occurrence? := by
  cases node <;> rfl

theorem Graph.nodeOf?_renamed (graph : Graph) (id : IdentId) :
    (graph.renamed rename).nodeOf? id = graph.nodeOf? id := by
  simp only [nodeOf?, renamed, List.findIdx?_map, Function.comp_def, Node.occurrence?_renamed]

theorem Graph.connect_renamed (graph : Graph) (source target : NodeId) :
    (graph.renamed rename).connect source target = (graph.connect source target).renamed rename :=
  (apply_ite (renamed rename) ((source, target) ∈ graph.edges) graph
    { graph with edges := (source, target) :: graph.edges }).symm

variable {rename} (injective : Function.Injective rename)
include injective

theorem Node.sameSubject_renamed (one other : Node) :
    (one.renamed rename).sameSubject (other.renamed rename) = one.sameSubject other := by
  cases one <;> cases other <;> simp [sameSubject, renamed, injective.eq_iff]

theorem Graph.intern_renamed (graph : Graph) (node : Node) :
    (graph.renamed rename).intern (node.renamed rename) =
      ((graph.intern node).1, (graph.intern node).2.renamed rename) := by
  have found : (graph.renamed rename).nodes.findIdx? (·.sameSubject (node.renamed rename)) =
      graph.nodes.findIdx? (·.sameSubject node) := by
    simp only [renamed, List.findIdx?_map, Function.comp_def, Node.sameSubject_renamed injective]
  unfold intern
  rw [found]
  split <;> simp [renamed]

end DefUse

namespace NameSet

/-- The names that these become, in their order. -/
def renamed (set : NameSet) : NameSet :=
  set.foldr (fun name => insert (rename name)) []

theorem insert_comm (one other : String) (set : NameSet) :
    insert one (insert other set) = insert other (insert one set) := by
  induction set <;> grind [insert]

theorem insert_insert (name : String) (set : NameSet) : insert name (insert name set) = insert name set := by
  induction set <;> grind [insert]

/-- The order of the old names does not matter. -/
theorem insert_renamed (name : String) (set : NameSet) :
    insert (rename name) (renamed rename set) = renamed rename (insert name set) := by
  induction set with
  | nil => rfl
  | cons first rest ih =>
    have step (name : String) (set : NameSet) : renamed rename (name :: set) =
        insert (rename name) (renamed rename set) := rfl
    rw [insert]
    split
    · rfl
    · split
      · next same => rw [same, step, insert_insert]
      · rw [step, step, insert_comm, ih]

end NameSet

def Occurrence.renamed (occurrence : Occurrence) : Occurrence :=
  { occurrence with name := rename occurrence.name }

def Scope.renamed (scope : Scope) : Scope where
  id := scope.id
  kind := scope.kind
  name := scope.name.map rename
  line := scope.line
  variableNames := scope.variableNames.renamed rename
  functionNames := scope.functionNames.renamed rename
  globalNames := scope.globalNames.renamed rename
  persistentNames := scope.persistentNames.renamed rename

namespace ScopeTable

def renamed (table : ScopeTable) : ScopeTable where
  scopes := table.scopes.map (Scope.renamed rename)
  occurrences := table.occurrences.map (Occurrence.renamed rename)
  declaredFunctions := table.declaredFunctions.map rename

variable (table : ScopeTable)

theorem openScope_renamed (kind : ScopeKind) (name : Option String) (line : SourceLine) :
    (table.renamed rename).openScope kind (name.map rename) line =
      ((table.openScope kind name line).1, (table.openScope kind name line).2.renamed rename) := by
  simp only [openScope, renamed, List.length_map, List.map_append, List.map_singleton]
  rfl

theorem record_renamed (occurrence : Occurrence) :
    (table.renamed rename).record (occurrence.renamed rename) = (table.record occurrence).renamed rename := by
  have placed (occurrences : List Occurrence) :
      insertOccurrence (occurrence.renamed rename) (occurrences.map (Occurrence.renamed rename)) =
        (insertOccurrence occurrence occurrences).map (Occurrence.renamed rename) := by
    induction occurrences with
    | nil => rfl
    | cons first rest ih =>
      simp only [List.map_cons, insertOccurrence, ih, apply_ite (List.map (Occurrence.renamed rename))]
      rfl
  simp only [record, renamed, placed]

/-- Changes that do the same under other names may be made before or after these are given. -/
theorem modifyScope_renamed (id : ScopeId) {change other : Scope → Scope}
    (same : ∀ scope, other (scope.renamed rename) = (change scope).renamed rename) :
    (table.renamed rename).modifyScope id other = (table.modifyScope id change).renamed rename := by
  have changed (scopes : List Scope) (id : Nat) : (scopes.map (Scope.renamed rename)).modify id other =
      (scopes.modify id change).map (Scope.renamed rename) := by
    induction scopes generalizing id with
    | nil => simp
    | cons first rest ih => cases id <;> simp [same, ih]
  simp only [modifyScope, renamed, changed]

theorem occurrence?_renamed (id : IdentId) :
    (table.renamed rename).occurrence? id = (table.occurrence? id).map (Occurrence.renamed rename) := by
  simp only [occurrence?, renamed, List.find?_map]
  rfl

theorem roleOf_renamed (id : IdentId) : (table.renamed rename).roleOf id = table.roleOf id := by
  simp only [roleOf, occurrence?_renamed, Option.map_map]
  rfl

theorem withRoles_renamed (graph : Graph) :
    (table.renamed rename).withRoles (graph.renamed rename) = (table.withRoles graph).renamed rename := by
  have role (occurrence : Occurrence) :
      (graph.renamed rename).roleOf (occurrence.renamed rename) = graph.roleOf occurrence := by
    simp only [Graph.roleOf, Occurrence.renamed, Graph.nodeOf?_renamed]
    rfl
  simp only [withRoles, renamed, List.map_map, Function.comp_def, role]
  rfl

theorem summarize_renamed (occurrence : Occurrence) :
    (table.renamed rename).summarize (occurrence.renamed rename) = (table.summarize occurrence).renamed rename := by
  by_cases kind : occurrence.kind = .functionName
  · simp only [summarize, Occurrence.renamed, kind, if_true]
  · simp only [summarize, Occurrence.renamed, kind, if_false]
    refine table.modifyScope_renamed rename occurrence.scope fun scope => ?_
    by_cases role : occurrence.role = .variable <;>
      simp [Scope.renamed, role, NameSet.insert_renamed]

theorem withSummaries_renamed : (table.renamed rename).withSummaries = table.withSummaries.renamed rename := by
  have all (occurrences : List Occurrence) (table : ScopeTable) :
      (occurrences.map (Occurrence.renamed rename)).foldl summarize (table.renamed rename) =
        (occurrences.foldl summarize table).renamed rename := by
    induction occurrences generalizing table with
    | nil => rfl
    | cons first rest ih =>
      simp only [List.map_cons, List.foldl_cons, summarize_renamed]
      exact ih _
  exact all table.occurrences table

theorem isAmbiguous_renamed (injective : Function.Injective rename) (occurrence : Occurrence) :
    (table.renamed rename).isAmbiguous (occurrence.renamed rename) = table.isAmbiguous occurrence := by
  have declared : (table.renamed rename).isDeclaredFunction (rename occurrence.name) =
      table.isDeclaredFunction occurrence.name := by
    rw [isDeclaredFunction, isDeclaredFunction, Bool.eq_iff_iff, List.contains_iff_mem, List.contains_iff_mem]
    exact List.mem_map_of_injective injective
  exact congrArg (fun known => occurrence.kind = .use && occurrence.indexed && occurrence.arrayOnly
    && occurrence.role = .function && !known) declared

end ScopeTable
end ArrayLift
