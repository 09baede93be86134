import ArrayLift.Proofs.Interning.Requests
import Mathlib.Data.Finset.Dedup
import Mathlib.Data.Finset.Card
import Mathlib.Data.List.Sort

/-! What a graph answers after its requests. The sources of the edges to a node and the targets of those from it are
asked for in two ways, by nodes and by identities; both read the same edges, so what an occurrence reaches and what
reaches it are converses of each other. -/
namespace ArrayLift.DefUse.Graph

/-! Queries. -/

section
variable {graph : Graph}

theorem nodeOf?_eq_some_iff (distinct : graph.Distinct) {id : IdentId} {index : NodeId} :
    graph.nodeOf? id = some index ↔ (graph.node? index).bind Node.occurrence? = some id := by
  constructor
  · intro found
    obtain ⟨inside, same, _⟩ := List.findIdx?_eq_some_iff_getElem.mp found
    rw [node?, List.getElem?_eq_getElem inside]
    exact of_decide_eq_true same
  · intro known
    obtain ⟨node, here, same⟩ := Option.bind_eq_some_iff.mp known
    cases node with
    | occurrence own name kind =>
      obtain rfl : own = id := Option.some.inj same
      exact nodeOf?_eq distinct here
    | implicit | global | persistent => cases same

theorem mem_sources {source target : NodeId} : source ∈ graph.sources target ↔ (source, target) ∈ graph.edges := by
  simp [sources]

theorem mem_targets {source target : NodeId} : target ∈ graph.targets source ↔ (source, target) ∈ graph.edges := by
  simp [targets]

theorem mem_reachingDefinitions {node : Node} {id : IdentId} :
    node ∈ graph.reachingDefinitions id ↔
      ∃ source target, (source, target) ∈ graph.edges ∧ graph.node? source = some node ∧
        graph.nodeOf? id = some target := by
  unfold reachingDefinitions
  cases known : graph.nodeOf? id with
  | none => simp
  | some target => simp [List.mem_filterMap, mem_sources]

theorem mem_reachedOccurrences (distinct : graph.Distinct) {id reached : IdentId} :
    reached ∈ graph.reachedOccurrences id ↔
      ∃ source target, (source, target) ∈ graph.edges ∧ graph.nodeOf? id = some source ∧
        graph.nodeOf? reached = some target := by
  unfold reachedOccurrences
  cases known : graph.nodeOf? id with
  | none => simp
  | some source => simp [List.mem_filterMap, mem_targets, nodeOf?_eq_some_iff distinct]

/-- An occurrence reaches another one if its node is among the definitions that reach the other. -/
theorem reached_iff_reaching (distinct : graph.Distinct) {node : Node} (member : node ∈ graph.nodes) {id : IdentId}
    (own : node.occurrence? = some id) (other : IdentId) :
    other ∈ graph.reachedOccurrences id ↔ node ∈ graph.reachingDefinitions other := by
  obtain ⟨place, here⟩ := List.getElem?_of_mem member
  have found : graph.nodeOf? id = some place := by
    rw [nodeOf?_eq_some_iff distinct, node?, here]
    exact own
  have single (source : NodeId) : graph.node? source = some node ↔ place = source := by
    constructor
    · intro there
      exact distinct place source node node here there (sameSubject_self node)
    · rintro rfl
      exact here
  simp only [mem_reachedOccurrences distinct, mem_reachingDefinitions, found, Option.some.injEq, single]

/-! Orders. -/

theorem nodup_targets (single : graph.edges.Nodup) (source : NodeId) : (graph.targets source).Nodup := by
  refine (single.filter _).map_on fun one left other right same => ?_
  have fromLeft := of_decide_eq_true (List.mem_filter.mp left).2
  have fromRight := of_decide_eq_true (List.mem_filter.mp right).2
  exact Prod.ext (fromLeft.trans fromRight.symm) same

theorem sortedLT_sources (single : graph.edges.Nodup) (target : NodeId) : (graph.sources target).SortedLT := by
  refine List.sortedLE_mergeSort.sortedLT_of_nodup (List.nodup_mergeSort.mpr ?_)
  refine (single.filter _).map_on fun one left other right same => ?_
  have toLeft := of_decide_eq_true (List.mem_filter.mp left).2
  have toRight := of_decide_eq_true (List.mem_filter.mp right).2
  exact Prod.ext same (toLeft.trans toRight.symm)

theorem sortedLT_reachedOccurrences (distinct : graph.Distinct) (single : graph.edges.Nodup) (id : IdentId) :
    (graph.reachedOccurrences id).SortedLT := by
  unfold reachedOccurrences
  split
  · rename_i source _
    refine List.sortedLE_mergeSort.sortedLT_of_nodup (List.nodup_mergeSort.mpr ?_)
    refine (nodup_targets single source).filterMap fun one other reached left right => ?_
    have here := (nodeOf?_eq_some_iff distinct).mpr left
    have there := (nodeOf?_eq_some_iff distinct).mpr right
    exact Option.some.inj (here.symm.trans there)
  · exact List.Pairwise.nil.sortedLT

/-- Picking from a list at ascending places keeps its order. -/
theorem filterMap_getElem?_sublist {α : Type} (items : List α) {places : List Nat} (ascending : places.Pairwise (· < ·))
    {start : Nat} (behind : ∀ place ∈ places, start ≤ place) :
    (places.filterMap fun place => items[place]?).Sublist (items.drop start) := by
  induction places generalizing start with
  | nil => exact List.nil_sublist _
  | cons place rest ih =>
    obtain ⟨before, others⟩ := List.pairwise_cons.mp ascending
    have above : ∀ other ∈ rest, place + 1 ≤ other := before
    have later := ih others above
    have reached : (items.drop place).Sublist (items.drop start) :=
      List.drop_sublist_drop_left items (behind place (List.mem_cons_self ..))
    refine List.Sublist.trans ?_ reached
    cases here : items[place]? with
    | none =>
      rw [List.filterMap_cons_none here]
      exact later.trans (List.drop_sublist_drop_left items (Nat.le_succ place))
    | some item =>
      obtain ⟨inside, rfl⟩ := List.getElem?_eq_some_iff.mp here
      rw [List.filterMap_cons_some here, List.drop_eq_getElem_cons inside]
      exact later.cons_cons _

theorem reachingDefinitions_sublist (single : graph.edges.Nodup) (id : IdentId) :
    (graph.reachingDefinitions id).Sublist graph.nodes := by
  unfold reachingDefinitions
  split
  · rename_i target _
    exact filterMap_getElem?_sublist graph.nodes (sortedLT_sources single target).pairwise fun _ _ => Nat.zero_le _
  · exact List.nil_sublist _

end

/-! Requests. -/

/-- One of the requests asks for a node, and is answered with the number of one. -/
def Answers (requests : List Request) (node : Node) (id : NodeId) : Prop :=
  ∃ before behind, requests = before ++ .intern node :: behind ∧ ((ofRequests before).intern node).1 = id

section
variable {requests : List Request} {node one other : Node} {id first second : NodeId}

/-- A node stays under the number of the answer, and has the key that was asked for. -/
theorem Answers.found (answers : Answers requests node id) :
    ∃ found, (ofRequests requests).node? id = some found ∧ found.key = node.key := by
  obtain ⟨before, behind, rfl, rfl⟩ := answers
  obtain ⟨found, here, same⟩ := (ofRequests before).intern_answer node
  refine ⟨found, ?_, same⟩
  rw [ofRequests_append]
  exact extends_foldl _ behind _ found here

theorem Answers.eq_iff (left : Answers requests one first) (right : Answers requests other second) :
    first = second ↔ one.key = other.key := by
  obtain ⟨found, atFirst, sameFirst⟩ := left.found
  obtain ⟨also, atSecond, sameSecond⟩ := right.found
  constructor
  · rintro rfl
    obtain rfl : found = also := Option.some.inj (atFirst.symm.trans atSecond)
    exact sameFirst.symm.trans sameSecond
  · intro same
    refine (holds_ofRequests requests).distinct first second found also atFirst atSecond ?_
    exact (Node.sameSubject_iff found also).mpr (sameFirst.trans (same.trans sameSecond.symm))

/-- The node is the first one of its key that was asked for. -/
theorem Answers.node?_eq (answers : Answers requests node id) :
    (ofRequests requests).node? id = (asked requests).find? fun earlier => earlier.key = node.key := by
  obtain ⟨found, here, same⟩ := answers.found
  have holds := holds_ofRequests requests
  rw [← holds.first node.key, ← same, holds.find?_key (List.mem_of_getElem? here), here]

end

/-- What a graph has kept of the requests that have made it. -/
structure Keeps (graph : Graph) (requests : List Request) : Prop where
  /-- Two requests for nodes have one answer if they ask for one key. -/
  interned : ∀ one first other second, Answers requests one first → Answers requests other second →
    (first = second ↔ one.key = other.key)
  /-- The node of an answer is the one of its key that was asked for first. -/
  payload : ∀ node id, Answers requests node id →
    graph.node? id = (asked requests).find? fun earlier => earlier.key = node.key
  /-- There are as many edges as different pairs were connected. -/
  edges : graph.edges.length = (joined requests).toFinset.card
  /-- A node is reached if something was connected with it as the target. -/
  reached : ∀ target, graph.isReached target = true ↔ ∃ source, .connect source target ∈ requests
  /-- What an occurrence reaches and what reaches it are converses. -/
  converse : ∀ node ∈ graph.nodes, ∀ id, node.occurrence? = some id → ∀ other,
    other ∈ graph.reachedOccurrences id ↔ node ∈ graph.reachingDefinitions other
  /-- Reached occurrences ascend, so none of them is listed twice. -/
  ascending : ∀ id, (graph.reachedOccurrences id).SortedLT
  /-- The definitions that reach an occurrence are different nodes in the order in which they were made. -/
  ordered : ∀ id, (graph.reachingDefinitions id).Nodup ∧ (graph.reachingDefinitions id).Sublist graph.nodes

/-- A graph keeps what it was asked for, by however many requests and in whatever order. -/
theorem keeps_ofRequests (requests : List Request) : (ofRequests requests).Keeps requests := by
  have holds := holds_ofRequests requests
  refine ⟨fun one first other second left right => left.eq_iff right, fun node id answers => answers.node?_eq, ?_,
    fun target => ?_, fun node member id own other => reached_iff_reaching holds.distinct member own other,
    sortedLT_reachedOccurrences holds.distinct holds.single, fun id => ?_⟩
  · have same : (ofRequests requests).edges.toFinset = (joined requests).toFinset := by
      ext edge
      rw [List.mem_toFinset, List.mem_toFinset, holds.edges]
    rw [← same, List.toFinset_card_of_nodup holds.single]
  · simp only [isReached, List.any_eq_true, decide_eq_true_eq, ← mem_joined, ← holds.edges]
    constructor
    · rintro ⟨edge, member, rfl⟩
      exact ⟨edge.1, member⟩
    · rintro ⟨source, member⟩
      exact ⟨(source, target), member, rfl⟩
  · have sublist := reachingDefinitions_sublist holds.single id
    exact ⟨sublist.nodup holds.keys.of_map, sublist⟩

-- the second request finds the node of the first one and leaves it; the node may reach itself
example :
    let graph := ofRequests
      [.intern (.occurrence 3 "x" .definition), .intern (.occurrence 3 "y" .use), .connect 0 0, .connect 0 0]
    graph.nodes = [.occurrence 3 "x" .definition] ∧ graph.edges = [(0, 0)] ∧ graph.isReached 0 = true := by
  decide

end ArrayLift.DefUse.Graph
