import ArrayLift.Proofs.Walk.View

/-! Flows, graphs and tables as the lists that represent them: what each operation does to their members. -/
namespace ArrayLift

namespace Flow

theorem contains_iff (flow : Flow) (fact : Fact) : flow.contains fact = true ↔ fact ∈ flow.facts := by
  simp [contains]

theorem mem_insert (flow : Flow) (fact other : Fact) :
    other ∈ (flow.insert fact).facts ↔ other = fact ∨ other ∈ flow.facts := by
  unfold insert
  split
  · rename_i known
    have member := (contains_iff flow fact).mp known
    constructor
    · exact .inr
    · intro found
      rcases found with rfl | old
      · exact member
      · exact old
  · exact List.mem_cons

theorem mem_merge (left right : Flow) (fact : Fact) :
    fact ∈ (left.merge right).facts ↔ fact ∈ left.facts ∨ fact ∈ right.facts := by
  obtain ⟨facts⟩ := right
  unfold merge
  induction facts generalizing left with
  | nil => simp
  | cons first rest ih =>
    simp only [List.foldl_cons, ih, mem_insert, List.mem_cons]
    grind

private theorem mem_insertAll (name : String) (nodes : List DefUse.NodeId) (flow : Flow) (fact : Fact) :
    fact ∈ (nodes.foldl (fun flow node => flow.insert ⟨name, node⟩) flow).facts ↔
      (fact.name = name ∧ fact.node ∈ nodes) ∨ fact ∈ flow.facts := by
  induction nodes generalizing flow with
  | nil => simp
  | cons first rest ih =>
    obtain ⟨text, node⟩ := fact
    simp only [List.foldl_cons, ih, mem_insert, Fact.mk.injEq, List.mem_cons]
    grind

theorem mem_redefine (flow : Flow) (name : String) (nodes : List DefUse.NodeId) (fact : Fact) :
    fact ∈ (flow.redefine name nodes).facts ↔
      (fact.name = name ∧ fact.node ∈ nodes) ∨ (fact ∈ flow.facts ∧ fact.name ≠ name) := by
  simp only [redefine, mem_insertAll, List.mem_filter, decide_eq_true_eq, ne_eq]

theorem mem_definitions (flow : Flow) (name : String) (node : DefUse.NodeId) :
    node ∈ flow.definitions name ↔ ⟨name, node⟩ ∈ flow.facts := by
  simp only [definitions, List.mem_map, List.mem_filter, decide_eq_true_eq]
  constructor
  · intro found
    obtain ⟨⟨text, other⟩, ⟨member, rfl⟩, rfl⟩ := found
    exact member
  · intro member
    exact ⟨⟨name, node⟩, ⟨member, rfl⟩, rfl⟩

theorem same_iff (left right : Flow) :
    left.same right = true ↔ ∀ fact, fact ∈ left.facts ↔ fact ∈ right.facts := by
  simp only [same, Bool.and_eq_true, List.all_eq_true, contains_iff]
  constructor
  · rintro ⟨forth, back⟩ fact
    exact ⟨forth fact, back fact⟩
  · intro equal
    exact ⟨fun fact => (equal fact).mp, fun fact => (equal fact).mpr⟩

/-- The definitions that a flow names, by the nodes of a graph. -/
def live (flow : Flow) (graph : DefUse.Graph) : Set DefUse.Node :=
  {node | ∃ index, ⟨node.name, index⟩ ∈ flow.facts ∧ graph.node? index = some node}

/-- Every fact of the flow is about a node of the graph. -/
def Valid (flow : Flow) (graph : DefUse.Graph) : Prop :=
  ∀ fact ∈ flow.facts, ∃ node, graph.node? fact.node = some node ∧ node.name = fact.name

end Flow

namespace DefUse.Graph

/-- No subject has two nodes. -/
def Distinct (graph : Graph) : Prop :=
  ∀ i j left right, graph.node? i = some left → graph.node? j = some right →
    left.sameSubject right = true → i = j

def Extends (graph larger : Graph) : Prop :=
  ∀ index node, graph.node? index = some node → larger.node? index = some node

/-- The edges of a graph as pairs of nodes. -/
def links (graph : Graph) : Set (Node × Node) :=
  {edge | ∃ source target, (source, target) ∈ graph.edges ∧
    graph.node? source = some edge.1 ∧ graph.node? target = some edge.2}

/-- Every edge stands between nodes. -/
def Closed (graph : Graph) : Prop :=
  ∀ source target, (source, target) ∈ graph.edges →
    (∃ node, graph.node? source = some node) ∧ ∃ node, graph.node? target = some node

theorem sameSubject_self (node : Node) : node.sameSubject node = true := by
  cases node <;> simp [Node.sameSubject]

theorem sameSubject_comm (left right : Node) : left.sameSubject right = right.sameSubject left := by
  cases left <;> cases right <;> simp [Node.sameSubject, eq_comm]

/-- A node of the same subject is found, or the one that is asked for is new at the end. -/
theorem intern_cases (graph : Graph) (node : Node) :
    (∃ index found, graph.node? index = some found ∧ found.sameSubject node = true ∧
      graph.intern node = (index, graph)) ∨
      (∀ other ∈ graph.nodes, other.sameSubject node = false) ∧
        graph.intern node = (graph.nodes.length, ⟨graph.nodes ++ [node], graph.edges⟩) := by
  cases search : graph.nodes.findIdx? (·.sameSubject node) with
  | some index =>
    obtain ⟨inside, same, _⟩ := List.findIdx?_eq_some_iff_getElem.mp search
    exact .inl ⟨index, graph.nodes[index], List.getElem?_eq_getElem inside, same, by simp only [intern, search]⟩
  | none =>
    have fresh : ∀ other ∈ graph.nodes, other.sameSubject node = false := by
      simpa using List.findIdx?_eq_none_iff.mp search
    exact .inr ⟨fresh, by simp only [intern, search]⟩

/-- What asking for the node of a subject does to a graph. -/
structure Interned (graph : Graph) (node : Node) (result : NodeId × Graph) : Prop where
  found : result.2.node? result.1 = some node
  larger : graph.Extends result.2
  members : ∀ index other, result.2.node? index = some other → graph.node? index = some other ∨ other = node
  edges : result.2.edges = graph.edges
  distinct : result.2.Distinct

theorem intern_spec (graph : Graph) (node : Node) (distinct : graph.Distinct)
    (clash : ∀ index other, graph.node? index = some other → other.sameSubject node = true → other = node) :
    Interned graph node (graph.intern node) := by
  obtain ⟨index, found, here, same, result⟩ | ⟨fresh, result⟩ := graph.intern_cases node
  · rw [result]
    obtain rfl := clash index found here same
    exact ⟨here, fun _ _ old => old, fun _ _ old => .inl old, rfl, distinct⟩
  · rw [result]
    have cases_node (index : Nat) (other : Node)
        (here : (graph.nodes ++ [node])[index]? = some other) :
        graph.node? index = some other ∨ (index = graph.nodes.length ∧ other = node) := by
      rcases Nat.lt_or_ge index graph.nodes.length with inside | outside
      · rw [List.getElem?_append_left inside] at here
        exact .inl here
      · rw [List.getElem?_append_right outside] at here
        have position : index - graph.nodes.length = 0 := by
          by_contra later
          rw [List.getElem?_eq_none (by simp only [List.length_cons, List.length_nil]; omega)] at here
          cases here
        rw [position] at here
        exact .inr ⟨by omega, (Option.some.inj here).symm⟩
    refine ⟨by simp [node?], ?_, ?_, rfl, ?_⟩
    · intro index other old
      obtain ⟨inside, _⟩ := List.getElem?_eq_some_iff.mp old
      exact (List.getElem?_append_left inside).trans old
    · intro index other here
      rcases cases_node index other here with old | ⟨_, new⟩
      · exact .inl old
      · exact .inr new
    · intro i j left right atI atJ same
      rcases cases_node i left atI with oldI | ⟨newI, rfl⟩ <;>
        rcases cases_node j right atJ with oldJ | ⟨newJ, equal⟩
      · exact distinct i j left right oldI oldJ same
      · subst equal
        rw [fresh left (List.mem_of_getElem? oldI)] at same
        cases same
      · rw [sameSubject_comm, fresh right (List.mem_of_getElem? oldJ)] at same
        cases same
      · exact newI.trans newJ.symm

theorem connect_nodes (graph : Graph) (source target : NodeId) : (graph.connect source target).nodes = graph.nodes := by
  unfold connect
  split <;> rfl

theorem connect_node? (graph : Graph) (source target index : NodeId) :
    (graph.connect source target).node? index = graph.node? index := by
  rw [node?, connect_nodes, node?]

theorem nodup_connect {graph : Graph} (single : graph.edges.Nodup) (source target : NodeId) :
    (graph.connect source target).edges.Nodup := by
  unfold connect
  split
  · exact single
  · rename_i fresh
    exact List.nodup_cons.mpr ⟨fresh, single⟩

theorem mem_connect (graph : Graph) (source target : NodeId) (edge : NodeId × NodeId) :
    edge ∈ (graph.connect source target).edges ↔ edge = (source, target) ∨ edge ∈ graph.edges := by
  unfold connect
  split
  · rename_i known
    constructor
    · exact .inr
    · intro found
      rcases found with rfl | old
      · exact known
      · exact old
  · exact List.mem_cons

theorem connectAll_node? (sources : List NodeId) (graph : Graph) (target index : NodeId) :
    (sources.foldl (fun graph source => graph.connect source target) graph).node? index = graph.node? index := by
  induction sources generalizing graph with
  | nil => rfl
  | cons source rest ih => rw [List.foldl_cons, ih, connect_node?]

theorem mem_connectAll (sources : List NodeId) (graph : Graph) (target : NodeId) (edge : NodeId × NodeId) :
    edge ∈ (sources.foldl (fun graph source => graph.connect source target) graph).edges ↔
      (edge.1 ∈ sources ∧ edge.2 = target) ∨ edge ∈ graph.edges := by
  induction sources generalizing graph with
  | nil => simp
  | cons source rest ih =>
    obtain ⟨first, second⟩ := edge
    simp only [List.foldl_cons, ih, mem_connect, Prod.mk.injEq, List.mem_cons]
    grind

theorem Extends.links {graph larger : Graph} (grown : graph.Extends larger) (closed : graph.Closed)
    (edges : larger.edges = graph.edges) : larger.links = graph.links := by
  ext ⟨left, right⟩
  constructor
  · intro found
    obtain ⟨source, target, member, atSource, atTarget⟩ := found
    rw [edges] at member
    obtain ⟨⟨one, known⟩, other, also⟩ := closed source target member
    have sameSource := Option.some.inj ((grown source one known).symm.trans atSource)
    have sameTarget := Option.some.inj ((grown target other also).symm.trans atTarget)
    exact ⟨source, target, member, by rw [known, sameSource], by rw [also, sameTarget]⟩
  · intro found
    obtain ⟨source, target, member, atSource, atTarget⟩ := found
    exact ⟨source, target, edges ▸ member, grown source _ atSource, grown target _ atTarget⟩

theorem Extends.closed {graph larger : Graph} (grown : graph.Extends larger) (closed : graph.Closed)
    (edges : larger.edges = graph.edges) : larger.Closed := by
  intro source target member
  rw [edges] at member
  obtain ⟨⟨one, known⟩, other, also⟩ := closed source target member
  exact ⟨⟨one, grown source one known⟩, other, grown target other also⟩

/-- An occurrence has one node. -/
theorem nodeOf?_eq {graph : Graph} (distinct : graph.Distinct) {index : NodeId} {id : IdentId} {name : String}
    {kind : OccurrenceKind} (known : graph.node? index = some (.occurrence id name kind)) :
    graph.nodeOf? id = some index := by
  unfold nodeOf?
  cases found : graph.nodes.findIdx? (fun node => node.occurrence? = some id) with
  | none =>
    have missing := List.findIdx?_eq_none_iff.mp found _ (List.mem_of_getElem? known)
    simp [Node.occurrence?] at missing
  | some first =>
    obtain ⟨inside, same, _⟩ := List.findIdx?_eq_some_iff_getElem.mp found
    have here : graph.node? first = some graph.nodes[first] := List.getElem?_eq_getElem inside
    have alike : graph.nodes[first].sameSubject (.occurrence id name kind) = true := by
      cases shape : graph.nodes[first] <;> simp_all [Node.occurrence?, Node.sameSubject]
    rw [distinct first index _ _ here known alike]

end DefUse.Graph

namespace Flow

theorem Valid.mono {flow : Flow} {graph larger : DefUse.Graph} (valid : flow.Valid graph)
    (grown : graph.Extends larger) : flow.Valid larger := by
  intro fact member
  obtain ⟨node, known, same⟩ := valid fact member
  exact ⟨node, grown _ node known, same⟩

theorem Valid.live_mono {flow : Flow} {graph larger : DefUse.Graph} (valid : flow.Valid graph)
    (grown : graph.Extends larger) : flow.live larger = flow.live graph := by
  ext node
  constructor
  · intro found
    obtain ⟨index, member, known⟩ := found
    obtain ⟨other, old, _⟩ := valid _ member
    exact ⟨index, member, old.trans ((grown index other old).symm.trans known)⟩
  · intro found
    obtain ⟨index, member, known⟩ := found
    exact ⟨index, member, grown index node known⟩

theorem live_merge (left right : Flow) (graph : DefUse.Graph) :
    (left.merge right).live graph = left.live graph ∪ right.live graph := by
  ext node
  simp only [live, mem_merge, Set.mem_ofPred_eq, Set.mem_union]
  constructor
  · intro found
    rcases found with ⟨index, inLeft | inRight, known⟩
    · exact .inl ⟨index, inLeft, known⟩
    · exact .inr ⟨index, inRight, known⟩
  · intro found
    rcases found with ⟨index, inLeft, known⟩ | ⟨index, inRight, known⟩
    · exact ⟨index, .inl inLeft, known⟩
    · exact ⟨index, .inr inRight, known⟩

theorem Valid.merge {left right : Flow} {graph : DefUse.Graph} (one : left.Valid graph)
    (other : right.Valid graph) : (left.merge right).Valid graph := by
  intro fact member
  rcases (mem_merge left right fact).mp member with inLeft | inRight
  · exact one fact inLeft
  · exact other fact inRight

/-- The definitions of a name, as nodes. -/
theorem Valid.definitions {flow : Flow} {graph : DefUse.Graph} (valid : flow.Valid graph) (name : String)
    (node : DefUse.Node) : (∃ index ∈ flow.definitions name, graph.node? index = some node) ↔
      node ∈ flow.live graph ∧ node.name = name := by
  constructor
  · intro found
    obtain ⟨index, member, known⟩ := found
    have fact := (mem_definitions flow name index).mp member
    obtain ⟨other, here, same⟩ := valid _ fact
    obtain rfl : other = node := Option.some.inj (here.symm.trans known)
    exact ⟨⟨index, by rw [same]; exact fact, known⟩, same⟩
  · intro found
    obtain ⟨⟨index, fact, known⟩, rfl⟩ := found
    exact ⟨index, (mem_definitions flow node.name index).mpr fact, known⟩

theorem Valid.insert {flow : Flow} {graph : DefUse.Graph} (valid : flow.Valid graph)
    {index : DefUse.NodeId} {node : DefUse.Node} (known : graph.node? index = some node) :
    (flow.insert ⟨node.name, index⟩).Valid graph := by
  intro fact member
  rcases (mem_insert flow _ fact).mp member with rfl | old
  · exact ⟨node, known, rfl⟩
  · exact valid fact old

theorem live_insert {flow : Flow} {graph : DefUse.Graph} {index : DefUse.NodeId} {node : DefUse.Node}
    (known : graph.node? index = some node) :
    (flow.insert ⟨node.name, index⟩).live graph = Insert.insert node (flow.live graph) := by
  ext other
  simp only [live, mem_insert, Set.mem_ofPred_eq, Set.mem_insert_iff, Fact.mk.injEq]
  constructor
  · intro found
    rcases found with ⟨position, ⟨_, rfl⟩ | old, here⟩
    · exact .inl (Option.some.inj (here.symm.trans known))
    · exact .inr ⟨position, old, here⟩
  · intro found
    rcases found with rfl | ⟨position, old, here⟩
    · exact ⟨index, .inl ⟨rfl, rfl⟩, known⟩
    · exact ⟨position, .inr old, here⟩

section
variable {flow : Flow} {graph : DefUse.Graph} {name : String} {nodes : List DefUse.NodeId}
  (named : ∀ index ∈ nodes, ∃ node, graph.node? index = some node ∧ node.name = name)
include named

theorem Valid.redefine (valid : flow.Valid graph) : (flow.redefine name nodes).Valid graph := by
  intro fact member
  rcases (mem_redefine flow name nodes fact).mp member with ⟨same, fresh⟩ | ⟨old, _⟩
  · obtain ⟨node, known, called⟩ := named fact.node fresh
    exact ⟨node, known, called.trans same.symm⟩
  · exact valid fact old

/-- The nodes put in place are the definitions of their name, and those of other names stay. -/
theorem live_redefine (node : DefUse.Node) : node ∈ (flow.redefine name nodes).live graph ↔
    (∃ index ∈ nodes, graph.node? index = some node) ∨ (node ∈ flow.live graph ∧ node.name ≠ name) := by
  simp only [live, mem_redefine, Set.mem_ofPred_eq]
  constructor
  · intro found
    rcases found with ⟨index, ⟨_, fresh⟩ | ⟨old, other⟩, known⟩
    · exact .inl ⟨index, fresh, known⟩
    · exact .inr ⟨⟨index, old, known⟩, other⟩
  · intro found
    rcases found with ⟨index, fresh, known⟩ | ⟨⟨index, old, known⟩, other⟩
    · obtain ⟨here, there, called⟩ := named index fresh
      obtain rfl : here = node := Option.some.inj (there.symm.trans known)
      exact ⟨index, .inl ⟨called, fresh⟩, known⟩
    · exact ⟨index, .inr ⟨old, other⟩, known⟩

end

theorem live_empty (graph : DefUse.Graph) : empty.live graph = ∅ := by
  ext node
  simp [live, empty]

theorem valid_empty (graph : DefUse.Graph) : empty.Valid graph := by
  intro fact member
  cases member

/-- Flows over one graph are the same if they name the same definitions. -/
theorem same_iff_live {left right : Flow} {graph : DefUse.Graph} (distinct : graph.Distinct)
    (one : left.Valid graph) (other : right.Valid graph) :
    left.same right = true ↔ left.live graph = right.live graph := by
  have covered {flow further : Flow} (valid : flow.Valid graph) (equal : flow.live graph = further.live graph)
      (fact : Fact) (member : fact ∈ flow.facts) : fact ∈ further.facts := by
    obtain ⟨node, known, same⟩ := valid fact member
    have named : node ∈ flow.live graph := ⟨fact.node, by rw [same]; exact member, known⟩
    rw [equal] at named
    obtain ⟨index, there, alike⟩ := named
    have position := distinct fact.node index node node known alike (DefUse.Graph.sameSubject_self node)
    rw [same, ← position] at there
    exact there
  rw [same_iff]
  constructor
  · intro equal
    ext node
    simp only [live, Set.mem_ofPred_eq, equal]
  · intro equal fact
    exact ⟨covered one equal fact, covered other equal.symm fact⟩

end Flow

namespace ScopeTable

/-- Recording an occurrence adds it; the table stays in ascending order. -/
theorem mem_insertOccurrence {occurrence : Occurrence} {table : List Occurrence}
    (sorted : table.Pairwise (·.id < ·.id))
    (single : ∀ other ∈ table, other.id = occurrence.id → other = occurrence) (one : Occurrence) :
    one ∈ insertOccurrence occurrence table ↔ one = occurrence ∨ one ∈ table := by
  induction table with
  | nil => simp [insertOccurrence]
  | cons first rest ih =>
    obtain ⟨below, sortedRest⟩ := List.pairwise_cons.mp sorted
    unfold insertOccurrence
    split
    · simp
    · split
      · rename_i same
        have equal := single first (by simp) same.symm
        simp [equal]
      · have added := ih sortedRest fun other member => single other (by simp [member])
        simp only [List.mem_cons, added]
        grind

theorem insertOccurrence_sorted {occurrence : Occurrence} {table : List Occurrence}
    (sorted : table.Pairwise (·.id < ·.id))
    (single : ∀ other ∈ table, other.id = occurrence.id → other = occurrence) :
    (insertOccurrence occurrence table).Pairwise (·.id < ·.id) := by
  induction table with
  | nil => simp [insertOccurrence]
  | cons first rest ih =>
    obtain ⟨below, sortedRest⟩ := List.pairwise_cons.mp sorted
    have singleRest : ∀ other ∈ rest, other.id = occurrence.id → other = occurrence :=
      fun other member => single other (by simp [member])
    unfold insertOccurrence
    split
    · rename_i less
      refine List.pairwise_cons.mpr ⟨?_, sorted⟩
      intro other member
      rcases List.mem_cons.mp member with rfl | later
      · exact less
      · exact Nat.lt_trans less (below other later)
    · split
      · exact sorted
      · rename_i notLess different
        refine List.pairwise_cons.mpr ⟨?_, ih sortedRest singleRest⟩
        intro other member
        rcases (mem_insertOccurrence sortedRest singleRest other).mp member with rfl | later
        · exact Nat.lt_of_le_of_ne (Nat.not_lt.mp notLess) fun same => different same.symm
        · exact below other later

end ScopeTable
end ArrayLift
