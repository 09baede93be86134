import ArrayLift.Proofs.Walk.Representation
import Mathlib.Data.List.Induction
import Mathlib.Data.List.Nodup

/-! A graph under requests. A graph is made by asking for nodes and by drawing edges, one request after another. Each
kind of node has keys of its own, the first request for a key makes its node, and every later one finds it; nodes are
never changed, and each edge is drawn once. -/
namespace ArrayLift.DefUse

/-- What tells the nodes of one kind apart. -/
inductive Key where
  | occurrence (id : IdentId)
  | implicit (scope : ScopeId) (name : String)
  | global (name : String)
  | persistent (scope : ScopeId) (name : String)
  deriving DecidableEq

def Node.key : Node → Key
  | .occurrence id _ _ => .occurrence id
  | .implicit scope name => .implicit scope name
  | .global name => .global name
  | .persistent scope name => .persistent scope name

theorem Node.sameSubject_iff (one other : Node) : one.sameSubject other = true ↔ one.key = other.key := by
  cases one <;> cases other <;> simp [sameSubject, key]

/-- What a graph is asked to do. -/
inductive Request where
  /-- Find the node with the key of this one, or make this one. -/
  | intern (node : Node)
  | connect (source target : NodeId)

namespace Request

def node? : Request → Option Node
  | .intern node => some node
  | .connect .. => none

def edge? : Request → Option (NodeId × NodeId)
  | .intern _ => none
  | .connect source target => some (source, target)

end Request

/-- The nodes that are asked for, in the order of the requests. -/
def asked (requests : List Request) : List Node :=
  requests.filterMap Request.node?

/-- The pairs that are connected, in the order of the requests. -/
def joined (requests : List Request) : List (NodeId × NodeId) :=
  requests.filterMap Request.edge?

theorem mem_joined {requests : List Request} {source target : NodeId} :
    (source, target) ∈ joined requests ↔ .connect source target ∈ requests := by
  simp only [joined, List.mem_filterMap]
  constructor
  · rintro ⟨request, member, same⟩
    cases request with
    | intern node => cases same
    | connect first second =>
      cases same
      exact member
  · intro member
    exact ⟨_, member, rfl⟩

namespace Graph

/-- The graph behind a request. -/
def after (graph : Graph) : Request → Graph
  | .intern node => (graph.intern node).2
  | .connect source target => graph.connect source target

/-- The graph that requests make from nothing. -/
def ofRequests (requests : List Request) : Graph :=
  requests.foldl after empty

theorem ofRequests_append (before behind : List Request) :
    ofRequests (before ++ behind) = behind.foldl after (ofRequests before) :=
  List.foldl_append

/-! One request. -/

/-- The node that is answered has the key that was asked for. -/
theorem intern_answer (graph : Graph) (node : Node) :
    ∃ found, (graph.intern node).2.node? (graph.intern node).1 = some found ∧ found.key = node.key := by
  obtain ⟨index, found, here, same, result⟩ | ⟨_, result⟩ := graph.intern_cases node
  · rw [result]
    exact ⟨found, here, (Node.sameSubject_iff found node).mp same⟩
  · rw [result]
    exact ⟨node, List.getElem?_concat_length, rfl⟩

theorem extends_after (graph : Graph) (request : Request) : graph.Extends (graph.after request) := by
  intro index node here
  cases request with
  | intern new =>
    obtain ⟨_, _, _, _, result⟩ | ⟨_, result⟩ := graph.intern_cases new
    · rwa [after, result]
    · rw [after, result]
      obtain ⟨inside, _⟩ := List.getElem?_eq_some_iff.mp here
      exact (List.getElem?_append_left inside).trans here
  | connect source target => rwa [after, connect_node?]

theorem extends_foldl (graph : Graph) (requests : List Request) : graph.Extends (requests.foldl after graph) := by
  induction requests generalizing graph with
  | nil => exact fun _ _ here => here
  | cons request rest ih =>
    intro index node here
    exact ih (graph.after request) index node (graph.extends_after request index node here)

/-! All requests. -/

/-- The graph holds what the requests have asked for: of the nodes the first of each key, and each edge once. -/
structure Holds (graph : Graph) (requests : List Request) : Prop where
  keys : (graph.nodes.map Node.key).Nodup
  first : ∀ key, (graph.nodes.find? fun node => node.key = key) = (asked requests).find? fun node => node.key = key
  single : graph.edges.Nodup
  edges : ∀ edge, edge ∈ graph.edges ↔ edge ∈ joined requests

namespace Holds

variable {graph : Graph} {requests : List Request}

theorem empty : Graph.empty.Holds [] where
  keys := List.nodup_nil
  first _ := rfl
  single := List.nodup_nil
  edges _ := Iff.rfl

theorem intern (holds : graph.Holds requests) (node : Node) :
    (graph.intern node).2.Holds (requests ++ [.intern node]) := by
  have askedBehind : asked (requests ++ [.intern node]) = asked requests ++ [node] := List.filterMap_append
  have joinedBehind : joined (requests ++ [.intern node]) = joined requests := by
    simp [joined, List.filterMap_append, Request.edge?]
  obtain ⟨index, found, here, same, result⟩ | ⟨fresh, result⟩ := graph.intern_cases node
  · rw [result]
    refine ⟨holds.keys, fun key => ?_, holds.single, fun edge => joinedBehind ▸ holds.edges edge⟩
    rw [askedBehind, List.find?_append, ← holds.first key]
    by_cases equal : node.key = key
    · have known : (graph.nodes.find? fun node => node.key = key).isSome = true := by
        rw [List.find?_isSome]
        have own := (Node.sameSubject_iff found node).mp same
        exact ⟨found, List.mem_of_getElem? here, by simp [own, equal]⟩
      rw [Option.or_of_isSome known]
    · simp [equal]
  · rw [result]
    refine ⟨?_, fun key => ?_, holds.single, fun edge => joinedBehind ▸ holds.edges edge⟩
    · rw [List.map_append, List.map_singleton, List.nodup_append]
      refine ⟨holds.keys, by simp, ?_⟩
      rintro key member _ (_ | ⟨_, ⟨⟩⟩) rfl
      obtain ⟨other, listed, equal⟩ := List.mem_map.mp member
      have apart := fresh other listed
      rw [(Node.sameSubject_iff other node).mpr equal] at apart
      cases apart
    · rw [askedBehind, List.find?_append, List.find?_append, holds.first key]

theorem connect (holds : graph.Holds requests) (source target : NodeId) :
    (graph.connect source target).Holds (requests ++ [.connect source target]) := by
  have askedBehind : asked (requests ++ [.connect source target]) = asked requests := by
    simp [asked, List.filterMap_append, Request.node?]
  have joinedBehind : joined (requests ++ [.connect source target]) = joined requests ++ [(source, target)] :=
    List.filterMap_append
  refine ⟨?_, fun key => ?_, nodup_connect holds.single source target, fun edge => ?_⟩
  · rw [connect_nodes]
    exact holds.keys
  · rw [connect_nodes, askedBehind]
    exact holds.first key
  · rw [mem_connect, holds.edges, joinedBehind, List.mem_append, List.mem_singleton, or_comm]

theorem distinct (holds : graph.Holds requests) : graph.Distinct := by
  intro i j left right atLeft atRight same
  have inside : i < (graph.nodes.map Node.key).length := by
    rw [List.length_map]
    exact (List.getElem?_eq_some_iff.mp atLeft).1
  refine (List.getElem?_inj inside holds.keys).mp ?_
  have atLeft : graph.nodes[i]? = some left := atLeft
  have atRight : graph.nodes[j]? = some right := atRight
  rw [List.getElem?_map, List.getElem?_map, atLeft, atRight, Option.map_some, Option.map_some,
    (Node.sameSubject_iff left right).mp same]

/-- A node is the only one with its key. -/
theorem find?_key (holds : graph.Holds requests) {node : Node} (member : node ∈ graph.nodes) :
    (graph.nodes.find? fun other => other.key = node.key) = some node := by
  have known : (graph.nodes.find? fun other => other.key = node.key).isSome = true := by
    rw [List.find?_isSome]
    exact ⟨node, member, by simp⟩
  obtain ⟨found, there⟩ := Option.isSome_iff_exists.mp known
  have same : found.key = node.key := by simpa using List.find?_some there
  rw [there, List.inj_on_of_nodup_map holds.keys (List.mem_of_find?_eq_some there) member same]

end Holds

theorem holds_ofRequests (requests : List Request) : (ofRequests requests).Holds requests := by
  induction requests using List.reverseRecOn with
  | nil => exact .empty
  | append_singleton before request ih =>
    rw [ofRequests_append]
    cases request with
    | intern node => exact ih.intern node
    | connect source target => exact ih.connect source target

end Graph
end ArrayLift.DefUse
