import ArrayLift.Resolution.ScopeTable

/-! The graph of definitions and uses. Its nodes are numbered in the order of their creation, each
subject has one node, and an edge says that a definition may reach an occurrence. -/
namespace ArrayLift.DefUse

abbrev NodeId := Nat

inductive Node where
  | occurrence (id : IdentId) (name : String) (kind : OccurrenceKind)
  /-- A binding that every function starts with. -/
  | implicit (scope : ScopeId) (name : String)
  /-- The one definition behind all global declarations of a name. -/
  | global (name : String)
  /-- The definition behind the persistent declarations of a name in one scope. -/
  | persistent (scope : ScopeId) (name : String)
  deriving DecidableEq, Repr

namespace Node

def name : Node → String
  | .occurrence _ name _ => name
  | .implicit _ name => name
  | .global name => name
  | .persistent _ name => name

/-- Do two nodes stand for one subject? Occurrences do by their identity alone. -/
def sameSubject : Node → Node → Bool
  | .occurrence left _ _, .occurrence right _ _ => left = right
  | .occurrence .., _ => false
  | _, .occurrence .. => false
  | left, right => left = right

def occurrence? : Node → Option IdentId
  | .occurrence id _ _ => some id
  | _ => none

end Node

structure Graph where
  /-- The nodes in the order of their creation. -/
  nodes : List Node
  /-- The edges from a definition to what it reaches, each one once. -/
  edges : List (NodeId × NodeId)

namespace Graph

def empty : Graph := ⟨[], []⟩

/-- The node of a subject, created when it is first asked for and left as it was created. -/
def intern (graph : Graph) (node : Node) : NodeId × Graph :=
  match graph.nodes.findIdx? (·.sameSubject node) with
  | some id => (id, graph)
  | none => (graph.nodes.length, { graph with nodes := graph.nodes ++ [node] })

/-- Add an edge unless it is there. -/
def connect (graph : Graph) (source target : NodeId) : Graph :=
  if (source, target) ∈ graph.edges then graph
  else { graph with edges := (source, target) :: graph.edges }

def node? (graph : Graph) (id : NodeId) : Option Node :=
  graph.nodes[id]?

/-- The node of an occurrence. -/
def nodeOf? (graph : Graph) (id : IdentId) : Option NodeId :=
  graph.nodes.findIdx? fun node => node.occurrence? = some id

/-- Does some definition reach the node? -/
def isReached (graph : Graph) (id : NodeId) : Bool :=
  graph.edges.any fun edge => edge.2 = id

/-- The sources of the edges to a node, in the order of their creation. -/
def sources (graph : Graph) (id : NodeId) : List NodeId :=
  ((graph.edges.filter fun edge => edge.2 = id).map Prod.fst).mergeSort (· ≤ ·)

/-- The targets of the edges from a node. -/
def targets (graph : Graph) (id : NodeId) : List NodeId :=
  (graph.edges.filter fun edge => edge.1 = id).map Prod.snd

/-- The definitions that reach an occurrence, in the order of their creation. -/
def reachingDefinitions (graph : Graph) (id : IdentId) : List Node :=
  match graph.nodeOf? id with
  | some node => (graph.sources node).filterMap graph.node?
  | none => []

/-- The occurrences that an occurrence reaches, by ascending identity. -/
def reachedOccurrences (graph : Graph) (id : IdentId) : List IdentId :=
  match graph.nodeOf? id with
  | some node =>
    ((graph.targets node).filterMap fun target => (graph.node? target).bind Node.occurrence?).mergeSort (· ≤ ·)
  | none => []

end Graph
end ArrayLift.DefUse
