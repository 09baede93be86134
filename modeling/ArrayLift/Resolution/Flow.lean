import ArrayLift.Resolution.DefUse

/-! The definitions that may reach a point of a program, as a set of facts about names. -/
namespace ArrayLift

/-- A definition that may be the last one of a name. -/
structure Fact where
  name : String
  node : DefUse.NodeId
  deriving DecidableEq, Repr

/-- A finite set of facts. -/
structure Flow where
  facts : List Fact

namespace Flow

def empty : Flow := ⟨[]⟩

def contains (flow : Flow) (fact : Fact) : Bool :=
  flow.facts.contains fact

/-- The definitions of a name. -/
def definitions (flow : Flow) (name : String) : List DefUse.NodeId :=
  (flow.facts.filter fun fact => fact.name = name).map Fact.node

def insert (flow : Flow) (fact : Fact) : Flow :=
  if flow.contains fact then flow else ⟨fact :: flow.facts⟩

/-- Everything that holds in one of both. -/
def merge (left right : Flow) : Flow :=
  right.facts.foldl insert left

/-- Forget the definitions of a name and put others in their place. -/
def redefine (flow : Flow) (name : String) (nodes : List DefUse.NodeId) : Flow :=
  nodes.foldl (fun flow node => flow.insert ⟨name, node⟩)
    ⟨flow.facts.filter fun fact => fact.name ≠ name⟩

/-- Do both hold the same facts? -/
def same (left right : Flow) : Bool :=
  left.facts.all right.contains && right.facts.all left.contains

end Flow
end ArrayLift
