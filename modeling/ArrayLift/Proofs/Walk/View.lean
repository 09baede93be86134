import ArrayLift.Proofs.Walk.Census
import Mathlib.Data.Set.Insert

/-! What a point of a walk says, free of the numbers of graph nodes: the definitions that may reach it,
the edges, and the declarations that are in force. Following a route on views is the reaching definition
analysis as a function of sets. -/
namespace ArrayLift

namespace DefUse.Node

/-- Does the node stand behind declarations of a name? -/
def isBinding : Node → Bool
  | .global _ | .persistent .. => true
  | .occurrence .. | .implicit .. => false

/-- The definition behind the declarations of a name in a scope. -/
def binding (declaration : Declaration) (scope : ScopeId) (name : String) : Node :=
  match declaration with
  | .global => .global name
  | .persistent => .persistent scope name

def declaration? : Node → Option Declaration
  | .global _ => some .global
  | .persistent .. => some .persistent
  | .occurrence .. | .implicit .. => none

@[simp] theorem name_occurrence (id : IdentId) (name : String) (kind : OccurrenceKind) :
    (Node.occurrence id name kind).name = name := rfl

@[simp] theorem name_implicit (scope : ScopeId) (name : String) : (Node.implicit scope name).name = name := rfl

@[simp] theorem name_binding (declaration : Declaration) (scope : ScopeId) (name : String) :
    (binding declaration scope name).name = name := by
  cases declaration <;> rfl

@[simp] theorem isBinding_binding (declaration : Declaration) (scope : ScopeId) (name : String) :
    (binding declaration scope name).isBinding = true := by
  cases declaration <;> rfl

@[simp] theorem isBinding_occurrence (id : IdentId) (name : String) (kind : OccurrenceKind) :
    (Node.occurrence id name kind).isBinding = false := rfl

@[simp] theorem declaration?_binding (declaration : Declaration) (scope : ScopeId) (name : String) :
    (binding declaration scope name).declaration? = some declaration := by
  cases declaration <;> rfl

theorem occurrence?_of_isBinding {node : Node} (binding : node.isBinding = true) :
    node.occurrence? = none := by
  cases node with
  | global | persistent | implicit => rfl
  | occurrence => cases binding

/-- Only occurrences can be one subject without being one node. -/
theorem eq_of_sameSubject {left right : Node} (same : left.sameSubject right = true)
    (other : right.occurrence? = none) : left = right := by
  cases left <;> cases right <;> simp_all [sameSubject, occurrence?]

end DefUse.Node

open DefUse

structure View where
  /-- The definitions that may be the last ones of their names. -/
  live : Set Node
  edges : Set (Node × Node)
  /-- The declaration that was met last for a name in a scope. -/
  pins : ScopeId → String → Option Declaration

namespace View

def withLive (view : View) (live : Set Node) : View :=
  { view with live }

/-- The definition that a declaration keeps beside every further one of the name. -/
def Pinned (view : View) (scope : ScopeId) (node : Node) : Prop :=
  ∃ declaration, view.pins scope node.name = some declaration ∧ node = .binding declaration scope node.name

/-- Every live definition of the name of a node gets an edge to it. -/
def read (view : View) (node : Node) : View :=
  { view with edges := view.edges ∪ {edge | edge.2 = node ∧ edge.1 ∈ view.live ∧ edge.1.name = node.name} }

def define (view : View) (scope : ScopeId) (node : Node) : View :=
  view.withLive {definition | definition = node ∨ (definition.name = node.name ∧ view.Pinned scope definition) ∨
    (definition ∈ view.live ∧ definition.name ≠ node.name)}

def update (view : View) (node : Node) : View :=
  (view.read node).withLive (insert node view.live)

def declare (view : View) (scope : ScopeId) (declaration : Declaration) (node : Node) : View :=
  { live := {definition | definition = .binding declaration scope node.name ∨
      (definition ∈ view.live ∧ definition.name ≠ node.name)}
    edges := insert (.binding declaration scope node.name, node) view.edges
    pins := fun other name => if other = scope ∧ name = node.name then some declaration else view.pins other name }

open Classical in
/-- Repeat a body until the live definitions at its start stay the same. -/
noncomputable def settle (body : View → View) (entry : Set Node) : Nat → View → View
  | 0, view => view
  | passes + 1, view =>
    let seen := body view
    if entry ∪ seen.live = view.live then seen.withLive view.live
    else settle body entry passes (seen.withLive (entry ∪ seen.live))

@[simp] theorem withLive_live (view : View) (live : Set Node) : (view.withLive live).live = live := rfl
@[simp] theorem withLive_edges (view : View) (live : Set Node) : (view.withLive live).edges = view.edges := rfl
@[simp] theorem withLive_pins (view : View) (live : Set Node) : (view.withLive live).pins = view.pins := rfl
@[simp] theorem read_live (view : View) (node : Node) : (view.read node).live = view.live := rfl
@[simp] theorem read_pins (view : View) (node : Node) : (view.read node).pins = view.pins := rfl
@[simp] theorem define_edges (view : View) (scope : ScopeId) (node : Node) :
    (view.define scope node).edges = view.edges := rfl
@[simp] theorem define_pins (view : View) (scope : ScopeId) (node : Node) :
    (view.define scope node).pins = view.pins := rfl
@[simp] theorem update_live (view : View) (node : Node) : (view.update node).live = insert node view.live := rfl
@[simp] theorem update_edges (view : View) (node : Node) : (view.update node).edges = (view.read node).edges := rfl
@[simp] theorem update_pins (view : View) (node : Node) : (view.update node).pins = view.pins := rfl

end View

/-- The definitions that every function starts with. -/
def implicitNodes (scope : ScopeId) : List Node :=
  LibraryName.implicitBindings.map fun binding => .implicit scope binding.spelling

/-- A step on a view. -/
def Step.see (scope : ScopeId) (view : View) : Step → View
  | .use id name _ _ _ => view.read (.occurrence id name .use)
  | .define id name _ kind =>
    if kind = .partialDefinition then view.update (.occurrence id name kind)
    else view.define scope (.occurrence id name kind)
  | .declare declaration id name _ => view.declare scope declaration (.occurrence id name .declaration)
  | .checkArity .. => view

/-- Follow a route on views. The first function on it opens the scope `next`. -/
noncomputable def Route.see (limit : Nat) : Route → ScopeId → ScopeId → View → View
  | .stay, _, _, view | .jump _, _, _, view => view
  | .step action, scope, _, view => action.see scope view
  | .seq first second, scope, next, view | .ensure first second, scope, next, view
  | .finish first second, scope, next, view =>
    see limit second scope (next + first.functionIds.length) (see limit first scope next view)
  | .fork left right, scope, next, view =>
    let leftEnd := see limit left scope next view
    let rightEnd := see limit right scope (next + left.functionIds.length) (leftEnd.withLive view.live)
    rightEnd.withLive (leftEnd.live ∪ rightEnd.live)
  | .attempt body, scope, next, view =>
    let bodyEnd := see limit body scope next view
    bodyEnd.withLive (view.live ∪ bodyEnd.live)
  | .loop body, scope, next, view => View.settle (see limit body scope next) view.live limit view
  | .aside body, scope, next, view => (see limit body scope next view).withLive view.live
  | .function _ _ _ body, _, next, view =>
    (see limit body next (next + 1) (view.withLive {node | node ∈ implicitNodes next})).withLive view.live

end ArrayLift
