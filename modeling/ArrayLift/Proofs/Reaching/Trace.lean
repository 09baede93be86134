import ArrayLift.Proofs.Walk.View
import Mathlib.Computability.Language

/-! Traces of a program: one way through its statements, as a list of what happens to definitions on it.
A trace says which definitions are live behind it and which of them reach the occurrences on it. -/
namespace ArrayLift

open DefUse
open scoped Computability

inductive Event where
  | use (node : Node)
  /-- A new value for a name. The pinned definitions of the name stay beside it. -/
  | define (node : Node) (pinned : List Node)
  | update (node : Node)
  | declare (node binding : Node)
  /-- What happens here is forgotten behind it. -/
  | aside (inner : List Event)

abbrev Trace := List Event

/-- The definitions live behind an event. -/
def Event.after : Event → Set Node → Set Node
  | .use _, live | .aside _, live => live
  | .define node pinned, live => {definition | definition = node ∨
      (definition.name = node.name ∧ definition ∈ pinned) ∨ (definition ∈ live ∧ definition.name ≠ node.name)}
  | .update node, live => insert node live
  | .declare node binding, live => {definition | definition = binding ∨
      (definition ∈ live ∧ definition.name ≠ node.name)}

/-- The definitions live behind a trace. -/
def Trace.after : Trace → Set Node → Set Node
  | [], live => live
  | event :: rest, live => Trace.after rest (event.after live)

/-- The live definitions of the name of an occurrence reach it. -/
def DefUse.Node.reached (node : Node) (live : Set Node) : Set (Node × Node) :=
  {edge | edge.2 = node ∧ edge.1 ∈ live ∧ edge.1.name = node.name}

mutual
/-- Which definitions reach which occurrences at an event. -/
def Event.links : Event → Set Node → Set (Node × Node)
  | .use node, live | .update node, live => node.reached live
  | .define .., _ => ∅
  | .declare node binding, _ => {(binding, node)}
  | .aside inner, live => Trace.links inner live

/-- Which definitions reach which occurrences on a trace. -/
def Trace.links : List Event → Set Node → Set (Node × Node)
  | [], _ => ∅
  | event :: rest, live => event.links live ∪ Trace.links rest (event.after live)
end

/-- The event at a step, with the definitions that are pinned there. -/
def Step.event? (scope : ScopeId) (pinned : List Node) : Step → Option Event
  | .use id name .. => some (.use (.occurrence id name .use))
  | .define id name _ kind =>
    if kind = .partialDefinition then some (.update (.occurrence id name kind))
    else some (.define (.occurrence id name kind) pinned)
  | .declare declaration id name _ =>
    some (.declare (.occurrence id name .declaration) (.binding declaration scope name))
  | .checkArity .. => none

namespace Route

/-- The definitions behind the declarations of a scope on a route. -/
def bindings (scope : ScopeId) : Route → List Node
  | .step (.declare declaration _ name _) => [.binding declaration scope name]
  | .stay | .step _ | .jump _ | .function .. => []
  | .seq first second | .fork first second | .ensure first second | .finish first second =>
    bindings scope first ++ bindings scope second
  | .attempt body | .loop body | .aside body => bindings scope body

/-- The traces of a route: either branch, a body that may be skipped or left out, a loop any number of
times, and what is aside on a copy of its own. A declaration counts, for the definitions of its name, from
its place in the text on, and in the whole of every loop around it. -/
def traces (scope : ScopeId) : Route → List Node → Language Event
  | .stay, _ | .jump _, _ | .function .., _ => 1
  | .step action, pinned => {(action.event? scope pinned).toList}
  | .seq first second, pinned | .ensure first second, pinned | .finish first second, pinned =>
    traces scope first pinned * traces scope second (first.bindings scope ++ pinned)
  | .fork left right, pinned => traces scope left pinned + traces scope right (left.bindings scope ++ pinned)
  | .attempt body, pinned => 1 + traces scope body pinned
  | .loop body, pinned => (traces scope body (body.bindings scope ++ pinned))∗
  | .aside body, pinned => {trace | ∃ inner ∈ traces scope body pinned, trace = [.aside inner]}

end Route

/-- The script or a function: what has a scope of its own and starts with definitions of its own. -/
structure Region where
  scope : ScopeId
  start : List Node
  body : Route
  /-- Is it inside a loop? -/
  repeated : Bool

namespace Region

/-- The declarations that count from the start: all of them in a function that is walked again. -/
def pinned (region : Region) : List Node :=
  if region.repeated then region.body.bindings region.scope else []

/-- Some trace of the region leads from a definition to an occurrence. -/
def Reaches (region : Region) (pinned : List Node) (definition occurrence : Node) : Prop :=
  ∃ trace ∈ region.body.traces region.scope pinned,
    (definition, occurrence) ∈ Trace.links trace {node | node ∈ region.start}

end Region

/-- The functions on a route. The first one opens the scope `next`. -/
def Route.regions : Route → ScopeId → Bool → List Region
  | .stay, _, _ | .step _, _, _ | .jump _, _, _ => []
  | .seq first second, next, repeated | .fork first second, next, repeated | .ensure first second, next, repeated
  | .finish first second, next, repeated =>
    regions first next repeated ++ regions second (next + first.functionIds.length) repeated
  | .attempt body, next, repeated | .aside body, next, repeated => regions body next repeated
  | .loop body, next, _ => regions body next true
  | .function _ _ _ body, next, repeated =>
    ⟨next, implicitNodes next, body, repeated⟩ :: regions body (next + 1) repeated

/-- Whether a definition is live behind an event depends on it alone. -/
theorem Event.after_mono (event : Event) {live larger : Set Node} {definition : Node}
    (within : definition ∈ live → definition ∈ larger) (there : definition ∈ event.after live) :
    definition ∈ event.after larger := by
  cases event with
  | use node | aside inner => exact within there
  | define node pinned =>
    rcases there with same | beside | ⟨old, other⟩
    · exact .inl same
    · exact .inr (.inl beside)
    · exact .inr (.inr ⟨within old, other⟩)
  | update node =>
    rcases there with same | old
    · exact .inl same
    · exact .inr (within old)
  | declare node binding =>
    rcases there with same | ⟨old, other⟩
    · exact .inl same
    · exact .inr ⟨within old, other⟩

namespace Trace

variable {trace : Trace} {live larger : Set Node} {definition occurrence : Node}

theorem after_append (first second : Trace) (live : Set Node) :
    after (first ++ second) live = after second (after first live) := by
  induction first generalizing live with
  | nil => rfl
  | cons event rest ih => exact ih (event.after live)

theorem links_append (first second : Trace) (live : Set Node) :
    links (first ++ second) live = links first live ∪ links second (after first live) := by
  induction first generalizing live with
  | nil => simp [links, after]
  | cons event rest ih => simp only [List.cons_append, links, ih, after, Set.union_assoc]

theorem after_mono (within : definition ∈ live → definition ∈ larger)
    (there : definition ∈ after trace live) : definition ∈ after trace larger := by
  induction trace generalizing live larger with
  | nil => exact within there
  | cons event rest ih => exact ih (event.after_mono within) there

end Trace

mutual
theorem Event.links_mono {live larger : Set Node} {definition occurrence : Node}
    (within : definition ∈ live → definition ∈ larger) : ∀ event : Event,
    (definition, occurrence) ∈ event.links live → (definition, occurrence) ∈ event.links larger
  | .use _, ⟨same, old, named⟩ => ⟨same, within old, named⟩
  | .update _, ⟨same, old, named⟩ => ⟨same, within old, named⟩
  | .declare .., there => there
  | .aside inner, there => Trace.links_mono within inner there

theorem Trace.links_mono {live larger : Set Node} {definition occurrence : Node}
    (within : definition ∈ live → definition ∈ larger) : ∀ trace : List Event,
    (definition, occurrence) ∈ Trace.links trace live → (definition, occurrence) ∈ Trace.links trace larger
  | event :: _, .inl here => .inl (Event.links_mono within event here)
  | event :: rest, .inr later => .inr (Trace.links_mono (event.after_mono within) rest later)
end

/-- A route has a trace. -/
theorem Route.traces_nonempty (scope : ScopeId) (route : Route) :
    ∀ pinned : List Node, ∃ trace, trace ∈ route.traces scope pinned := by
  induction route with
  | stay | jump _ | function _ _ _ _ _ => exact fun pinned => ⟨[], rfl⟩
  | step action => exact fun pinned => ⟨_, rfl⟩
  | seq first second ihFirst ihSecond | ensure first second ihFirst ihSecond
  | finish first second ihFirst ihSecond =>
    intro pinned
    obtain ⟨one, inFirst⟩ := ihFirst pinned
    obtain ⟨other, inSecond⟩ := ihSecond (first.bindings scope ++ pinned)
    exact ⟨one ++ other, Language.append_mem_mul inFirst inSecond⟩
  | fork left right ihLeft ihRight =>
    intro pinned
    obtain ⟨one, inLeft⟩ := ihLeft pinned
    exact ⟨one, .inl inLeft⟩
  | attempt body ih => exact fun pinned => ⟨[], .inl rfl⟩
  | loop body ih => exact fun pinned => ⟨[], Language.nil_mem_kstar _⟩
  | aside body ih =>
    intro pinned
    obtain ⟨inner, member⟩ := ih pinned
    exact ⟨[.aside inner], inner, member, rfl⟩

end ArrayLift
