import ArrayLift.Proofs.Isolation.Passage
import ArrayLift.Proofs.Reaching.Names

/-! The traces of a route that is moved up, to other identities and other scopes, are the traces of the route,
moved up. So are its definitions, its edges and the uses that are reached on it. -/
namespace ArrayLift

open DefUse
open scoped Computability

/-- How far identities and scopes are moved up. -/
structure Shift where
  ids : Nat
  scopes : Nat

namespace Shift

variable (shift : Shift)

def node : Node → Node
  | .occurrence id name kind => .occurrence (id + shift.ids) name kind
  | .implicit scope name => .implicit (scope + shift.scopes) name
  | .global name => .global name
  | .persistent scope name => .persistent (scope + shift.scopes) name

def edge (edge : Node × Node) : Node × Node :=
  (shift.node edge.1, shift.node edge.2)

@[simp] theorem name_node (node : Node) : (shift.node node).name = node.name := by
  cases node <;> rfl

@[simp] theorem isBinding_node (node : Node) : (shift.node node).isBinding = node.isBinding := by
  cases node <;> rfl

theorem node_binding (declaration : Declaration) (scope : ScopeId) (name : String) :
    shift.node (.binding declaration scope name) = .binding declaration (scope + shift.scopes) name := by
  cases declaration <;> rfl

/-- Every function starts with the same definitions, in its own scope. -/
theorem implicitNodes_add (scope : ScopeId) :
    implicitNodes (scope + shift.scopes) = (implicitNodes scope).map shift.node := by
  simp only [implicitNodes, List.map_map]
  rfl

end Shift

/-! Traces. -/

section
variable (shift : Shift)

mutual
def Event.shifted : Event → Event
  | .use node => .use (shift.node node)
  | .define node pinned => .define (shift.node node) (pinned.map shift.node)
  | .update node => .update (shift.node node)
  | .declare node binding => .declare (shift.node node) (shift.node binding)
  | .aside inner => .aside (Trace.shifted inner)

def Trace.shifted : List Event → List Event
  | [] => []
  | event :: rest => event.shifted :: Trace.shifted rest
end

theorem Trace.shifted_eq_map (trace : Trace) : Trace.shifted shift trace = trace.map (Event.shifted shift) := by
  induction trace with
  | nil => rfl
  | cons event rest ih => exact congrArg (event.shifted shift :: ·) ih

theorem Event.after_shifted (event : Event) (live : Set Node) :
    (event.shifted shift).after (shift.node '' live) = shift.node '' event.after live := by
  cases event with
  | use | aside => rfl
  | update node => exact Set.image_insert_eq.symm
  | define node pinned =>
    ext definition
    constructor
    · rintro (rfl | ⟨named, met⟩ | ⟨⟨origin, old, rfl⟩, other⟩)
      · exact ⟨node, .inl rfl, rfl⟩
      · obtain ⟨pin, listed, rfl⟩ := List.mem_map.mp met
        simp only [Shift.name_node] at named
        exact ⟨pin, .inr (.inl ⟨named, listed⟩), rfl⟩
      · simp only [Shift.name_node] at other
        exact ⟨origin, .inr (.inr ⟨old, other⟩), rfl⟩
    · rintro ⟨origin, rfl | ⟨named, met⟩ | ⟨old, other⟩, rfl⟩
      · exact .inl rfl
      · exact .inr (.inl ⟨by simpa using named, List.mem_map_of_mem met⟩)
      · exact .inr (.inr ⟨⟨origin, old, rfl⟩, by simpa using other⟩)
  | declare node binding =>
    ext definition
    constructor
    · rintro (rfl | ⟨⟨origin, old, rfl⟩, other⟩)
      · exact ⟨binding, .inl rfl, rfl⟩
      · simp only [Shift.name_node] at other
        exact ⟨origin, .inr ⟨old, other⟩, rfl⟩
    · rintro ⟨origin, rfl | ⟨old, other⟩, rfl⟩
      · exact .inl rfl
      · exact .inr ⟨⟨origin, old, rfl⟩, by simpa using other⟩

theorem DefUse.Node.reached_shifted (node : Node) (live : Set Node) :
    (shift.node node).reached (shift.node '' live) = shift.edge '' node.reached live := by
  ext ⟨definition, occurrence⟩
  constructor
  · rintro ⟨rfl, ⟨origin, old, rfl⟩, named⟩
    exact ⟨(origin, node), ⟨rfl, old, by simpa using named⟩, rfl⟩
  · rintro ⟨⟨origin, target⟩, ⟨rfl, old, named⟩, same⟩
    obtain ⟨rfl, rfl⟩ := Prod.mk.inj same
    exact ⟨rfl, ⟨origin, old, rfl⟩, by simpa using named⟩

mutual
theorem Event.links_shifted : ∀ (event : Event) (live : Set Node),
    (event.shifted shift).links (shift.node '' live) = shift.edge '' event.links live
  | .use node, live | .update node, live => node.reached_shifted shift live
  | .define .., _ => Set.image_empty _ |>.symm
  | .declare node binding, _ => by simp only [Event.shifted, Event.links, Set.image_singleton, Shift.edge]
  | .aside inner, live => Trace.links_shifted inner live

/-- Along a trace that is moved up the same definitions reach the same occurrences. -/
theorem Trace.links_shifted : ∀ (trace : List Event) (live : Set Node),
    Trace.links (Trace.shifted shift trace) (shift.node '' live) = shift.edge '' Trace.links trace live
  | [], _ => Set.image_empty _ |>.symm
  | event :: rest, live => by
    simp only [Trace.shifted, Trace.links, Event.links_shifted event, event.after_shifted, Trace.links_shifted rest,
      Set.image_union]
end

theorem Step.event?_shifted (action : Step) (scope : ScopeId) (pinned : List Node) :
    (action.shifted shift.ids).event? (scope + shift.scopes) (pinned.map shift.node) =
      (action.event? scope pinned).map (Event.shifted shift) := by
  cases action with
  | use | checkArity => rfl
  | define id name line kind =>
    by_cases part : kind = .partialDefinition <;> simp [Step.shifted, Step.event?, part, Event.shifted, Shift.node]
  | declare declaration id name line =>
    simp only [Step.shifted, Step.event?, Option.map_some, Event.shifted, Shift.node_binding]
    rfl

namespace Route

theorem bindings_shifted (route : Route) (scope : ScopeId) :
    (route.shifted shift.ids).bindings (scope + shift.scopes) = (route.bindings scope).map shift.node := by
  induction route with
  | stay | jump _ | function _ _ _ _ _ => rfl
  | step action =>
    cases action with
    | use | define | checkArity => rfl
    | declare declaration id name line => exact congrArg (fun node => [node]) (shift.node_binding _ _ _).symm
  | seq first second ihFirst ihSecond | fork first second ihFirst ihSecond | ensure first second ihFirst ihSecond
  | finish first second ihFirst ihSecond => simp only [shifted, bindings, ihFirst, ihSecond, List.map_append]
  | attempt body ih | loop body ih | aside body ih => exact ih

/-- The traces of a route that is moved up. -/
theorem traces_shifted (route : Route) (scope : ScopeId) (pinned : List Node) :
    (route.shifted shift.ids).traces (scope + shift.scopes) (pinned.map shift.node) =
      Language.map (Event.shifted shift) (route.traces scope pinned) := by
  induction route generalizing pinned with
  | stay | jump _ | function _ _ _ _ _ => exact (map_one (Language.map (Event.shifted shift))).symm
  | step action =>
    simp only [shifted, traces, Step.event?_shifted]
    refine Eq.trans ?_ Set.image_singleton.symm
    cases action.event? scope pinned <;> rfl
  | seq first second ihFirst ihSecond | ensure first second ihFirst ihSecond
  | finish first second ihFirst ihSecond =>
    simp only [shifted, traces, bindings_shifted, ← List.map_append, ihFirst, ihSecond, map_mul]
  | fork left right ihLeft ihRight =>
    simp only [shifted, traces, bindings_shifted, ← List.map_append, ihLeft, ihRight, map_add]
  | attempt body ih => simp only [shifted, traces, ih, map_add, map_one]
  | loop body ih =>
    simp only [shifted, traces, bindings_shifted, ← List.map_append, ih, Language.map_kstar]
  | aside body ih =>
    simp only [shifted, traces, ih]
    ext trace
    constructor
    · rintro ⟨_, ⟨inner, member, rfl⟩, rfl⟩
      exact ⟨[.aside inner], ⟨inner, member, rfl⟩, by simp [Event.shifted, Trace.shifted_eq_map]⟩
    · rintro ⟨_, ⟨inner, member, rfl⟩, rfl⟩
      exact ⟨inner.map (Event.shifted shift), ⟨inner, member, rfl⟩, by simp [Event.shifted, Trace.shifted_eq_map]⟩

end Route

/-! Regions. -/

def Region.shifted (region : Region) : Region where
  scope := region.scope + shift.scopes
  start := region.start.map shift.node
  body := region.body.shifted shift.ids
  repeated := region.repeated

/-- What reaches what in a region that is moved up. -/
theorem Region.reaches_shifted (region : Region) :
    {edge : Node × Node | (region.shifted shift).Reaches [] edge.1 edge.2} =
      shift.edge '' {edge | region.Reaches [] edge.1 edge.2} := by
  have moved := region.body.traces_shifted shift region.scope []
  have start : {node | node ∈ (region.shifted shift).start} = shift.node '' {node | node ∈ region.start} := by
    ext node
    simp [shifted]
  ext edge
  constructor
  · rintro ⟨trace, member, linked⟩
    rw [start] at linked
    replace member : trace ∈ Language.map (Event.shifted shift) (region.body.traces region.scope []) := moved ▸ member
    obtain ⟨origin, inBody, rfl⟩ := member
    rw [← Trace.shifted_eq_map, Trace.links_shifted] at linked
    obtain ⟨pair, before, same⟩ := linked
    exact ⟨pair, ⟨origin, inBody, before⟩, same⟩
  · rintro ⟨pair, ⟨origin, inBody, before⟩, rfl⟩
    have member : Trace.shifted shift origin ∈ (region.shifted shift).body.traces (region.shifted shift).scope [] := by
      rw [Trace.shifted_eq_map]
      exact moved ▸ ⟨origin, inBody, rfl⟩
    refine ⟨_, member, ?_⟩
    rw [start]
    exact Trace.links_shifted shift origin _ ▸ ⟨pair, before, rfl⟩

namespace Route

theorem length_functionIds_shifted (distance : Nat) (route : Route) :
    (route.shifted distance).functionIds.length = route.functionIds.length := by
  induction route with
  | stay | step _ | jump _ => rfl
  | seq first second ihFirst ihSecond | fork first second ihFirst ihSecond | ensure first second ihFirst ihSecond
  | finish first second ihFirst ihSecond =>
    simp only [shifted, functionIds, List.length_append, ihFirst, ihSecond]
  | attempt body ih | loop body ih | aside body ih => exact ih
  | function id name line body ih => exact congrArg (· + 1) ih

theorem regions_shifted (route : Route) (next : ScopeId) (repeated : Bool) :
    (route.shifted shift.ids).regions (next + shift.scopes) repeated =
      (route.regions next repeated).map (Region.shifted shift) := by
  induction route generalizing next repeated with
  | stay | step _ | jump _ => rfl
  | seq first second ihFirst ihSecond | fork first second ihFirst ihSecond | ensure first second ihFirst ihSecond
  | finish first second ihFirst ihSecond =>
    have later := ihSecond (next + first.functionIds.length) repeated
    rw [Nat.add_right_comm] at later
    simp only [shifted, regions, length_functionIds_shifted, ihFirst, later, List.map_append]
  | attempt body ih | aside body ih => exact ih next repeated
  | loop body ih => exact ih next true
  | function id name line body ih =>
    have own := shift.implicitNodes_add next
    have inner := ih (next + 1) repeated
    rw [Nat.add_right_comm] at inner
    simp only [shifted, regions, List.map_cons, Region.shifted, own, inner]

theorem names_shifted (distance : Nat) (route : Route) : (route.shifted distance).names = route.names := by
  induction route with
  | stay | jump _ | aside _ _ | function _ _ _ _ _ => rfl
  | step action => cases action <;> rfl
  | seq first second ihFirst ihSecond | fork first second ihFirst ihSecond | ensure first second ihFirst ihSecond
  | finish first second ihFirst ihSecond => exact congrArg₂ (· ∪ ·) ihFirst ihSecond
  | attempt body ih | loop body ih => exact ih

theorem reads_shifted (distance : Nat) (route : Route) (id : IdentId) (name : String) (known : Set String) :
    (route.shifted distance).Reads (id + distance) name known ↔ route.Reads id name known := by
  induction route generalizing known with
  | stay | jump _ | function _ _ _ _ _ => exact Iff.rfl
  | step action =>
    cases action with
    | define | declare | checkArity => exact Iff.rfl
    | use own called line indexed arrayOnly => exact and_congr_left' Nat.add_right_cancel_iff
  | seq first second ihFirst ihSecond | ensure first second ihFirst ihSecond
  | finish first second ihFirst ihSecond => simp only [shifted, Reads, names_shifted, ihFirst, ihSecond]
  | fork left right ihLeft ihRight => simp only [shifted, Reads, ihLeft, ihRight]
  | attempt body ih | aside body ih => exact ih known
  | loop body ih => simp only [shifted, Reads, names_shifted, ih]

/-- The occurrences of a route that is moved up, apart from their scopes. -/
theorem nodes_shifted (route : Route) (scope other next start : ScopeId) :
    ((route.shifted shift.ids).occurrences scope next).map Occurrence.node =
      (route.occurrences other start).map fun occurrence => shift.node occurrence.node := by
  induction route generalizing scope other next start with
  | stay | jump _ => rfl
  | step action => cases action <;> rfl
  | seq first second ihFirst ihSecond | fork first second ihFirst ihSecond | ensure first second ihFirst ihSecond
  | finish first second ihFirst ihSecond =>
    simp only [shifted, occurrences, List.map_append]
    exact congrArg₂ (· ++ ·) (ihFirst scope other next start) (ihSecond scope other _ _)
  | attempt body ih | loop body ih | aside body ih => exact ih scope other next start
  | function id name line body ih =>
    simp only [shifted, occurrences, List.map_append]
    refine congrArg₂ (· ++ ·) ?_ (ih next start (next + 1) (start + 1))
    cases id <;> rfl

end Route

theorem Region.names_shifted (region : Region) : (region.shifted shift).names = region.names := by
  ext name
  simp [names, shifted]

end
end ArrayLift
