import ArrayLift.Proofs.Reaching.Covered

/-! Every event of a trace is that of a step on the route, with declarations that count there. What holds of the
events of all steps holds along every trace. -/
namespace ArrayLift

open DefUse
open scoped Computability

namespace Route

/-- The steps of a route in its own scope. -/
def steps : Route → List Step
  | .stay | .jump _ | .function .. => []
  | .step action => [action]
  | .seq first second | .fork first second | .ensure first second | .finish first second => steps first ++ steps second
  | .attempt body | .loop body | .aside body => steps body

theorem place_of_step {route : Route} {action : Step} (member : action ∈ route.steps) (scope next : ScopeId) :
    (scope, action) ∈ route.places scope next := by
  induction route generalizing next with
  | stay | jump _ | function _ _ _ _ _ => cases member
  | step own =>
    obtain rfl := List.mem_singleton.mp member
    exact List.mem_singleton_self _
  | seq first second ihFirst ihSecond | fork first second ihFirst ihSecond | ensure first second ihFirst ihSecond
  | finish first second ihFirst ihSecond =>
    rcases List.mem_append.mp member with inFirst | inSecond
    · exact List.mem_append_left _ (ihFirst inFirst next)
    · exact List.mem_append_right _ (ihSecond inSecond _)
  | attempt body ih | loop body ih | aside body ih => exact ih member next

/-- The steps of a function on a route are steps on the route. -/
theorem places_region {route : Route} {scope next : ScopeId} {repeated : Bool} {region : Region}
    (member : region ∈ route.regions next repeated) :
    region.body.places region.scope (region.scope + 1) ⊆ route.places scope next := by
  induction route generalizing scope next repeated with
  | stay | step _ | jump _ => cases member
  | seq first second ihFirst ihSecond | fork first second ihFirst ihSecond | ensure first second ihFirst ihSecond
  | finish first second ihFirst ihSecond =>
    rcases List.mem_append.mp member with inFirst | inSecond
    · exact List.subset_append_of_subset_left _ (ihFirst inFirst)
    · exact List.subset_append_of_subset_right _ (ihSecond inSecond)
  | attempt body ih | loop body ih | aside body ih => exact ih member
  | function id name line body ih =>
    rcases List.mem_cons.mp member with rfl | inner
    · exact List.Subset.refl _
    · exact ih inner

/-- A step stands on the route itself or in one of its functions. -/
theorem region_of_place {route : Route} {scope next : ScopeId} (repeated : Bool) {place : ScopeId × Step}
    (member : place ∈ route.places scope next) :
    (place.1 = scope ∧ place.2 ∈ route.steps) ∨
      ∃ region ∈ route.regions next repeated, region.scope = place.1 ∧ place.2 ∈ region.body.steps := by
  induction route generalizing scope next repeated with
  | stay | jump _ => cases member
  | step action =>
    obtain rfl := List.mem_singleton.mp member
    exact .inl ⟨rfl, List.mem_singleton_self _⟩
  | seq first second ihFirst ihSecond | fork first second ihFirst ihSecond | ensure first second ihFirst ihSecond
  | finish first second ihFirst ihSecond =>
    rcases List.mem_append.mp member with inFirst | inSecond
    · exact (ihFirst repeated inFirst).imp (And.imp_right (List.mem_append_left _))
        (Exists.imp fun _ => And.imp_left (List.mem_append_left _))
    · exact (ihSecond repeated inSecond).imp (And.imp_right (List.mem_append_right _))
        (Exists.imp fun _ => And.imp_left (List.mem_append_right _))
  | attempt body ih | aside body ih => exact ih repeated member
  | loop body ih => exact ih true member
  | function id name line body ih =>
    rcases ih repeated member with ⟨same, own⟩ | ⟨region, nested, found⟩
    · exact .inr ⟨_, List.mem_cons_self, same.symm, own⟩
    · exact .inr ⟨region, List.mem_cons_of_mem _ nested, found⟩

theorem mem_bindings {route : Route} {scope : ScopeId} {node : Node} :
    node ∈ route.bindings scope ↔ ∃ declaration id name line,
      .declare declaration id name line ∈ route.steps ∧ node = .binding declaration scope name := by
  induction route with
  | stay | jump _ | function _ _ _ _ _ => simp [bindings, steps]
  | step action =>
    cases action with
    | use | define | checkArity => simp [bindings, steps]
    | declare declaration id name line =>
      simp only [bindings, steps, List.mem_singleton, Step.declare.injEq]
      constructor
      · rintro rfl
        exact ⟨_, _, _, _, ⟨rfl, rfl, rfl, rfl⟩, rfl⟩
      · rintro ⟨_, _, _, _, ⟨rfl, rfl, rfl, rfl⟩, rfl⟩
        rfl
  | seq first second ihFirst ihSecond | fork first second ihFirst ihSecond | ensure first second ihFirst ihSecond
  | finish first second ihFirst ihSecond =>
    simp only [bindings, steps, List.mem_append, ihFirst, ihSecond, or_and_right, exists_or]
  | attempt body ih | loop body ih | aside body ih => exact ih

end Route

mutual
/-- The property holds of the event and of everything aside at it. -/
def Event.All (holds : Event → Prop) : Event → Prop
  | .aside inner => Trace.All holds inner
  | .use node => holds (.use node)
  | .define node pinned => holds (.define node pinned)
  | .update node => holds (.update node)
  | .declare node binding => holds (.declare node binding)

def Trace.All (holds : Event → Prop) : List Event → Prop
  | [] => True
  | event :: rest => event.All holds ∧ Trace.All holds rest
end

namespace Trace

variable {holds : Event → Prop} {one other : Trace}

theorem All.append (start : All holds one) (behind : All holds other) : All holds (one ++ other) := by
  induction one with
  | nil => exact behind
  | cons event rest ih => exact ⟨start.1, ih start.2⟩

theorem All.left (all : All holds (one ++ other)) : All holds one := by
  induction one with
  | nil => trivial
  | cons event rest ih => exact ⟨all.1, ih all.2⟩

theorem All.right (all : All holds (one ++ other)) : All holds other := by
  induction one with
  | nil => exact all
  | cons event rest ih => exact ih all.2

theorem All.flatten {traces : List Trace} (each : ∀ trace ∈ traces, All holds trace) :
    All holds traces.flatten := by
  induction traces with
  | nil => trivial
  | cons trace rest ih =>
    exact (each trace (by simp)).append (ih fun other member => each other (by simp [member]))

end Trace

theorem Step.all_event {holds : Event → Prop} (action : Step) {scope : ScopeId} {listed : List Node}
    (each : ∀ event ∈ action.event? scope listed, holds event) :
    Trace.All holds (action.event? scope listed).toList := by
  cases action with
  | checkArity => trivial
  | use | declare => exact ⟨each _ rfl, trivial⟩
  | define id name line kind =>
    by_cases part : kind = .partialDefinition
    · simp only [event?, part, if_true] at each ⊢
      exact ⟨each _ rfl, trivial⟩
    · simp only [event?, part, if_false] at each ⊢
      exact ⟨each _ rfl, trivial⟩

/-- The property holds of the events at the steps of a route. At each of them those declarations count that count at
the start, and some of the route. -/
def Route.Meets (holds : Event → Prop) (scope : ScopeId) (route : Route) (pinned : List Node) : Prop :=
  ∀ action ∈ route.steps, ∀ listed, pinned ⊆ listed → listed ⊆ route.bindings scope ++ pinned →
    ∀ event ∈ action.event? scope listed, holds event

/-- A part of the route, behind a start at which more declarations of the route count. -/
theorem Route.Meets.part {holds : Event → Prop} {scope : ScopeId} {part route : Route} {pinned later : List Node}
    (meets : route.Meets holds scope pinned) (steps : part.steps ⊆ route.steps) (more : pinned ⊆ later)
    (within : part.bindings scope ++ later ⊆ route.bindings scope ++ pinned) : part.Meets holds scope later :=
  fun action own listed counted some =>
    meets action (steps own) listed (List.Subset.trans more counted) (List.Subset.trans some within)

/-- The events along a trace come from the steps on its route. -/
theorem Route.all_events {holds : Event → Prop} {scope : ScopeId} (route : Route) :
    ∀ {pinned : List Node} {trace : Trace}, route.Meets holds scope pinned → trace ∈ route.traces scope pinned →
      Trace.All holds trace := by
  induction route with
  | stay | jump _ | function _ _ _ _ _ =>
    intro pinned trace meets member
    obtain rfl := Set.mem_singleton_iff.mp member
    trivial
  | step action =>
    intro pinned trace meets member
    obtain rfl := Set.mem_singleton_iff.mp member
    exact action.all_event (meets action (List.mem_singleton_self _) pinned (List.Subset.refl _)
      (List.subset_append_right _ _))
  | seq first second ihFirst ihSecond | ensure first second ihFirst ihSecond
  | finish first second ihFirst ihSecond =>
    intro pinned trace meets member
    obtain ⟨one, inFirst, other, inSecond, rfl⟩ := Language.mem_mul.mp member
    have start : first.Meets holds scope pinned :=
      meets.part (List.subset_append_left _ _) (List.Subset.refl _) fun node there => by
        simp only [bindings, List.mem_append] at there ⊢
        grind
    have behind : second.Meets holds scope (first.bindings scope ++ pinned) :=
      meets.part (List.subset_append_right _ _) (List.subset_append_right _ _) fun node there => by
        simp only [bindings, List.mem_append] at there ⊢
        grind
    exact (ihFirst start inFirst).append (ihSecond behind inSecond)
  | fork left right ihLeft ihRight =>
    intro pinned trace meets member
    rcases member with inLeft | inRight
    · refine ihLeft (meets.part (List.subset_append_left _ _) (List.Subset.refl _) fun node there => ?_) inLeft
      simp only [bindings, List.mem_append] at there ⊢
      grind
    · refine ihRight (meets.part (List.subset_append_right _ _) (List.subset_append_right _ _)
        fun node there => ?_) inRight
      simp only [bindings, List.mem_append] at there ⊢
      grind
  | attempt body ih =>
    intro pinned trace meets member
    rcases member with none | inBody
    · obtain rfl := Set.mem_singleton_iff.mp none
      trivial
    · exact ih meets inBody
  | loop body ih =>
    intro pinned trace meets member
    obtain ⟨passes, rfl, inside⟩ := Language.mem_kstar.mp member
    have pass : body.Meets holds scope (body.bindings scope ++ pinned) :=
      meets.part (List.Subset.refl _) (List.subset_append_right _ _)
        (List.append_subset.mpr ⟨List.subset_append_left _ _, List.Subset.refl _⟩)
    exact Trace.All.flatten fun trace there => ih pass (inside trace there)
  | aside body ih =>
    intro pinned trace meets member
    obtain ⟨inner, inBody, rfl⟩ := member
    exact ⟨ih meets inBody, trivial⟩

end ArrayLift
