import ArrayLift.Proofs.Reaching.Trace
import ArrayLift.Proofs.Walk.Transfer

/-! Which declarations are in force behind a route: those of its scope that stand on it, and in the scopes
of its functions those that stand there. -/
namespace ArrayLift

open DefUse

namespace Route

variable {route : Route} {scope next : Nat} {repeated : Bool} {limit : Nat}

/-- What a transfer declares stands on the route. -/
theorem mem_bindings_of_declares {node : Node} (declares : (route.transfer scope).Declares scope node) :
    node ∈ route.bindings scope := by
  obtain ⟨declaration, met, same⟩ := declares
  induction route with
  | stay | jump _ | aside _ _ | function _ _ _ _ _ => cases met
  | step action =>
    cases action with
    | use | checkArity => cases met
    | define id name line kind =>
      by_cases part : kind = .partialDefinition <;> simp [transfer, Step.transfer, part, Transfer.idle] at met
    | declare found id name line =>
      simp only [transfer, Step.transfer, Option.ite_none_right_eq_some, Option.some.injEq] at met
      obtain ⟨called, rfl⟩ := met
      rw [called] at same
      simpa [bindings] using same
  | seq first second ihFirst ihSecond | fork first second ihFirst ihSecond | ensure first second ihFirst ihSecond
  | finish first second ihFirst ihSecond =>
    rcases Option.or_eq_some_iff.mp met with last | ⟨_, before⟩
    · exact List.mem_append_right _ (ihSecond last)
    · exact List.mem_append_left _ (ihFirst before)
  | attempt body ih | loop body ih => exact ih met

theorem isBinding_of_mem {node : Node} (member : node ∈ route.bindings scope) : node.isBinding = true := by
  induction route with
  | stay | jump _ | function _ _ _ _ _ => cases member
  | step action =>
    cases action with
    | use | define | checkArity => cases member
    | declare declaration id name line =>
      rw [List.mem_singleton.mp member, Node.isBinding_binding]
  | seq first second ihFirst ihSecond | fork first second ihFirst ihSecond | ensure first second ihFirst ihSecond
  | finish first second ihFirst ihSecond =>
    rcases List.mem_append.mp member with inFirst | inSecond
    · exact ihFirst inFirst
    · exact ihSecond inSecond
  | attempt body ih | loop body ih | aside body ih => exact ih member

theorem isBinding_of_pinned {view : View} {node : Node} (pinned : view.Pinned scope node) :
    node.isBinding = true := by
  obtain ⟨declaration, _, same⟩ := pinned
  rw [same, Node.isBinding_binding]

/-- A definition that stands on a route, declared or its own. -/
def Places (route : Route) (scope : ScopeId) (node : Node) : Prop :=
  node ∈ route.bindings scope ∨ ∃ id ∈ route.definitions, node.occurrence? = some id

theorem Places.left {first second : Route} {node : Node} (places : first.Places scope node) :
    (Route.seq first second).Places scope node := by
  apply places.imp (List.mem_append_left _)
  intro found
  obtain ⟨id, own, same⟩ := found
  exact ⟨id, List.mem_append_left _ own, same⟩

theorem Places.right {first second : Route} {node : Node} (places : second.Places scope node) :
    (Route.seq first second).Places scope node := by
  apply places.imp (List.mem_append_right _)
  intro found
  obtain ⟨id, own, same⟩ := found
  exact ⟨id, List.mem_append_right _ own, same⟩

/-- What a route makes live stands on it. -/
theorem places_of_made {node : Node} (made : node ∈ (route.transfer scope).made) :
    route.Places scope node := by
  induction route with
  | stay | jump _ | aside _ _ | function _ _ _ _ _ => exact made.elim
  | step action =>
    cases action with
    | use | checkArity => exact made.elim
    | declare declaration id name line => exact .inl (List.mem_singleton.mpr made)
    | define id name line kind =>
      have same : node = .occurrence id name kind := by
        by_cases part : kind = .partialDefinition <;> simpa [transfer, Step.transfer, part] using made
      exact .inr ⟨id, List.mem_singleton_self id, congrArg Node.occurrence? same⟩
  | seq first second ihFirst ihSecond | ensure first second ihFirst ihSecond
  | finish first second ihFirst ihSecond =>
    rcases made with last | ⟨_, declares⟩ | ⟨before, _⟩
    · exact (ihSecond last).right
    · exact .inl (List.mem_append_left _ (mem_bindings_of_declares declares))
    · exact (ihFirst before).left
  | fork left right ihLeft ihRight =>
    rcases made with one | other | ⟨_, declares⟩
    · exact (ihLeft one).left
    · exact (ihRight other).right
    · exact .inl (List.mem_append_left _ (mem_bindings_of_declares declares))
  | attempt body ih =>
    rcases made with one | none | ⟨none, _⟩
    · exact ih one
    · exact none.elim
    · exact none.elim
  | loop body ih => exact ih made

/-- What is pinned behind a route was pinned before or stands on it. -/
theorem pinned_see (enough : 3 ≤ limit) (tidy : route.Tidy) (inside : scope < next) (view : View)
    {node : Node} (pinned : (route.see limit scope next view).Pinned scope node) :
    node ∈ route.bindings scope ∨ view.Pinned scope node := by
  rcases ((route.describes enough tidy inside).pinned view node).mp pinned with declares | ⟨_, before⟩
  · exact .inl (mem_bindings_of_declares declares)
  · exact .inr before

/-- The functions on a route have the scopes from `next` on. -/
theorem region_scope {region : Region} (member : region ∈ route.regions next repeated) :
    next ≤ region.scope ∧ next + route.functionIds.length > region.scope := by
  induction route generalizing next repeated with
  | stay | step _ | jump _ => cases member
  | seq first second ihFirst ihSecond | fork first second ihFirst ihSecond | ensure first second ihFirst ihSecond
  | finish first second ihFirst ihSecond =>
    simp only [functionIds, List.length_append]
    rcases List.mem_append.mp member with inFirst | inSecond
    · have within := ihFirst inFirst
      exact ⟨within.1, by omega⟩
    · have within := ihSecond inSecond
      exact ⟨by omega, by omega⟩
  | attempt body ih | loop body ih | aside body ih => exact ih member
  | function id name line body ih =>
    simp only [functionIds, List.length_cons]
    rcases List.mem_cons.mp member with rfl | inner
    · exact ⟨Nat.le_refl next, show next + (body.functionIds.length + 1) > next by omega⟩
    · have within := ih inner
      exact ⟨by omega, by omega⟩

/-- A function starts with the definitions that every function has. -/
theorem region_start {region : Region} (member : region ∈ route.regions next repeated) :
    region.start = implicitNodes region.scope := by
  induction route generalizing next repeated with
  | stay | step _ | jump _ => cases member
  | seq first second ihFirst ihSecond | fork first second ihFirst ihSecond | ensure first second ihFirst ihSecond
  | finish first second ihFirst ihSecond =>
    rcases List.mem_append.mp member with inFirst | inSecond
    · exact ihFirst inFirst
    · exact ihSecond inSecond
  | attempt body ih | loop body ih | aside body ih => exact ih member
  | function id name line body ih =>
    rcases List.mem_cons.mp member with rfl | inner
    · rfl
    · exact ih inner

/-- What is inside a loop is walked again. -/
theorem region_repeated {region : Region} (member : region ∈ route.regions next true) :
    region.repeated = true := by
  induction route generalizing next with
  | stay | step _ | jump _ => cases member
  | seq first second ihFirst ihSecond | fork first second ihFirst ihSecond | ensure first second ihFirst ihSecond
  | finish first second ihFirst ihSecond =>
    rcases List.mem_append.mp member with inFirst | inSecond
    · exact ihFirst inFirst
    · exact ihSecond inSecond
  | attempt body ih | loop body ih | aside body ih => exact ih member
  | function id name line body ih =>
    rcases List.mem_cons.mp member with rfl | inner
    · rfl
    · exact ih inner

/-- Behind another route, nothing has changed in the scope of a function that is not on it. -/
theorem pinned_apart (enough : 3 ≤ limit) (tidy : route.Tidy) (inside : scope < next) {other : Nat}
    (differ : other ≠ scope) (outside : other < next ∨ next + route.functionIds.length ≤ other) {view : View}
    {node : Node} : (route.see limit scope next view).Pinned other node ↔ view.Pinned other node := by
  simp only [View.Pinned, (route.describes enough tidy inside).others view other differ outside]

/-- What is pinned in a function on a route was pinned before or stands in the function. -/
theorem pinned_region (enough : 3 ≤ limit) (tidy : route.Tidy) (inside : scope < next) {region : Region}
    (member : region ∈ route.regions next repeated) (view : View) {node : Node}
    (pinned : (route.see limit scope next view).Pinned region.scope node) :
    node ∈ region.body.bindings region.scope ∨ view.Pinned region.scope node := by
  induction route generalizing scope next repeated view with
  | stay | step _ | jump _ => cases member
  | seq first second ihFirst ihSecond | ensure first second ihFirst ihSecond | finish first second ihFirst ihSecond
  | fork first second ihFirst ihSecond =>
    have later : scope < next + first.functionIds.length := Nat.lt_add_right _ inside
    rcases List.mem_append.mp member with inFirst | inSecond
    · have within := region_scope inFirst
      have before := (pinned_apart enough tidy.2 later (by omega) (by omega)).mp pinned
      exact ihFirst tidy.1 inside inFirst view before
    · have within := region_scope inSecond
      rcases ihSecond tidy.2 later inSecond _ pinned with own | before
      · exact .inl own
      · exact .inr ((pinned_apart enough tidy.1 inside (by omega) (by omega)).mp before)
  | attempt body ih => exact ih tidy inside member view pinned
  | aside body ih => exact ih tidy.tidy inside member view pinned
  | loop body ih =>
    obtain ⟨final, settled, same⟩ := (body.describes enough tidy inside).settled enough view
    simp only [see, same] at pinned
    have earlier {start : View} (passes : View.Passes (body.see limit scope next) view.live view start)
        (there : start.Pinned region.scope node) :
        node ∈ region.body.bindings region.scope ∨ view.Pinned region.scope node := by
      induction passes with
      | first => exact .inr there
      | again before passes =>
        rcases ih tidy inside member _ there with own | pinned
        · exact .inl own
        · exact passes pinned
    rcases ih tidy inside member final pinned with own | before
    · exact .inl own
    · exact earlier settled.passes before
  | function id name line body ih =>
    have within : body.Tidy := tidy
    let entry := view.withLive {node | node ∈ implicitNodes next}
    have entered : (body.see limit next (next + 1) entry).Pinned region.scope node := pinned
    rcases List.mem_cons.mp member with rfl | inner
    · exact pinned_see enough within (Nat.lt_succ_self next) entry entered
    · exact ih within (Nat.lt_succ_self next) inner entry entered

/-- A function on a route is walked from its own start, and the edges found in it stay. -/
theorem region_seen (enough : 3 ≤ limit) (tidy : route.Tidy) (inside : scope < next) {region : Region}
    (member : region ∈ route.regions next repeated) (view : View) : ∃ entry : View,
    entry.live = {node | node ∈ region.start} ∧ region.body.Tidy ∧
      (region.body.see limit region.scope (region.scope + 1) entry).edges ⊆
        (route.see limit scope next view).edges := by
  induction route generalizing scope next repeated view with
  | stay | step _ | jump _ => cases member
  | seq first second ihFirst ihSecond | ensure first second ihFirst ihSecond | finish first second ihFirst ihSecond
  | fork first second ihFirst ihSecond =>
    have later : scope < next + first.functionIds.length := Nat.lt_add_right _ inside
    rcases List.mem_append.mp member with inFirst | inSecond
    · obtain ⟨entry, start, own, edges⟩ := ihFirst tidy.1 inside inFirst view
      exact ⟨entry, start, own, fun _ there => (second.describes enough tidy.2 later).edges _ (edges there)⟩
    · exact ihSecond tidy.2 later inSecond _
  | attempt body ih => exact ih tidy inside member view
  | aside body ih => exact ih tidy.tidy inside member view
  | loop body ih =>
    obtain ⟨final, settled, same⟩ := (body.describes enough tidy inside).settled enough view
    simp only [see, same]
    exact ih tidy inside member final
  | function id name line body ih =>
    rcases List.mem_cons.mp member with rfl | inner
    · exact ⟨view.withLive {node | node ∈ implicitNodes next}, rfl, tidy, subset_rfl⟩
    · exact ih tidy (Nat.lt_succ_self next) inner _

end Route
end ArrayLift
