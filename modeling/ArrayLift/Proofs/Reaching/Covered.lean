import ArrayLift.Proofs.Reaching.Pins

/-! Every edge of a trace is an edge: a route makes live and connects what any of its traces does. Of the
definitions behind declarations this needs that their names are not declared in the other way too. -/
namespace ArrayLift

open DefUse
open scoped Computability

/-- No other declaration of the name is there. Of ordinary definitions nothing is asked. -/
def DefUse.Node.Sole (all : List Node) (node : Node) : Prop :=
  node.isBinding = true → ∀ other ∈ all, other.name = node.name → other = node

theorem DefUse.Node.sole_of_ordinary {node : Node} (ordinary : node.isBinding = false) (all : List Node) :
    node.Sole all := fun binding => absurd (ordinary.symm.trans binding) Bool.false_ne_true

namespace Route

variable {route body : Route} {scope next : Nat} {limit : Nat} {all pinned : List Node} {view : View} {node : Node}

theorem Simple.bindings {route : Route} (simple : route.Simple) (scope : ScopeId) :
    route.bindings scope = [] := by
  induction route with
  | stay | jump _ | function _ _ _ _ _ => rfl
  | step action =>
    cases action with
    | declare => exact simple.elim
    | use | define | checkArity => rfl
  | seq first second ihFirst ihSecond | fork first second ihFirst ihSecond | ensure first second ihFirst ihSecond
  | finish first second ihFirst ihSecond =>
    simp only [Route.bindings, ihFirst simple.1, ihSecond simple.2, List.append_nil]
  | attempt body ih | aside body ih => exact ih simple
  | loop => exact simple.elim

/-- A declaration on a tidy route is met, if only to be replaced by another one of the name. -/
theorem declared_of_mem_bindings (tidy : route.Tidy) (member : node ∈ route.bindings scope) :
    ∃ declaration, (route.transfer scope).declared node.name = some declaration := by
  induction route with
  | stay | jump _ | function _ _ _ _ _ => cases member
  | step action =>
    cases action with
    | use | define | checkArity => cases member
    | declare declaration id name line =>
      obtain rfl := List.mem_singleton.mp member
      simp [transfer, Step.transfer]
  | seq first second ihFirst ihSecond | fork first second ihFirst ihSecond | ensure first second ihFirst ihSecond
  | finish first second ihFirst ihSecond =>
    rcases List.mem_append.mp member with inFirst | inSecond
    · obtain ⟨declaration, met⟩ := ihFirst tidy.1 inFirst
      cases last : (second.transfer scope).declared node.name with
      | none => exact ⟨declaration, Option.or_eq_some_iff.mpr (.inr ⟨last, met⟩)⟩
      | some other => exact ⟨other, Option.or_eq_some_iff.mpr (.inl last)⟩
    · obtain ⟨declaration, met⟩ := ihSecond tidy.2 inSecond
      exact ⟨declaration, Option.or_eq_some_iff.mpr (.inl met)⟩
  | attempt body ih | loop body ih => exact ih tidy member
  | aside body _ =>
    have empty : node ∈ body.bindings scope := member
    rw [Simple.bindings tidy scope] at empty
    cases empty

/-- The only live definitions behind declarations that a route makes stand on it. -/
theorem mem_bindings_of_made (binding : node.isBinding = true) (made : node ∈ (route.transfer scope).made) :
    node ∈ route.bindings scope := by
  rcases places_of_made made with declared | ⟨id, _, own⟩
  · exact declared
  · rw [Node.occurrence?_of_isBinding binding] at own
    cases own

section
variable (within : route.bindings scope ⊆ all) (sole : node.Sole all)
include within sole

/-- The declaration that a route meets last for a name is the only one of the name. -/
theorem declares_of_declared (binding : node.isBinding = true) {declaration : Declaration}
    (met : (route.transfer scope).declared node.name = some declaration) :
    (route.transfer scope).Declares scope node := by
  have declares : (route.transfer scope).Declares scope (.binding declaration scope node.name) :=
    ⟨declaration, by rw [Node.name_binding]; exact met, by rw [Node.name_binding]⟩
  have same := sole binding _ (within (mem_bindings_of_declares declares)) (Node.name_binding ..)
  exact same ▸ declares

theorem declares_of_mem (tidy : route.Tidy) (member : node ∈ route.bindings scope) :
    (route.transfer scope).Declares scope node := by
  obtain ⟨declaration, met⟩ := declared_of_mem_bindings tidy member
  exact declares_of_declared within sole (isBinding_of_mem member) met

variable (enough : 3 ≤ limit) (tidy : route.Tidy) (inside : scope < next)
include enough tidy inside

/-- A declaration on the route is in force behind it. -/
theorem pinned_of_mem (member : node ∈ route.bindings scope) :
    (route.see limit scope next view).Pinned scope node :=
  ((route.describes enough tidy inside).pinned view node).mpr (.inl (declares_of_mem within sole tidy member))

/-- A declaration that is in force before the route is in force behind it. -/
theorem pinned_stays (pinned : view.Pinned scope node) :
    (route.see limit scope next view).Pinned scope node := by
  apply ((route.describes enough tidy inside).pinned view node).mpr
  cases met : (route.transfer scope).declared node.name with
  | none => exact .inr ⟨rfl, pinned⟩
  | some declaration => exact .inl (declares_of_declared within sole (isBinding_of_pinned pinned) met)

end

/-- The declarations that traces take as pinned are in force, and so are those with live definitions. -/
structure Ready (scope : Nat) (pinned all : List Node) (view : View) : Prop where
  pinned : ∀ node ∈ pinned, node.Sole all → view.Pinned scope node
  live : ∀ node ∈ view.live, node.isBinding = true → node.Sole all → view.Pinned scope node

theorem Ready.see (enough : 3 ≤ limit) (tidy : route.Tidy) (inside : scope < next)
    (within : route.bindings scope ⊆ all) (ready : Ready scope pinned all view) :
    Ready scope (route.bindings scope ++ pinned) all (route.see limit scope next view) := by
  refine ⟨fun node member sole => ?_, fun node there binding sole => ?_⟩
  · rcases List.mem_append.mp member with own | before
    · exact pinned_of_mem within sole enough tidy inside own
    · exact pinned_stays within sole enough tidy inside (ready.pinned node before sole)
  · rcases ((route.describes enough tidy inside).live view node).mp there with made | ⟨_, met⟩ | ⟨old, _⟩
    · exact pinned_of_mem within sole enough tidy inside (mem_bindings_of_made binding made)
    · exact pinned_stays within sole enough tidy inside met
    · exact pinned_stays within sole enough tidy inside (ready.live node old binding sole)

/-- The last pass over a loop starts with all declarations of the body. -/
theorem Ready.settled (enough : 3 ≤ limit) (tidy : body.Tidy) (inside : scope < next)
    (within : body.bindings scope ⊆ all) (ready : Ready scope pinned all view) {final : View}
    (settled : View.Settled (body.see limit scope next) view final) :
    Ready scope (body.bindings scope ++ pinned) all final := by
  have earlier {start : View} (passes : View.Passes (body.see limit scope next) view.live view start) :
      Ready scope pinned all start ∧ ∀ node, node.Sole all → view.Pinned scope node → start.Pinned scope node := by
    induction passes with
    | first => exact ⟨ready, fun _ _ pinned => pinned⟩
    | again before passes =>
      obtain ⟨ready', stays⟩ := passes
      have seen := ready'.see enough tidy inside within
      have further : ∀ node, node.Sole all → view.Pinned scope node → (View.next _ view.live _).Pinned scope node :=
        fun node sole pinned => pinned_stays within sole enough tidy inside (stays node sole pinned)
      refine ⟨⟨fun node member => seen.pinned node (List.mem_append_right _ member), fun node there binding sole => ?_⟩,
        further⟩
      rcases there with old | made
      · exact further node sole (ready.live node old binding sole)
      · exact seen.live node made binding sole
  obtain ⟨passes, stable⟩ := settled
  cases passes with
  | first =>
    refine ⟨fun node member sole => ?_, ready.live⟩
    rcases List.mem_append.mp member with own | before
    · have made := (body.proper_transfer scope).declared node (declares_of_mem within sole tidy own)
      have there : node ∈ (body.see limit scope next view).live :=
        ((body.describes enough tidy inside).live view node).mpr (.inl made)
      have old : node ∈ view.live := stable ▸ Set.mem_union_right view.live there
      exact ready.live node old (isBinding_of_mem own) sole
    · exact ready.pinned node before sole
  | again before =>
    have seen := (earlier before).1.see enough tidy inside within
    exact ⟨seen.pinned, (earlier (.again before)).1.live⟩

/-- A view has the definitions of a set, unless their names are declared both ways. -/
def Holds (all : List Node) (live : Set Node) (view : View) : Prop :=
  ∀ node ∈ live, node.Sole all → node ∈ view.live

/-- A view behind a trace has the definitions and the edges of the trace. -/
structure Covers (all : List Node) (trace : Trace) (before : Set Node) (view : View) : Prop where
  live : Holds all (Trace.after trace before) view
  edges : ∀ definition occurrence, (definition, occurrence) ∈ Trace.links trace before → definition.Sole all →
    (definition, occurrence) ∈ view.edges

variable {first second : Trace} {before : Set Node}

theorem Covers.append {middle after : View} (start : Covers all first before middle)
    (behind : Covers all second (Trace.after first before) after) (kept : middle.edges ⊆ after.edges) :
    Covers all (first ++ second) before after := by
  refine ⟨?_, fun definition occurrence linked sole => ?_⟩
  · rw [Trace.after_append]
    exact behind.live
  · rw [Trace.links_append] at linked
    rcases linked with early | late
    · exact kept (start.edges definition occurrence early sole)
    · exact behind.edges definition occurrence late sole

theorem Covers.nil (holds : Holds all before view) : Covers all [] before view :=
  ⟨holds, fun _ _ linked => linked.elim⟩

theorem Covers.aside {inner : Trace} {after : View} (whole : Covers all inner before after)
    (holds : Holds all before view) : Covers all [.aside inner] before (after.withLive view.live) := by
  refine ⟨holds, fun definition occurrence linked sole => ?_⟩
  rcases linked with here | none
  · exact whole.edges definition occurrence here sole
  · exact none.elim

/-- A loop whose body keeps within its start does so any number of times. -/
theorem Covers.flatten {start after : View} {traces : List Trace} (stable : after.live ⊆ start.live)
    (each : ∀ trace ∈ traces, ∀ live, Holds all live start → Covers all trace live after)
    (holds : Holds all before start) :
    Holds all (Trace.after traces.flatten before) start ∧ ∀ definition occurrence,
      (definition, occurrence) ∈ Trace.links traces.flatten before → definition.Sole all →
      (definition, occurrence) ∈ after.edges := by
  induction traces generalizing before with
  | nil => exact ⟨holds, fun _ _ linked => linked.elim⟩
  | cons trace rest ih =>
    have here := each trace (by simp) before holds
    have later := ih (fun other member => each other (by simp [member]))
      fun node there sole => stable (here.live node there sole)
    rw [List.flatten_cons, Trace.after_append, Trace.links_append]
    refine ⟨later.1, fun definition occurrence linked sole => ?_⟩
    rcases linked with early | late
    · exact here.edges definition occurrence early sole
    · exact later.2 definition occurrence late sole

end Route

/-- A step has the definitions and the edges of its event. -/
theorem Step.covers (action : Step) {scope : Nat} {pinned all : List Node} {view : View} {before : Set Node}
    (ready : Route.Ready scope pinned all view) (holds : Route.Holds all before view) :
    Route.Covers all (action.event? scope pinned).toList before (action.see scope view) := by
  have reached (node : Node) {definition occurrence : Node} (linked : (definition, occurrence) ∈ node.reached before)
      (sole : definition.Sole all) : (definition, occurrence) ∈ (view.read node).edges :=
    .inr ⟨linked.1, holds definition linked.2.1 sole, linked.2.2⟩
  cases action with
  | use id name line indexed arrayOnly =>
    refine ⟨holds, fun definition occurrence linked sole => ?_⟩
    rcases linked with here | none
    · exact reached _ here sole
    · exact none.elim
  | checkArity line targets source => exact .nil holds
  | define id name line kind =>
    by_cases part : kind = .partialDefinition
    · simp only [event?, see, part, if_true]
      refine ⟨fun node there sole => ?_, fun definition occurrence linked sole => ?_⟩
      · rcases there with same | old
        · exact .inl same
        · exact .inr (holds node old sole)
      · rcases linked with here | none
        · exact reached _ here sole
        · exact none.elim
    · simp only [event?, see, part, if_false]
      refine ⟨fun node there sole => ?_, fun definition occurrence linked _ => ?_⟩
      · rcases there with same | ⟨called, met⟩ | ⟨old, other⟩
        · exact .inl same
        · exact .inr (.inl ⟨called, ready.pinned node met sole⟩)
        · exact .inr (.inr ⟨holds node old sole, other⟩)
      · rcases linked with none | none <;> exact none.elim
  | declare declaration id name line =>
    refine ⟨fun node there sole => ?_, fun definition occurrence linked _ => ?_⟩
    · rcases there with same | ⟨old, other⟩
      · exact .inl same
      · exact .inr ⟨holds node old sole, other⟩
    · rcases linked with here | none
      · exact .inl here
      · exact none.elim

namespace Route

variable {limit : Nat}

/-- A loop makes live and connects what its passes do, each from what the last walk over it starts with. -/
theorem covers_loop {body : Route} {scope next : Nat} {pinned all : List Node} {view : View} {before : Set Node}
    {trace : Trace} (enough : 3 ≤ limit) (tidy : body.Tidy) (inside : scope < next)
    (within : body.bindings scope ⊆ all) (ready : Ready scope pinned all view) (holds : Holds all before view)
    (each : ∀ {final : View} {trace : Trace} {live : Set Node},
      Ready scope (body.bindings scope ++ pinned) all final → Holds all live final →
      trace ∈ body.traces scope (body.bindings scope ++ pinned) →
      Covers all trace live (body.see limit scope next final))
    (member : trace ∈ (loop body).traces scope pinned) :
    Covers all trace before ((loop body).see limit scope next view) := by
  obtain ⟨traces, rfl, passes⟩ := Language.mem_kstar.mp member
  obtain ⟨final, settled, same⟩ := (body.describes enough tidy inside).settled enough view
  have last := ready.settled enough tidy inside within settled
  have repeated := Covers.flatten settled.closed.2
    (fun trace member live holds => each last holds (passes trace member))
    fun node there sole => settled.closed.1 (holds node there sole)
  simp only [see, same]
  exact ⟨repeated.1, repeated.2⟩

/-- A route makes live and connects what its traces do. -/
theorem covers (enough : 3 ≤ limit) (route : Route) (tidy : route.Tidy) :
    ∀ {scope next : Nat} {pinned all : List Node} {view : View} {before : Set Node} {trace : Trace}, scope < next →
      route.bindings scope ⊆ all → Ready scope pinned all view → Holds all before view →
      trace ∈ route.traces scope pinned → Covers all trace before (route.see limit scope next view) := by
  induction route with
  | stay | jump _ | function _ _ _ _ _ =>
    intro scope next pinned all view before trace inside within ready holds member
    obtain rfl := Set.mem_singleton_iff.mp member
    exact .nil holds
  | step action =>
    intro scope next pinned all view before trace inside within ready holds member
    obtain rfl := Set.mem_singleton_iff.mp member
    exact action.covers ready holds
  | seq first second ihFirst ihSecond | ensure first second ihFirst ihSecond
  | finish first second ihFirst ihSecond =>
    intro scope next pinned all view before trace inside within ready holds member
    obtain ⟨one, inFirst, other, inSecond, rfl⟩ := Language.mem_mul.mp member
    have withinFirst : first.bindings scope ⊆ all := fun _ there => within (List.mem_append_left _ there)
    have withinSecond : second.bindings scope ⊆ all := fun _ there => within (List.mem_append_right _ there)
    have later : scope < next + first.functionIds.length := Nat.lt_add_right _ inside
    have start := ihFirst tidy.1 inside withinFirst ready holds inFirst
    have behind := ihSecond tidy.2 later withinSecond (ready.see enough tidy.1 inside withinFirst) start.live inSecond
    exact start.append behind ((second.describes enough tidy.2 later).edges _)
  | fork left right ihLeft ihRight =>
    intro scope next pinned all view before trace inside within ready holds member
    have withinLeft : left.bindings scope ⊆ all := fun _ there => within (List.mem_append_left _ there)
    have withinRight : right.bindings scope ⊆ all := fun _ there => within (List.mem_append_right _ there)
    have later : scope < next + left.functionIds.length := Nat.lt_add_right _ inside
    let middle := (left.see limit scope next view).withLive view.live
    rcases member with inLeft | inRight
    · have one := ihLeft tidy.1 inside withinLeft ready holds inLeft
      refine ⟨fun node there sole => .inl (one.live node there sole), fun definition occurrence linked sole => ?_⟩
      exact (right.describes enough tidy.2 later).edges middle (one.edges definition occurrence linked sole)
    · have seen := ready.see enough tidy.1 inside withinLeft
      have back : Ready scope (left.bindings scope ++ pinned) all middle :=
        ⟨seen.pinned, fun node there binding sole =>
          pinned_stays withinLeft sole enough tidy.1 inside (ready.live node there binding sole)⟩
      have other := ihRight tidy.2 later withinRight back holds inRight
      exact ⟨fun node there sole => .inr (other.live node there sole), other.edges⟩
  | attempt body ih =>
    intro scope next pinned all view before trace inside within ready holds member
    rcases member with none | inBody
    · obtain rfl := Set.mem_singleton_iff.mp none
      exact .nil fun node there sole => .inl (holds node there sole)
    · have whole := ih tidy inside within ready holds inBody
      exact ⟨fun node there sole => .inr (whole.live node there sole), whole.edges⟩
  | loop body ih =>
    intro scope next pinned all view before trace inside within ready holds member
    have closed : body.Tidy := tidy
    have bound : body.bindings scope ⊆ all := within
    apply covers_loop enough closed inside bound ready holds _ member
    intro final trace live last start inBody
    exact ih tidy inside within last start inBody
  | aside body ih =>
    intro scope next pinned all view before trace inside within ready holds member
    obtain ⟨inner, inBody, rfl⟩ := member
    exact (ih tidy.tidy inside within ready holds inBody).aside holds

/-- What a region starts with is ordinary. -/
theorem isBinding_of_start {route : Route} {next : ScopeId} {repeated : Bool} {region : Region}
    (member : region ∈ route.regions next repeated) {node : Node} (start : node ∈ region.start) :
    node.isBinding = false := by
  rw [region_start member] at start
  obtain ⟨binding, _, rfl⟩ := List.mem_map.mp start
  rfl

/-- What the traces of a function connect is connected, however the function is nested. -/
theorem covers_region (enough : 3 ≤ limit) {route : Route} (tidy : route.Tidy) {scope next : Nat}
    {repeated : Bool} {region : Region} {definition occurrence : Node} (inside : scope < next)
    (member : region ∈ route.regions next repeated) (reaches : region.Reaches [] definition occurrence)
    (sole : definition.Sole (region.body.bindings region.scope)) (view : View) :
    (definition, occurrence) ∈ (route.see limit scope next view).edges := by
  obtain ⟨entry, start, own, edges⟩ := region_seen enough tidy inside member view
  obtain ⟨trace, inBody, linked⟩ := reaches
  have ready : Ready region.scope [] (region.body.bindings region.scope) entry := by
    refine ⟨fun node none => absurd none List.not_mem_nil, fun node there binding _ => ?_⟩
    rw [start] at there
    rw [isBinding_of_start member there] at binding
    cases binding
  have whole := region.body.covers enough own (Nat.lt_succ_self region.scope) (List.Subset.refl _) ready
    (fun node there _ => start ▸ there) inBody
  exact edges (whole.edges definition occurrence linked sole)

end Route
end ArrayLift
