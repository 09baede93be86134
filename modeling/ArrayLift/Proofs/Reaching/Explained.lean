import ArrayLift.Proofs.Reaching.Pins

/-! Every edge is the edge of a trace: whatever a route makes live or connects, some trace through it does. -/
namespace ArrayLift

open DefUse
open scoped Computability

/-- Some function among the regions has a trace from a definition to an occurrence. -/
def Region.Linked (regions : List Region) (definition occurrence : Node) : Prop :=
  ∃ region ∈ regions, region.Reaches region.pinned definition occurrence

theorem Region.Linked.left {one other : List Region} {definition occurrence : Node}
    (linked : Linked one definition occurrence) : Linked (one ++ other) definition occurrence := by
  obtain ⟨region, member, reaches⟩ := linked
  exact ⟨region, List.mem_append_left _ member, reaches⟩

theorem Region.Linked.right {one other : List Region} {definition occurrence : Node}
    (linked : Linked other definition occurrence) : Linked (one ++ other) definition occurrence := by
  obtain ⟨region, member, reaches⟩ := linked
  exact ⟨region, List.mem_append_right _ member, reaches⟩

/-- Traces, and edges of nested functions, account for the difference between two views. -/
structure View.Explained (traces : Language Event) (nested : Node → Node → Prop) (before after : View) : Prop where
  live : ∀ node ∈ after.live, ∃ trace ∈ traces, node ∈ Trace.after trace before.live
  edges : ∀ definition occurrence, (definition, occurrence) ∈ after.edges →
    (definition, occurrence) ∈ before.edges ∨
    (∃ trace ∈ traces, (definition, occurrence) ∈ Trace.links trace before.live) ∨ nested definition occurrence

namespace View.Explained

variable {one two traces larger : Language Event} {nested wider : Node → Node → Prop} {before middle after : View}

/-- Doing nothing is explained by the trace on which nothing happens. -/
theorem refl (view : View) (empty : [] ∈ traces) : Explained traces nested view view :=
  ⟨fun _ there => ⟨[], empty, there⟩, fun _ _ edge => .inl edge⟩

theorem mono (explained : Explained traces nested before after) (more : ∀ trace ∈ traces, trace ∈ larger)
    (also : ∀ definition occurrence, nested definition occurrence → wider definition occurrence) :
    Explained larger wider before after := by
  refine ⟨fun node there => ?_, fun definition occurrence edge => ?_⟩
  · obtain ⟨trace, member, made⟩ := explained.live node there
    exact ⟨trace, more trace member, made⟩
  · rcases explained.edges definition occurrence edge with old | ⟨trace, member, linked⟩ | inner
    · exact .inl old
    · exact .inr (.inl ⟨trace, more trace member, linked⟩)
    · exact .inr (.inr (also definition occurrence inner))

/-- One part behind another. Whatever is live in the middle was made so by some trace of the first part. -/
theorem seq (start : Explained one nested before middle) (behind : Explained two nested middle after)
    (some_first : ∃ trace, trace ∈ one) (some_second : ∃ trace, trace ∈ two) :
    Explained (one * two) nested before after := by
  have extend (node : Node) : ∃ trace ∈ one, node ∈ middle.live → node ∈ Trace.after trace before.live := by
    by_cases there : node ∈ middle.live
    · obtain ⟨trace, member, made⟩ := start.live node there
      exact ⟨trace, member, fun _ => made⟩
    · obtain ⟨trace, member⟩ := some_first
      exact ⟨trace, member, fun made => absurd made there⟩
  refine ⟨fun node there => ?_, fun definition occurrence edge => ?_⟩
  · obtain ⟨second, inSecond, made⟩ := behind.live node there
    obtain ⟨first, inFirst, from_start⟩ := extend node
    refine ⟨first ++ second, Language.append_mem_mul inFirst inSecond, ?_⟩
    rw [Trace.after_append]
    exact Trace.after_mono from_start made
  · rcases behind.edges definition occurrence edge with earlier | ⟨second, inSecond, linked⟩ | inner
    · rcases start.edges definition occurrence earlier with old | ⟨first, inFirst, linked⟩ | inner
      · exact .inl old
      · obtain ⟨second, inSecond⟩ := some_second
        refine .inr (.inl ⟨first ++ second, Language.append_mem_mul inFirst inSecond, ?_⟩)
        rw [Trace.links_append]
        exact .inl linked
      · exact .inr (.inr inner)
    · obtain ⟨first, inFirst, from_start⟩ := extend definition
      refine .inr (.inl ⟨first ++ second, Language.append_mem_mul inFirst inSecond, ?_⟩)
      rw [Trace.links_append]
      exact .inr (Trace.links_mono from_start second linked)
    · exact .inr (.inr inner)

/-- One of two parts that start alike. -/
theorem fork (left : Explained one nested before middle)
    (right : Explained two nested (middle.withLive before.live) after) :
    Explained (one + two) nested before (after.withLive (middle.live ∪ after.live)) := by
  refine ⟨fun node there => ?_, fun definition occurrence edge => ?_⟩
  · rcases there with inLeft | inRight
    · obtain ⟨trace, member, made⟩ := left.live node inLeft
      exact ⟨trace, .inl member, made⟩
    · obtain ⟨trace, member, made⟩ := right.live node inRight
      exact ⟨trace, .inr member, made⟩
  · rcases right.edges definition occurrence edge with earlier | ⟨trace, member, linked⟩ | inner
    · rcases left.edges definition occurrence earlier with old | ⟨trace, member, linked⟩ | inner
      · exact .inl old
      · exact .inr (.inl ⟨trace, .inl member, linked⟩)
      · exact .inr (.inr inner)
    · exact .inr (.inl ⟨trace, .inr member, linked⟩)
    · exact .inr (.inr inner)

/-- A part that may be left out. -/
theorem optional (whole : Explained traces nested before after) (empty : [] ∈ traces) :
    Explained traces nested before (after.withLive (before.live ∪ after.live)) := by
  refine ⟨fun node there => ?_, whole.edges⟩
  rcases there with old | made
  · exact ⟨[], empty, old⟩
  · exact whole.live node made

/-- A part whose live definitions are forgotten. -/
theorem aside (inner : Explained traces nested before after) (some : ∃ trace, trace ∈ traces) :
    Explained {trace | ∃ inner ∈ traces, trace = [.aside inner]} nested before (after.withLive before.live) := by
  refine ⟨fun node there => ?_, fun definition occurrence edge => ?_⟩
  · obtain ⟨trace, member⟩ := some
    exact ⟨[.aside trace], ⟨trace, member, rfl⟩, there⟩
  · rcases inner.edges definition occurrence edge with old | ⟨trace, member, linked⟩ | deeper
    · exact .inl old
    · exact .inr (.inl ⟨[.aside trace], ⟨trace, member, rfl⟩, .inl linked⟩)
    · exact .inr (.inr deeper)

/-- One more pass over a loop. -/
theorem pass (earlier : Explained traces∗ nested before middle) (once : Explained traces nested middle after)
    (some : ∃ trace, trace ∈ traces) : Explained traces∗ nested before after := by
  have both := earlier.seq once ⟨[], Language.nil_mem_kstar _⟩ some
  have one_more : traces∗ * traces ≤ traces∗ := kstar_mul_le_kstar
  exact both.mono (fun _ member => one_more member) fun _ _ inner => inner

end View.Explained

/-- A step is explained by its event. -/
theorem Step.explained (action : Step) {scope : ScopeId} {pinned : List Node} {view : View}
    (own : ∀ node, view.Pinned scope node → node ∈ pinned) (nested : Node → Node → Prop) :
    View.Explained {(action.event? scope pinned).toList} nested view (action.see scope view) := by
  refine ⟨fun node there => ⟨_, rfl, ?_⟩, fun definition occurrence edge => ?_⟩
  · cases action with
    | use | checkArity => exact there
    | define id name line kind =>
      by_cases part : kind = .partialDefinition
      · simp only [see, part, if_true] at there
        simpa [event?, part, Trace.after, Event.after] using there
      · simp only [see, part, if_false] at there
        simp only [event?, part, if_false, Option.toList_some, Trace.after, Event.after]
        rcases there with same | ⟨called, met⟩ | old
        · exact .inl same
        · exact .inr (.inl ⟨called, own node met⟩)
        · exact .inr (.inr old)
    | declare declaration id name line => exact there
  · cases action with
    | checkArity => exact .inl edge
    | use id name line indexed arrayOnly =>
      rcases edge with old | fresh
      · exact .inl old
      · exact .inr (.inl ⟨_, rfl, .inl fresh⟩)
    | define id name line kind =>
      by_cases part : kind = .partialDefinition
      · simp only [see, part, if_true] at edge
        rcases edge with old | fresh
        · exact .inl old
        · refine .inr (.inl ⟨_, rfl, ?_⟩)
          simp only [event?, part, if_true]
          exact .inl fresh
      · simp only [see, part, if_false] at edge
        exact .inl edge
    | declare declaration id name line =>
      rcases edge with same | old
      · exact .inr (.inl ⟨_, rfl, .inl same⟩)
      · exact .inl old

namespace Route

/-- What is pinned at the start of a route is among the definitions that its traces take as pinned. -/
structure Bounded (route : Route) (scope next : Nat) (repeated : Bool) (pinned : List Node) (view : View) : Prop where
  own : ∀ node, view.Pinned scope node → node ∈ pinned
  regions : ∀ region ∈ route.regions next repeated, ∀ node, view.Pinned region.scope node → node ∈ region.pinned

variable {first second body : Route} {scope next : Nat} {repeated : Bool} {pinned : List Node} {limit : Nat}

theorem Bounded.left {view : View} (bounded : (seq first second).Bounded scope next repeated pinned view) :
    first.Bounded scope next repeated pinned view :=
  ⟨bounded.own, fun region member => bounded.regions region (List.mem_append_left _ member)⟩

/-- Behind the first part, its declarations are in force too. -/
theorem Bounded.right (enough : 3 ≤ limit) (tidy : first.Tidy) (inside : scope < next) {view : View}
    (bounded : (seq first second).Bounded scope next repeated pinned view) :
    second.Bounded scope (next + first.functionIds.length) repeated (first.bindings scope ++ pinned)
      (first.see limit scope next view) := by
  refine ⟨fun node met => ?_, fun region member node met => ?_⟩
  · rcases pinned_see enough tidy inside view met with own | before
    · exact List.mem_append_left _ own
    · exact List.mem_append_right _ (bounded.own node before)
  · have within := region_scope member
    exact bounded.regions region (List.mem_append_right _ member) node
      ((pinned_apart enough tidy inside (by omega) (by omega)).mp met)

/-- A further pass over a loop starts with what the body has declared. -/
theorem Bounded.again (enough : 3 ≤ limit) (tidy : body.Tidy) (inside : scope < next) {entry : Set Node}
    {view : View} (bounded : body.Bounded scope next true (body.bindings scope ++ pinned) view) :
    body.Bounded scope next true (body.bindings scope ++ pinned) (view.next (body.see limit scope next) entry) := by
  refine ⟨fun node met => ?_, fun region member node met => ?_⟩
  · rcases pinned_see enough tidy inside view met with own | before
    · exact List.mem_append_left _ own
    · exact bounded.own node before
  · rcases pinned_region enough tidy inside member view met with own | before
    · simp only [Region.pinned, region_repeated member, if_true]
      exact own
    · exact bounded.regions region member node before

/-- A loop is explained by its passes if each of them is explained by the traces of the body. -/
theorem explained_loop (enough : 3 ≤ limit) (tidy : body.Tidy) (inside : scope < next) {view : View}
    {nested : Node → Node → Prop} (bounded : body.Bounded scope next true (body.bindings scope ++ pinned) view)
    (each : ∀ {start : View}, body.Bounded scope next true (body.bindings scope ++ pinned) start →
      View.Explained (body.traces scope (body.bindings scope ++ pinned)) nested start
        (body.see limit scope next start)) :
    View.Explained (body.traces scope (body.bindings scope ++ pinned))∗ nested view
      ((loop body).see limit scope next view) := by
  obtain ⟨final, settled, same⟩ := (body.describes enough tidy inside).settled enough view
  let language := body.traces scope (body.bindings scope ++ pinned)
  have some := body.traces_nonempty scope (body.bindings scope ++ pinned)
  have earlier {start : View} (passes : View.Passes (body.see limit scope next) view.live view start) :
      body.Bounded scope next true (body.bindings scope ++ pinned) start ∧
        View.Explained language∗ nested view start := by
    induction passes with
    | first => exact ⟨bounded, .refl view (Language.nil_mem_kstar _)⟩
    | again before passes =>
      obtain ⟨bounds, explained⟩ := passes
      have further := explained.pass (each bounds) some
      exact ⟨bounds.again enough tidy inside, further.optional (Language.nil_mem_kstar _)⟩
  obtain ⟨bounds, explained⟩ := earlier settled.passes
  simp only [see, same]
  exact ⟨explained.live, (explained.pass (each bounds) some).edges⟩

/-- What a route makes live or connects is explained by its traces. -/
theorem explained (enough : 3 ≤ limit) (route : Route) (tidy : route.Tidy) :
    ∀ {scope next : Nat} {repeated : Bool} {pinned : List Node} {view : View}, scope < next →
      route.Bounded scope next repeated pinned view →
      View.Explained (route.traces scope pinned) (Region.Linked (route.regions next repeated)) view
        (route.see limit scope next view) := by
  induction route with
  | stay | jump _ => exact fun _ _ => .refl _ rfl
  | step action => exact fun _ bounded => action.explained bounded.own _
  | seq first second ihFirst ihSecond | ensure first second ihFirst ihSecond
  | finish first second ihFirst ihSecond =>
    intro scope next repeated pinned view inside bounded
    have bounded : (seq first second).Bounded scope next repeated pinned view :=
      ⟨bounded.own, bounded.regions⟩
    have start := ihFirst tidy.1 inside bounded.left
    have behind := ihSecond tidy.2 (Nat.lt_add_right _ inside) (bounded.right enough tidy.1 inside)
    exact (start.mono (fun _ member => member) fun _ _ => Region.Linked.left).seq
      (behind.mono (fun _ member => member) fun _ _ => Region.Linked.right)
      (first.traces_nonempty scope pinned) (second.traces_nonempty scope _)
  | fork left right ihLeft ihRight =>
    intro scope next repeated pinned view inside bounded
    have bounded : (seq left right).Bounded scope next repeated pinned view := ⟨bounded.own, bounded.regions⟩
    have behind := bounded.right enough tidy.1 inside
    have back : right.Bounded scope (next + left.functionIds.length) repeated (left.bindings scope ++ pinned)
        ((left.see limit scope next view).withLive view.live) := ⟨behind.own, behind.regions⟩
    have one := ihLeft tidy.1 inside bounded.left
    have other := ihRight tidy.2 (Nat.lt_add_right _ inside) back
    exact (one.mono (fun _ member => member) fun _ _ => Region.Linked.left).fork
      (other.mono (fun _ member => member) fun _ _ => Region.Linked.right)
  | attempt body ih =>
    intro scope next repeated pinned view inside bounded
    have inner := ih tidy inside ⟨bounded.own, bounded.regions⟩
    have whole : View.Explained (1 + body.traces scope pinned) (Region.Linked (body.regions next repeated)) view
        (body.see limit scope next view) := inner.mono (fun _ member => .inr member) fun _ _ inner => inner
    exact whole.optional (.inl rfl)
  | loop body ih =>
    intro scope next repeated pinned view inside bounded
    have within : body.Tidy := tidy
    apply explained_loop enough within inside
    · exact ⟨fun node met => List.mem_append_right _ (bounded.own node met), bounded.regions⟩
    · exact fun {_} bounds => ih tidy inside bounds
  | aside body ih =>
    intro scope next repeated pinned view inside bounded
    have inner := ih tidy.tidy inside ⟨bounded.own, bounded.regions⟩
    exact inner.aside (body.traces_nonempty scope pinned)
  | function id name line body ih =>
    intro scope next repeated pinned view inside bounded
    let region : Region := ⟨next, implicitNodes next, body, repeated⟩
    have bounds : body.Bounded next (next + 1) repeated region.pinned
        (view.withLive {node | node ∈ implicitNodes next}) :=
      ⟨fun node met => bounded.regions region (by simp [regions, region]) node met,
        fun deeper member => bounded.regions deeper (List.mem_cons_of_mem _ member)⟩
    have inner := ih tidy (Nat.lt_succ_self next) bounds
    refine ⟨fun node there => ⟨[], rfl, there⟩, fun definition occurrence edge => ?_⟩
    rcases inner.edges definition occurrence edge with
      old | ⟨trace, member, linked⟩ | ⟨deeper, member, reaches⟩
    · exact .inl old
    · exact .inr (.inr ⟨region, by simp [regions, region], trace, member, linked⟩)
    · exact .inr (.inr ⟨deeper, List.mem_cons_of_mem _ member, reaches⟩)

end Route
end ArrayLift
