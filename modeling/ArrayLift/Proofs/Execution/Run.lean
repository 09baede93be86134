import ArrayLift.Proofs.Reaching.Pins

/-! Executions of a route in which jumps are jumps and an error may stop any piece after any of its steps.
The walk knows no jumps. It still sees every use whose name some execution has defined before: a name that
has a live definition never loses all of them. -/
namespace ArrayLift

open DefUse

/-- Does a loop go on behind a pass that ends so? -/
def Exit.goesOn : Exit → Bool
  | .completed | .continued => true
  | .broken | .returned | .abandoned => false

/-- The executions of a route with their ends and the events on them. -/
inductive Route.Runs (scope : ScopeId) : Route → Exit → Trace → Prop where
  | stay : Runs scope .stay .completed []
  /-- An error stops anything before its first step. -/
  | cut {route : Route} : Runs scope route .abandoned []
  | step (action : Step) : Runs scope (.step action) .completed (action.event? scope []).toList
  | seq {first second : Route} {exit : Exit} {one other : Trace} (start : Runs scope first .completed one)
      (behind : Runs scope second exit other) : Runs scope (.seq first second) exit (one ++ other)
  | stop {first second : Route} {exit : Exit} {trace : Trace} (start : Runs scope first exit trace)
      (early : exit ≠ .completed) : Runs scope (.seq first second) exit trace
  | left {left right : Route} {exit : Exit} {trace : Trace} (way : Runs scope left exit trace) :
      Runs scope (.fork left right) exit trace
  | right {left right : Route} {exit : Exit} {trace : Trace} (way : Runs scope right exit trace) :
      Runs scope (.fork left right) exit trace
  | attempt {body : Route} {exit : Exit} {trace : Trace} (whole : Runs scope body exit trace) :
      Runs scope (.attempt body) exit trace
  | caught {body : Route} {trace : Trace} (part : Runs scope body .abandoned trace) :
      Runs scope (.attempt body) .completed trace
  | ensure {first second : Route} {exit : Exit} {one other : Trace} (start : Runs scope first exit one)
      (behind : Runs scope second .completed other) : Runs scope (.ensure first second) exit (one ++ other)
  /-- What follows in any case may itself end early. -/
  | replace {first second : Route} {exit last : Exit} {one other : Trace} (start : Runs scope first exit one)
      (behind : Runs scope second last other) (early : last ≠ .completed) :
      Runs scope (.ensure first second) last (one ++ other)
  | finish {first second : Route} {exit : Exit} {one other : Trace} (start : Runs scope first .completed one)
      (behind : Runs scope second exit other) : Runs scope (.finish first second) exit (one ++ other)
  | broken {first second : Route} {trace : Trace} (start : Runs scope first .broken trace) :
      Runs scope (.finish first second) .completed trace
  | escape {first second : Route} {exit : Exit} {trace : Trace} (start : Runs scope first exit trace)
      (early : exit ≠ .completed) (further : exit ≠ .broken) : Runs scope (.finish first second) exit trace
  | done {body : Route} : Runs scope (.loop body) .completed []
  | again {body : Route} {exit last : Exit} {one rest : Trace} (pass : Runs scope body exit one)
      (further : exit.goesOn = true) (behind : Runs scope (.loop body) last rest) :
      Runs scope (.loop body) last (one ++ rest)
  | leave {body : Route} {exit : Exit} {trace : Trace} (pass : Runs scope body exit trace)
      (last : exit.goesOn = false) : Runs scope (.loop body) exit trace
  | aside {body : Route} {exit : Exit} {inner : Trace} (within : Runs scope body exit inner) :
      Runs scope (.aside body) exit [.aside inner]
  /-- A function is declared; it is executed in a scope of its own. -/
  | function (id : Option IdentId) (name : String) (line : SourceLine) (body : Route) :
      Runs scope (.function id name line body) .completed []
  | jump (exit : Exit) : Runs scope (.jump exit) exit []

/-- The name that an event defines. -/
def Event.names : Event → Set String
  | .define node _ | .update node | .declare node _ => {node.name}
  | .use _ | .aside _ => ∅

namespace Trace

/-- The names that are defined behind a trace. -/
def known : Set String → Trace → Set String
  | before, [] => before
  | before, event :: rest => known (before ∪ event.names) rest

end Trace

mutual
/-- The use at an event if its name is defined before. -/
def Event.settled (before : Set String) : Event → Set Node
  | .use node => {use | use = node ∧ node.name ∈ before}
  | .aside inner => Trace.settled before inner
  | .define .. | .update _ | .declare .. => ∅

/-- The uses on a trace whose names are defined before them. -/
def Trace.settled : Set String → List Event → Set Node
  | _, [] => ∅
  | before, event :: rest => event.settled before ∪ Trace.settled (before ∪ event.names) rest
end

namespace Trace

variable {before : Set String}

theorem known_append (one other : Trace) : known before (one ++ other) = known (known before one) other := by
  induction one generalizing before with
  | nil => rfl
  | cons event rest ih => exact ih

theorem settled_append (one other : Trace) :
    settled before (one ++ other) = settled before one ∪ settled (known before one) other := by
  induction one generalizing before with
  | nil => simp [settled, known]
  | cons event rest ih => simp only [List.cons_append, settled, ih, known, Set.union_assoc]

end Trace

/-- The names with live definitions. -/
def View.names (view : View) : Set String :=
  {name | ∃ node ∈ view.live, node.name = name}

theorem View.names_mono {one other : View} (within : one.live ⊆ other.live) : one.names ⊆ other.names := by
  intro name found
  obtain ⟨node, live, named⟩ := found
  exact ⟨node, within live, named⟩

/-- A view behind a trace has live definitions of all names that are defined on it, and edges to all uses whose
names are defined before. -/
structure View.Settles (before : Set String) (trace : Trace) (view : View) : Prop where
  names : Trace.known before trace ⊆ view.names
  uses : ∀ node ∈ Trace.settled before trace,
    (∃ id name, node = .occurrence id name .use) ∧ ∃ definition, (definition, node) ∈ view.edges

namespace View.Settles

variable {before : Set String} {one other trace : Trace} {middle after view : View}

theorem nil (holds : before ⊆ view.names) : view.Settles before [] :=
  ⟨holds, fun _ none => none.elim⟩

/-- What has been found stays. -/
theorem later (settles : middle.Settles before trace) (names : middle.names ⊆ after.names)
    (edges : middle.edges ⊆ after.edges) : after.Settles before trace := by
  refine ⟨settles.names.trans names, fun node settled => ?_⟩
  obtain ⟨use, definition, edge⟩ := settles.uses node settled
  exact ⟨use, definition, edges edge⟩

theorem append (start : middle.Settles before one) (behind : after.Settles (Trace.known before one) other)
    (edges : middle.edges ⊆ after.edges) : after.Settles before (one ++ other) := by
  refine ⟨?_, fun node settled => ?_⟩
  · rw [Trace.known_append]
    exact behind.names
  · rw [Trace.settled_append] at settled
    cases settled with
    | inl early =>
      obtain ⟨use, definition, edge⟩ := start.uses node early
      exact ⟨use, definition, edges edge⟩
    | inr late => exact behind.uses node late

end View.Settles

namespace Route

variable {route : Route} {scope next : Nat} {limit : Nat} {view : View}

/-- Where no definition of a name goes through, a new one is made. -/
theorem made_of_not_kept {name : String} (replaced : name ∉ (route.transfer scope).kept) :
    ∃ node ∈ (route.transfer scope).made, node.name = name := by
  induction route with
  | stay | jump _ | aside _ _ | function _ _ _ _ _ => exact absurd trivial replaced
  | step action =>
    cases action with
    | use | checkArity => exact absurd trivial replaced
    | define id text line kind =>
      by_cases part : kind = .partialDefinition
      · simp [transfer, Step.transfer, part, Transfer.idle] at replaced
      · simp only [transfer, Step.transfer, part, if_false, Set.mem_ofPred_eq, not_not] at replaced ⊢
        exact ⟨_, rfl, replaced.symm⟩
    | declare declaration id text line =>
      simp only [transfer, Step.transfer, Set.mem_ofPred_eq, not_not] at replaced ⊢
      exact ⟨_, rfl, (Node.name_binding declaration scope text).trans replaced.symm⟩
  | seq first second ihFirst ihSecond | ensure first second ihFirst ihSecond
  | finish first second ihFirst ihSecond =>
    by_cases kept : name ∈ (second.transfer scope).kept
    · obtain ⟨node, made, named⟩ := ihFirst fun before => replaced ⟨before, kept⟩
      exact ⟨node, .inr (.inr ⟨made, named ▸ kept⟩), named⟩
    · obtain ⟨node, made, named⟩ := ihSecond kept
      exact ⟨node, .inl made, named⟩
  | fork left right ihLeft ihRight =>
    obtain ⟨node, made, named⟩ := ihLeft fun kept => replaced (.inl kept)
    exact ⟨node, .inl made, named⟩
  | attempt body ih => exact absurd (.inr trivial) replaced
  | loop body ih => exact absurd trivial replaced

/-- A name that has a live definition keeps one. -/
theorem names_see (enough : 3 ≤ limit) (tidy : route.Tidy) (inside : scope < next) (view : View) :
    view.names ⊆ (route.see limit scope next view).names := by
  have live := (route.describes enough tidy inside).live view
  intro name known
  by_cases kept : name ∈ (route.transfer scope).kept
  · obtain ⟨node, old, named⟩ := known
    exact ⟨node, (live node).mpr (.inr (.inr ⟨old, named ▸ kept⟩)), named⟩
  · obtain ⟨node, made, named⟩ := made_of_not_kept kept
    exact ⟨node, (live node).mpr (.inl made), named⟩

section
variable {before : Set String} (enough : 3 ≤ limit) (tidy : route.Tidy) (inside : scope < next)
include enough tidy inside

/-- What is settled stays so behind another route. -/
theorem settles_see {trace : Trace} (settles : view.Settles before trace) :
    (route.see limit scope next view).Settles before trace :=
  settles.later (names_see enough tidy inside view) ((route.describes enough tidy inside).edges view)

theorem settles_append {one other : Trace} (start : view.Settles before one)
    (behind : (route.see limit scope next view).Settles (Trace.known before one) other) :
    (route.see limit scope next view).Settles before (one ++ other) :=
  start.append behind ((route.describes enough tidy inside).edges view)

/-- An execution that has not begun. -/
theorem settles_nil (holds : before ⊆ view.names) : (route.see limit scope next view).Settles before [] :=
  settles_see enough tidy inside (.nil holds)

end

/-- A step settles its own event. -/
theorem settles_step (action : Step) {before : Set String} (holds : before ⊆ view.names) :
    (action.see scope view).Settles before (action.event? scope []).toList := by
  have step : (Route.step action).Tidy := trivial
  have stays : view.names ⊆ (action.see scope view).names :=
    names_see (Nat.le_refl 3) step (Nat.lt_succ_self scope) view
  have fresh (name : String) (known : name ∈ (action.see scope view).names) :
      before ∪ {name} ⊆ (action.see scope view).names := by
    apply Set.union_subset (holds.trans stays)
    intro other same
    rw [Set.mem_singleton_iff.mp same]
    exact known
  cases action with
  | use id name line indexed arrayOnly =>
    refine ⟨?_, fun node settled => ?_⟩
    · simpa [Step.event?, Trace.known, Event.names] using holds.trans stays
    · rcases settled with ⟨same, defined⟩ | none
      · obtain ⟨definition, live, named⟩ := holds defined
        exact ⟨⟨id, name, same⟩, definition, .inr ⟨same, live, named⟩⟩
      · exact none.elim
  | checkArity line targets source => exact .nil holds
  | define id name line kind =>
    by_cases part : kind = .partialDefinition
    · simp only [Step.event?, Step.see, part, if_true] at fresh ⊢
      refine ⟨fresh name ⟨_, .inl rfl, rfl⟩, fun node settled => ?_⟩
      rcases settled with none | none <;> exact none.elim
    · simp only [Step.event?, Step.see, part, if_false] at fresh ⊢
      refine ⟨fresh name ⟨_, .inl rfl, rfl⟩, fun node settled => ?_⟩
      rcases settled with none | none <;> exact none.elim
  | declare declaration id name line =>
    refine ⟨fresh name ⟨_, .inl rfl, Node.name_binding declaration scope name⟩, fun node settled => ?_⟩
    rcases settled with none | none <;> exact none.elim

/-- The passes of a loop settle within what the last walk over its body leaves. -/
theorem settles_loop {body : Route} {start after : View} (stable : after.names ⊆ start.names)
    (each : ∀ {exit trace before}, body.Runs scope exit trace → before ⊆ start.names → after.Settles before trace)
    {exit : Exit} {trace : Trace} (runs : (Route.loop body).Runs scope exit trace) :
    ∀ {before : Set String}, before ⊆ start.names → (after.withLive start.live).Settles before trace := by
  have settle {before : Set String} {trace : Trace} (settles : after.Settles before trace) :
      (after.withLive start.live).Settles before trace := settles.later stable subset_rfl
  generalize same : Route.loop body = route at runs
  induction runs with
  | done | cut => exact fun {_} holds => .nil holds
  | again pass further behind _ ih =>
    cases same
    intro before holds
    have first := settle (each pass holds)
    exact first.append (ih rfl first.names) subset_rfl
  | leave pass last =>
    cases same
    exact fun {_} holds => settle (each pass holds)
  | _ => cases same

/-- The walk over a route settles every execution of it. -/
theorem settles_runs (enough : 3 ≤ limit) (route : Route) (tidy : route.Tidy) :
    ∀ {scope next : Nat} {exit : Exit} {trace : Trace} {view : View} {before : Set String}, scope < next →
      route.Runs scope exit trace → before ⊆ view.names →
      (route.see limit scope next view).Settles before trace := by
  induction route with
  | stay | jump _ | function _ _ _ _ _ =>
    intro scope next exit trace view before inside runs holds
    cases runs <;> exact settles_nil enough tidy inside holds
  | step action =>
    intro scope next exit trace view before inside runs holds
    cases runs with
    | cut => exact settles_nil enough tidy inside holds
    | step => exact settles_step action holds
  | seq first second ihFirst ihSecond =>
    intro scope next exit trace view before inside runs holds
    have within : scope < next + first.functionIds.length := Nat.lt_add_right _ inside
    cases runs with
    | cut => exact settles_nil enough tidy inside holds
    | seq start behind =>
      have one := ihFirst tidy.1 inside start holds
      exact settles_append enough tidy.2 within one (ihSecond tidy.2 within behind one.names)
    | stop start early => exact settles_see enough tidy.2 within (ihFirst tidy.1 inside start holds)
  | ensure first second ihFirst ihSecond =>
    intro scope next exit trace view before inside runs holds
    have within : scope < next + first.functionIds.length := Nat.lt_add_right _ inside
    cases runs with
    | cut => exact settles_nil enough tidy inside holds
    | ensure start behind | replace start behind early =>
      have one := ihFirst tidy.1 inside start holds
      exact settles_append enough tidy.2 within one (ihSecond tidy.2 within behind one.names)
  | finish first second ihFirst ihSecond =>
    intro scope next exit trace view before inside runs holds
    have within : scope < next + first.functionIds.length := Nat.lt_add_right _ inside
    cases runs with
    | cut => exact settles_nil enough tidy inside holds
    | finish start behind =>
      have one := ihFirst tidy.1 inside start holds
      exact settles_append enough tidy.2 within one (ihSecond tidy.2 within behind one.names)
    | broken start | escape start early further =>
      exact settles_see enough tidy.2 within (ihFirst tidy.1 inside start holds)
  | fork left right ihLeft ihRight =>
    intro scope next exit trace view before inside runs holds
    have within : scope < next + left.functionIds.length := Nat.lt_add_right _ inside
    let middle := (left.see limit scope next view).withLive view.live
    cases runs with
    | cut => exact settles_nil enough tidy inside holds
    | left way =>
      have one := ihLeft tidy.1 inside way holds
      have edges := (right.describes enough tidy.2 within).edges middle
      exact one.later (View.names_mono Set.subset_union_left) edges
    | right way =>
      have known : before ⊆ middle.names := holds
      have other := ihRight tidy.2 within way known
      exact other.later (View.names_mono Set.subset_union_right) subset_rfl
  | attempt body ih =>
    intro scope next exit trace view before inside runs holds
    cases runs with
    | cut => exact settles_nil enough tidy inside holds
    | attempt whole | caught whole =>
      exact (ih tidy inside whole holds).later (View.names_mono Set.subset_union_right) subset_rfl
  | loop body ih =>
    intro scope next exit trace view before inside runs holds
    obtain ⟨final, settled, same⟩ := (body.describes enough tidy inside).settled enough view
    simp only [see, same]
    exact settles_loop (View.names_mono settled.closed.2) (fun pass known => ih tidy inside pass known) runs
      (holds.trans (View.names_mono settled.closed.1))
  | aside body ih =>
    intro scope next exit trace view before inside runs holds
    cases runs with
    | cut => exact settles_nil enough tidy inside holds
    | aside inner =>
      have whole := ih tidy.tidy inside inner holds
      refine ⟨?_, fun node settled => ?_⟩
      · simp only [Trace.known, Event.names, Set.union_empty]
        exact holds
      · rcases settled with here | none
        · exact whole.uses node here
        · exact none.elim

end Route
end ArrayLift
