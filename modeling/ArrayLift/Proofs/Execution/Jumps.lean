import ArrayLift.Proofs.Execution.Run
import ArrayLift.Proofs.Reaching.Definitions

/-! Executions and edges. The walk takes statements in their order and knows no jumps, so a definition that an
execution takes past the rest of a loop body or of a try body need not have an edge. It has one if the rest that is
left out can be passed without the definition being replaced. -/
namespace ArrayLift

open DefUse
open scoped Computability

/-- What an execution does, and what it leaves out. -/
inductive Mark where
  | event (event : Event)
  | aside (inner : List Mark)
  /-- A jump or an error leaves this behind. -/
  | skip (rest : Route)
  /-- A branch, a pass of a loop or a body that may be left, with what is done in it. -/
  | part (way : Route) (inner : List Mark)

abbrev Course := List Mark

mutual
/-- The events of an execution. -/
def Mark.trace : Mark → Trace
  | .event event => [event]
  | .aside inner => [.aside (Course.trace inner)]
  | .skip _ => []
  | .part _ inner => Course.trace inner

def Course.trace : List Mark → Trace
  | [] => []
  | mark :: rest => mark.trace ++ Course.trace rest
end

/-- Some way through the route leaves a definition in place. -/
def Route.Spares (scope : ScopeId) (route : Route) (node : Node) : Prop :=
  ∃ trace ∈ route.traces scope [], node ∈ Trace.after trace {node}

mutual
/-- The live definitions that an execution keeps, and that are spared by what it leaves out. A part that was entered
may be passed in any other way instead. -/
def Mark.after (scope : ScopeId) : Mark → Set Node → Set Node
  | .event event, live => event.after live
  | .aside _, live => live
  | .skip rest, live => {node | node ∈ live ∧ rest.Spares scope node}
  | .part way inner, live => Course.after scope inner live ∪
      {node | node ∈ live ∧ node ∈ Trace.after (Course.trace inner) live ∧ way.Spares scope node}

def Course.after (scope : ScopeId) : List Mark → Set Node → Set Node
  | [], live => live
  | mark :: rest, live => Course.after scope rest (mark.after scope live)
end

mutual
/-- Which of them reach which occurrences. -/
def Mark.links (scope : ScopeId) : Mark → Set Node → Set (Node × Node)
  | .event event, live => event.links live
  | .aside inner, live | .part _ inner, live => Course.links scope inner live
  | .skip _, _ => ∅

def Course.links (scope : ScopeId) : List Mark → Set Node → Set (Node × Node)
  | [], _ => ∅
  | mark :: rest, live => mark.links scope live ∪ Course.links scope rest (mark.after scope live)
end

/-- The executions of a route, with what each of them leaves out. -/
inductive Route.Takes (scope : ScopeId) : Route → Exit → Course → Prop where
  | stay : Takes scope .stay .completed []
  | cut {route : Route} : Takes scope route .abandoned [.skip route]
  | step (action : Step) : Takes scope (.step action) .completed ((action.event? scope []).toList.map .event)
  | seq {first second : Route} {exit : Exit} {one other : Course} (start : Takes scope first .completed one)
      (behind : Takes scope second exit other) : Takes scope (.seq first second) exit (one ++ other)
  | stop {first second : Route} {exit : Exit} {course : Course} (start : Takes scope first exit course)
      (early : exit ≠ .completed) : Takes scope (.seq first second) exit (course ++ [.skip second])
  | left {left right : Route} {exit : Exit} {course : Course} (way : Takes scope left exit course) :
      Takes scope (.fork left right) exit [.part (.fork left right) course]
  | right {left right : Route} {exit : Exit} {course : Course} (way : Takes scope right exit course) :
      Takes scope (.fork left right) exit [.part (.fork left right) course]
  | attempt {body : Route} {exit : Exit} {course : Course} (whole : Takes scope body exit course) :
      Takes scope (.attempt body) exit [.part (.attempt body) course]
  | caught {body : Route} {course : Course} (part : Takes scope body .abandoned course) :
      Takes scope (.attempt body) .completed [.part (.attempt body) course]
  | ensure {first second : Route} {exit : Exit} {one other : Course} (start : Takes scope first exit one)
      (behind : Takes scope second .completed other) : Takes scope (.ensure first second) exit (one ++ other)
  | replace {first second : Route} {exit last : Exit} {one other : Course} (start : Takes scope first exit one)
      (behind : Takes scope second last other) (early : last ≠ .completed) :
      Takes scope (.ensure first second) last (one ++ other)
  | finish {first second : Route} {exit : Exit} {one other : Course} (start : Takes scope first .completed one)
      (behind : Takes scope second exit other) : Takes scope (.finish first second) exit (one ++ other)
  | broken {first second : Route} {course : Course} (start : Takes scope first .broken course) :
      Takes scope (.finish first second) .completed (course ++ [.skip second])
  | escape {first second : Route} {exit : Exit} {course : Course} (start : Takes scope first exit course)
      (early : exit ≠ .completed) (further : exit ≠ .broken) :
      Takes scope (.finish first second) exit (course ++ [.skip second])
  | done {body : Route} : Takes scope (.loop body) .completed []
  | again {body : Route} {exit last : Exit} {one rest : Course} (pass : Takes scope body exit one)
      (further : exit.goesOn = true) (behind : Takes scope (.loop body) last rest) :
      Takes scope (.loop body) last (.part (.loop body) one :: rest)
  | leave {body : Route} {exit : Exit} {course : Course} (pass : Takes scope body exit course)
      (last : exit.goesOn = false) : Takes scope (.loop body) exit [.part (.loop body) course]
  | aside {body : Route} {exit : Exit} {inner : Course} (within : Takes scope body exit inner) :
      Takes scope (.aside body) exit [.aside inner]
  | function (id : Option IdentId) (name : String) (line : SourceLine) (body : Route) :
      Takes scope (.function id name line body) .completed []
  | jump (exit : Exit) : Takes scope (.jump exit) exit []

namespace Course

variable {scope : ScopeId}

@[simp] theorem trace_append (one other : Course) : trace (one ++ other) = trace one ++ trace other := by
  induction one with
  | nil => rfl
  | cons mark rest ih => simp only [List.cons_append, trace, ih, List.append_assoc]

@[simp] theorem trace_skip (one : Course) (rest : Route) : trace (one ++ [.skip rest]) = trace one := by
  simp [trace, Mark.trace]

@[simp] theorem trace_part (way : Route) (inner rest : Course) :
    trace (.part way inner :: rest) = trace inner ++ trace rest := by
  simp [trace, Mark.trace]

@[simp] theorem trace_part_alone (way : Route) (inner : Course) : trace [.part way inner] = trace inner :=
  (trace_part way inner []).trans (List.append_nil _)

theorem trace_events (events : Trace) : trace (events.map .event) = events := by
  induction events with
  | nil => rfl
  | cons event rest ih => exact congrArg (event :: ·) ih

theorem after_events (events : Trace) (live : Set Node) :
    after scope (events.map .event) live = Trace.after events live := by
  induction events generalizing live with
  | nil => rfl
  | cons event rest ih => exact ih (event.after live)

theorem links_events (events : Trace) (live : Set Node) :
    links scope (events.map .event) live = Trace.links events live := by
  induction events generalizing live with
  | nil => rfl
  | cons event rest ih => exact congrArg (event.links live ∪ ·) (ih (event.after live))

theorem after_append (one other : Course) (live : Set Node) :
    after scope (one ++ other) live = after scope other (after scope one live) := by
  induction one generalizing live with
  | nil => rfl
  | cons mark rest ih => exact ih (mark.after scope live)

theorem links_append (one other : Course) (live : Set Node) :
    links scope (one ++ other) live = links scope one live ∪ links scope other (after scope one live) := by
  induction one generalizing live with
  | nil => simp [links, after]
  | cons mark rest ih => simp only [List.cons_append, links, ih, after, Set.union_assoc]

end Course

/-- The executions of a route are its runs: each run leaves something out in some way. -/
theorem Route.Takes.runs {scope : ScopeId} {route : Route} {exit : Exit} {course : Course}
    (takes : route.Takes scope exit course) : route.Runs scope exit (Course.trace course) := by
  induction takes with
  | stay => exact .stay
  | cut => exact .cut
  | step action =>
    rw [Course.trace_events]
    exact .step action
  | seq _ _ ihStart ihBehind =>
    rw [Course.trace_append]
    exact .seq ihStart ihBehind
  | stop _ early ih =>
    rw [Course.trace_skip]
    exact .stop ih early
  | left _ ih =>
    rw [Course.trace_part_alone]
    exact .left ih
  | right _ ih =>
    rw [Course.trace_part_alone]
    exact .right ih
  | attempt _ ih =>
    rw [Course.trace_part_alone]
    exact .attempt ih
  | caught _ ih =>
    rw [Course.trace_part_alone]
    exact .caught ih
  | ensure _ _ ihStart ihBehind =>
    rw [Course.trace_append]
    exact .ensure ihStart ihBehind
  | replace _ _ early ihStart ihBehind =>
    rw [Course.trace_append]
    exact .replace ihStart ihBehind early
  | finish _ _ ihStart ihBehind =>
    rw [Course.trace_append]
    exact .finish ihStart ihBehind
  | broken _ ih =>
    rw [Course.trace_skip]
    exact .broken ih
  | escape _ early further ih =>
    rw [Course.trace_skip]
    exact .escape ih early further
  | done => exact .done
  | again _ further _ ihPass ihBehind =>
    rw [Course.trace_part]
    exact .again ihPass further ihBehind
  | leave _ last ih =>
    rw [Course.trace_part_alone]
    exact .leave ih last
  | aside _ ih => exact .aside ih
  | function id name line body => exact .function id name line body
  | jump exit => exact .jump exit

theorem Route.Runs.takes {scope : ScopeId} {route : Route} {exit : Exit} {trace : Trace}
    (runs : route.Runs scope exit trace) : ∃ course, route.Takes scope exit course ∧ Course.trace course = trace := by
  induction runs with
  | stay => exact ⟨_, .stay, rfl⟩
  | cut => exact ⟨_, .cut, rfl⟩
  | step action => exact ⟨_, .step action, Course.trace_events _⟩
  | seq _ _ ihStart ihBehind =>
    obtain ⟨one, start, rfl⟩ := ihStart
    obtain ⟨other, behind, rfl⟩ := ihBehind
    exact ⟨_, .seq start behind, Course.trace_append one other⟩
  | stop _ early ih =>
    obtain ⟨course, start, rfl⟩ := ih
    exact ⟨_, .stop start early, Course.trace_skip course _⟩
  | left _ ih =>
    obtain ⟨course, way, rfl⟩ := ih
    exact ⟨_, .left way, Course.trace_part_alone _ course⟩
  | right _ ih =>
    obtain ⟨course, way, rfl⟩ := ih
    exact ⟨_, .right way, Course.trace_part_alone _ course⟩
  | attempt _ ih =>
    obtain ⟨course, whole, rfl⟩ := ih
    exact ⟨_, .attempt whole, Course.trace_part_alone _ course⟩
  | caught _ ih =>
    obtain ⟨course, part, rfl⟩ := ih
    exact ⟨_, .caught part, Course.trace_part_alone _ course⟩
  | ensure _ _ ihStart ihBehind =>
    obtain ⟨one, start, rfl⟩ := ihStart
    obtain ⟨other, behind, rfl⟩ := ihBehind
    exact ⟨_, .ensure start behind, Course.trace_append one other⟩
  | replace _ _ early ihStart ihBehind =>
    obtain ⟨one, start, rfl⟩ := ihStart
    obtain ⟨other, behind, rfl⟩ := ihBehind
    exact ⟨_, .replace start behind early, Course.trace_append one other⟩
  | finish _ _ ihStart ihBehind =>
    obtain ⟨one, start, rfl⟩ := ihStart
    obtain ⟨other, behind, rfl⟩ := ihBehind
    exact ⟨_, .finish start behind, Course.trace_append one other⟩
  | broken _ ih =>
    obtain ⟨course, start, rfl⟩ := ih
    exact ⟨_, .broken start, Course.trace_skip course _⟩
  | escape _ early further ih =>
    obtain ⟨course, start, rfl⟩ := ih
    exact ⟨_, .escape start early further, Course.trace_skip course _⟩
  | done => exact ⟨_, .done, rfl⟩
  | again _ further _ ihPass ihBehind =>
    obtain ⟨one, pass, rfl⟩ := ihPass
    obtain ⟨rest, behind, rfl⟩ := ihBehind
    exact ⟨_, .again pass further behind, Course.trace_part _ one rest⟩
  | leave _ last ih =>
    obtain ⟨course, pass, rfl⟩ := ih
    exact ⟨_, .leave pass last, Course.trace_part_alone _ course⟩
  | aside _ ih =>
    obtain ⟨inner, within, rfl⟩ := ih
    exact ⟨_, .aside within, rfl⟩
  | function id name line body => exact ⟨_, .function id name line body, rfl⟩
  | jump exit => exact ⟨_, .jump exit, rfl⟩

mutual
/-- What is spared is live in the execution itself. -/
theorem Mark.after_trace (scope : ScopeId) : ∀ (mark : Mark) {live larger : Set Node}, live ⊆ larger →
    mark.after scope live ⊆ Trace.after mark.trace larger
  | .event event, _, _, within, _, there => event.after_mono (@within _) there
  | .aside _, _, _, within, _, there => within there
  | .skip _, _, _, within, _, there => within there.1
  | .part _ inner, _, _, within, _, .inl there => Course.after_trace scope inner within there
  | .part _ _, _, _, within, _, .inr there => Trace.after_mono (@within _) there.2.1

theorem Course.after_trace (scope : ScopeId) : ∀ (course : List Mark) {live larger : Set Node}, live ⊆ larger →
    Course.after scope course live ⊆ Trace.after (Course.trace course) larger
  | [], _, _, within => within
  | mark :: rest, live, larger, within => by
    simp only [Course.trace, Trace.after_append]
    exact Course.after_trace scope rest (mark.after_trace scope within)
end

mutual
/-- The links of a course are links of the execution itself. -/
theorem Mark.links_trace (scope : ScopeId) : ∀ (mark : Mark) {live larger : Set Node}, live ⊆ larger →
    mark.links scope live ⊆ Trace.links mark.trace larger
  | .event event, _, _, within, _, linked => .inl (event.links_mono (@within _) linked)
  | .aside inner, _, _, within, _, linked => .inl (Course.links_trace scope inner within linked)
  | .part _ inner, _, _, within, _, linked => Course.links_trace scope inner within linked

theorem Course.links_trace (scope : ScopeId) : ∀ (course : List Mark) {live larger : Set Node}, live ⊆ larger →
    Course.links scope course live ⊆ Trace.links (Course.trace course) larger
  | [], _, _, _ => Set.empty_subset _
  | mark :: rest, live, larger, within => by
    simp only [Course.links, Course.trace, Trace.links_append]
    exact Set.union_subset_union (mark.links_trace scope within)
      (Course.links_trace scope rest (mark.after_trace scope within))
end

/-- A view behind a course. -/
def Course.seen (scope : ScopeId) (course : Course) (view : View) : View :=
  ⟨Course.after scope course view.live, view.edges ∪ Course.links scope course view.live, view.pins⟩

theorem Course.seen_append (scope : ScopeId) (one other : Course) (view : View) :
    seen scope (one ++ other) view = seen scope other (seen scope one view) := by
  simp only [seen, after_append, links_append, Set.union_assoc]

namespace Route

variable {scope : ScopeId} {nested : Node → Node → Prop} {pinned : List Node} {view : View}

/-- What is left out is passed on some way that spares what has to be kept. -/
theorem explained_skip (rest : Route) : View.Explained (rest.traces scope pinned) nested view
    (Course.seen scope [.skip rest] view) := by
  refine ⟨fun node there => ?_, fun definition occurrence edge => ?_⟩
  · obtain ⟨old, trace, member, spared⟩ := there
    have none : node ∈ [] → node ∈ pinned := fun none => absurd none List.not_mem_nil
    obtain ⟨twin, through, alike⟩ := rest.imitated none member
    refine ⟨twin, through, Trace.after_mono (fun same => ?_) (alike.after _ spared)⟩
    rw [Set.mem_singleton_iff.mp same]
    exact old
  · rcases edge with old | none | none
    · exact .inl old
    · exact none.elim
    · exact none.elim

/-- A part is passed as it was, or in another way. -/
theorem explained_part {way : Route} {inner : Course}
    (whole : View.Explained (way.traces scope pinned) nested view (Course.seen scope inner view)) :
    View.Explained (way.traces scope pinned) nested view (Course.seen scope [.part way inner] view) := by
  refine ⟨fun node there => ?_, fun definition occurrence edge => ?_⟩
  · rcases there with kept | ⟨old, _, spared⟩
    · exact whole.live node kept
    · have passed : View.Explained (way.traces scope pinned) nested view (Course.seen scope [.skip way] view) :=
        explained_skip way
      exact passed.live node ⟨old, spared⟩
  · rcases edge with old | linked | none
    · exact .inl old
    · exact whole.edges definition occurrence (.inr linked)
    · exact none.elim

/-- One part of a course behind another. -/
theorem explained_append {first second : Language Event} {one other : Course} (some_first : ∃ trace, trace ∈ first)
    (some_second : ∃ trace, trace ∈ second)
    (start : View.Explained first nested view (Course.seen scope one view))
    (behind : ∀ view, View.Explained second nested view (Course.seen scope other view)) :
    View.Explained (first * second) nested view (Course.seen scope (one ++ other) view) := by
  rw [Course.seen_append]
  exact start.seq (behind _) some_first some_second

/-- What an execution keeps and connects beside what it leaves out, some trace does. -/
theorem Takes.explained {route : Route} {exit : Exit} {course : Course} (takes : route.Takes scope exit course) :
    ∀ (pinned : List Node) (view : View),
      View.Explained (route.traces scope pinned) nested view (Course.seen scope course view) := by
  have through (route : Route) (pinned : List Node) := route.traces_nonempty scope pinned
  have still (view : View) : Course.seen scope [] view = view := by simp [Course.seen, Course.after, Course.links]
  induction takes with
  | stay | function | jump =>
    intro pinned view
    rw [still]
    exact .refl view rfl
  | done =>
    intro pinned view
    rw [still]
    exact .refl view (Language.nil_mem_kstar _)
  | cut => exact fun pinned view => explained_skip _
  | step action =>
    intro pinned view
    have alike (node : Node) :
        Trace.Imitates node (action.event? scope []).toList (action.event? scope pinned).toList :=
      action.imitates fun none => absurd none List.not_mem_nil
    refine ⟨fun node there => ⟨_, rfl, (alike node).after _ ?_⟩, fun definition occurrence edge => ?_⟩
    · rw [← Course.after_events]
      exact there
    · rcases edge with old | linked
      · exact .inl old
      · rw [Course.links_events] at linked
        exact .inr (.inl ⟨_, rfl, (alike definition).links _ _ linked⟩)
  | seq _ _ ihStart ihBehind | ensure _ _ ihStart ihBehind | replace _ _ _ ihStart ihBehind
  | finish _ _ ihStart ihBehind =>
    intro pinned view
    exact explained_append (through _ _) (through _ _) (ihStart pinned view) (ihBehind _)
  | stop _ _ ih | broken _ ih | escape _ _ _ ih =>
    intro pinned view
    exact explained_append (through _ _) (through _ _) (ih pinned view) fun _ => explained_skip _
  | left _ ih =>
    intro pinned view
    exact explained_part ((ih pinned view).mono (fun _ member => .inl member) fun _ _ inner => inner)
  | right _ ih =>
    intro pinned view
    exact explained_part ((ih _ view).mono (fun _ member => .inr member) fun _ _ inner => inner)
  | attempt _ ih | caught _ ih =>
    intro pinned view
    exact explained_part ((ih pinned view).mono (fun _ member => .inr member) fun _ _ inner => inner)
  | @again body _ _ one rest _ _ _ ihPass ihBehind =>
    intro pinned view
    let language := body.traces scope (body.bindings scope ++ pinned)
    have one_pass : language ≤ language∗ := le_kstar
    have both : language∗ * language∗ = language∗ := kstar_mul_kstar language
    have pass : View.Explained ((Route.loop body).traces scope pinned) nested view (Course.seen scope one view) :=
      (ihPass _ view).mono (fun _ member => one_pass member) fun _ _ inner => inner
    have whole := explained_append (through (.loop body) pinned) (through (.loop body) pinned)
      (explained_part pass) (ihBehind pinned)
    exact whole.mono (fun _ member => both.le member) fun _ _ inner => inner
  | @leave body _ course _ _ ih =>
    intro pinned view
    let language := body.traces scope (body.bindings scope ++ pinned)
    have one_pass : language ≤ language∗ := le_kstar
    exact explained_part ((ih _ view).mono (fun _ member => one_pass member) fun _ _ inner => inner)
  | @aside body _ inner _ ih =>
    intro pinned view
    have same : Course.seen scope [.aside inner] view = (Course.seen scope inner view).withLive view.live := by
      simp [Course.seen, Course.after, Mark.after, Course.links, Mark.links, View.withLive]
    rw [same]
    exact (ih pinned view).aside (through body pinned)

end Route

/-- Every execution of the script or a function is a course. What an ordinary definition reaches on it beside all that
is left out, it reaches on the execution itself, and there is an edge. -/
theorem Program.edge_of_takes (program : Program) (settings : Settings) {region : Region}
    (member : region ∈ program.withIds.1.regions) {exit : Exit} {trace : Trace}
    (runs : region.body.Runs region.scope exit trace) :
    (∃ course, region.body.Takes region.scope exit course ∧ Course.trace course = trace) ∧
      ∀ course, region.body.Takes region.scope exit course → Course.trace course = trace →
        ∀ definition occurrence, definition.isBinding = false →
          (definition, occurrence) ∈ Course.links region.scope course {node | node ∈ region.start} →
          (definition, occurrence) ∈ Trace.links trace {node | node ∈ region.start} ∧
            (definition, occurrence) ∈ (program.resolve settings).analysis.graph.links := by
  refine ⟨runs.takes, ?_⟩
  rintro course takes rfl definition occurrence ordinary linked
  refine ⟨Course.links_trace region.scope course subset_rfl linked, ?_⟩
  let start : View := ⟨{node | node ∈ region.start}, ∅, fun _ _ => none⟩
  have explained : View.Explained _ (fun _ _ => False) start _ := takes.explained [] start
  rcases explained.edges definition occurrence (.inr linked) with none | ⟨trace, through, found⟩ | none
  · exact none.elim
  · exact program.edge_of_reaches settings member ⟨trace, through, found⟩ (Node.sole_of_ordinary ordinary _)
  · exact none.elim

/-- A loop defines a name, and is broken off before it defines another one. -/
def Program.brokenOff (name : String) : Program :=
  ⟨[.whileLoop 1 (.literal 1 (.logical true))
      [.assign 2 [.ident 2 (.named "x")] (.literal 2 (.logical true)), .word 3 .break,
        .assign 4 [.ident 4 (.named name)] (.literal 4 (.logical true))],
    .expression 6 (.ident 6 (.named "x"))]⟩

/-- A statement that assigns to a name. -/
theorem Route.takes_assign (scope : ScopeId) (id : IdentId) (name : String) (line : SourceLine) :
    (Stmt.route (.assign line [.ident line (.mk name none .unknown false (some id))]
      (.literal line (.logical true)))).Takes scope .completed
        [.event (.define (.occurrence id name .definition) [])] :=
  .seq .stay (.seq (.seq (.step (.define id name line .definition)) .stay) .stay)

section
variable (name : String)

/-- What is left out behind the break. -/
def Route.behindBreak : Route :=
  .seq (Stmt.route (.assign 4 [.ident 4 (.mk name none .unknown false (some 1))] (.literal 4 (.logical true)))) .stay

def Course.brokenOff (loop : Route) : Course :=
  [.part loop [.event (.define (.occurrence 0 "x" .definition) []), .skip (Route.behindBreak name), .skip .stay],
    .skip .stay, .event (.use (.occurrence 2 "x" .use))]

theorem Program.takes_brokenOff : ∃ loop, (brokenOff name).withIds.1.route.Takes ScopeTable.script .completed
    (Course.brokenOff name loop) := by
  have pass : Route.Takes ScopeTable.script
      (.seq .stay (.seq (.seq (Stmt.route (.assign 2 [.ident 2 (.mk "x" none .unknown false (some 0))]
        (.literal 2 (.logical true)))) (.seq (.jump .broken) (Route.behindBreak name))) .stay)) .broken
      [.event (.define (.occurrence 0 "x" .definition) []), .skip (Route.behindBreak name), .skip .stay] :=
    .seq .stay (.stop (.seq (Route.takes_assign _ 0 "x" 2) (.stop (.jump .broken) (by decide))) (by decide))
  have used : Route.Takes ScopeTable.script (.seq (.step (.use 2 "x" 6 false false)) .stay) .completed
      [.event (.use (.occurrence 2 "x" .use))] := .seq (.step _) .stay
  exact ⟨_, .seq (.seq (.broken (.leave pass rfl)) used) .stay⟩

end

/-- The break leaves nothing out that concerns the name. -/
theorem Program.edge_of_brokenOff : (.occurrence 0 "x" .definition, .occurrence 2 "x" .use) ∈
    ((brokenOff "y").resolve {}).analysis.graph.links := by
  obtain ⟨loop, takes⟩ := takes_brokenOff "y"
  have still : Route.Spares ScopeTable.script .stay (.occurrence 0 "x" .definition) := ⟨[], rfl, rfl⟩
  have other : Route.Spares ScopeTable.script (Route.behindBreak "y") (.occurrence 0 "x" .definition) := by
    refine ⟨[.define (.occurrence 1 "y" .definition) []], ?_, .inr (.inr ⟨rfl, by decide⟩)⟩
    exact ⟨_, ⟨[], rfl, _, ⟨_, ⟨_, rfl, [], rfl, rfl⟩, [], rfl, rfl⟩, rfl⟩, [], rfl, rfl⟩
  have member : ⟨ScopeTable.script, [], (brokenOff "y").withIds.1.route, false⟩ ∈ (brokenOff "y").withIds.1.regions :=
    List.mem_cons_self
  refine (((brokenOff "y").edge_of_takes {} member takes.runs).2 _ takes rfl _ _ rfl ?_).2
  exact .inr (.inr (.inl ⟨rfl, ⟨.inl ⟨⟨.inl rfl, other⟩, still⟩, still⟩, rfl⟩))

/-- An error comes before a try body replaces a definition, and what takes it up reads the name. -/
def Program.failsEarly : Program :=
  ⟨[.attempt 1 [.assign 2 [.ident 2 (.named "x")] (.literal 2 (.logical true)), .expression 3 (.ident 3 (.named "f")),
      .assign 4 [.ident 4 (.named "x")] (.literal 4 (.logical true))]
    (.present none [.expression 6 (.ident 6 (.named "x"))]) none]⟩

theorem Program.runs_failsEarly : failsEarly.withIds.1.route.Runs ScopeTable.script .completed
    [.define (.occurrence 0 "x" .definition) [], .use (.occurrence 1 "f" .use), .use (.occurrence 3 "x" .use)] := by
  have body (rest : Route) : Route.Runs ScopeTable.script
      (.seq (Stmt.route (.assign 2 [.ident 2 (.mk "x" none .unknown false (some 0))] (.literal 2 (.logical true))))
        (.seq (.step (.use 1 "f" 3 false false)) rest)) .abandoned
      [.define (.occurrence 0 "x" .definition) [], .use (.occurrence 1 "f" .use)] :=
    .seq (Route.takes_assign _ 0 "x" 2).runs (.seq (.step _) .cut)
  have handler : Route.Runs ScopeTable.script
      (.fork .stay (.seq .stay (.seq (.seq (.step (.use 3 "x" 6 false false)) .stay) .stay))) .completed
      [.use (.occurrence 3 "x" .use)] := .right (.seq .stay (.seq (.seq (.step _) .stay) .stay))
  exact .seq (.seq (.ensure (.seq (.caught (.stop (body _) (by decide))) handler) .stay) .stay) .stay

theorem DefUse.Graph.mem_links {graph : Graph} {definition occurrence : Node} :
    (definition, occurrence) ∈ graph.links ↔ ∃ edge ∈ graph.edges,
      graph.node? edge.1 = some definition ∧ graph.node? edge.2 = some occurrence := by
  simp [links]

/-- An execution may take a definition past the one that would replace it. The walk knows no jumps, and there is no
edge: behind a break, and where an error is taken up. -/
theorem Program.execution_without_edge :
    ((∃ region ∈ (brokenOff "x").withIds.1.regions, ∃ exit trace, region.body.Runs region.scope exit trace ∧
        (.occurrence 0 "x" .definition, .occurrence 2 "x" .use) ∈ Trace.links trace {node | node ∈ region.start}) ∧
      (.occurrence 0 "x" .definition, .occurrence 2 "x" .use) ∉
        ((brokenOff "x").resolve {}).analysis.graph.links) ∧
    (∃ region ∈ failsEarly.withIds.1.regions, ∃ exit trace, region.body.Runs region.scope exit trace ∧
        (.occurrence 0 "x" .definition, .occurrence 3 "x" .use) ∈ Trace.links trace {node | node ∈ region.start}) ∧
      (.occurrence 0 "x" .definition, .occurrence 3 "x" .use) ∉
        (failsEarly.resolve {}).analysis.graph.links := by
  obtain ⟨loop, takes⟩ := takes_brokenOff "x"
  refine ⟨⟨⟨_, List.mem_cons_self, .completed, _, takes.runs, ?_⟩, ?_⟩,
    ⟨_, List.mem_cons_self, .completed, _, runs_failsEarly, ?_⟩, ?_⟩
  · exact .inr (.inl ⟨rfl, .inl rfl, rfl⟩)
  · rw [Graph.mem_links]
    show ¬∃ edge ∈ ((brokenOff "x").withIds.1.findings (walkLimit (brokenOff "x").withIds.2)).graph.edges, _
    decide
  · exact .inr (.inr (.inl ⟨rfl, .inl rfl, rfl⟩))
  · rw [Graph.mem_links]
    show ¬∃ edge ∈ (failsEarly.withIds.1.findings (walkLimit failsEarly.withIds.2)).graph.edges, _
    decide

end ArrayLift
