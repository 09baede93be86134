import ArrayLift.Proofs.Reaching.WellFormed

/-! What is declared global or persistent stays reachable. However often a name gets new values behind its
declaration, the definition behind the declaration reaches every use and every partial definition on the trace,
also where the trace comes to the declaration through the end of a loop. -/
namespace ArrayLift

open DefUse
open scoped Computability

mutual
/-- What reads a name at an event. -/
def Event.reads : Event → Set Node
  | .use node | .update node => {node}
  | .aside inner => Trace.reads inner
  | .define .. | .declare .. => ∅

def Trace.reads : List Event → Set Node
  | [] => ∅
  | event :: rest => event.reads ∪ Trace.reads rest
end

/-- The event does not take a live definition away: a new value of its name is put beside it, and a declaration
of its name is one with it. -/
def Event.Spares (binding : Node) : Event → Prop
  | .define node pinned => node.name = binding.name → binding ∈ pinned
  | .declare node other => node.name = binding.name → other = binding
  | .use _ | .update _ | .aside _ => True

section
variable {binding : Node}

theorem Event.after_spares (event : Event) (spares : event.All (Event.Spares binding)) {live : Set Node}
    (there : binding ∈ live) : binding ∈ event.after live := by
  cases event with
  | use | aside => exact there
  | update node => exact .inr there
  | define node pinned =>
    by_cases same : node.name = binding.name
    · exact .inr (.inl ⟨same.symm, spares same⟩)
    · exact .inr (.inr ⟨there, Ne.symm same⟩)
  | declare node other =>
    by_cases same : node.name = binding.name
    · exact .inl (spares same).symm
    · exact .inr ⟨there, Ne.symm same⟩

theorem Trace.after_spares {trace : Trace} (spares : Trace.All (Event.Spares binding) trace) {live : Set Node}
    (there : binding ∈ live) : binding ∈ Trace.after trace live := by
  induction trace generalizing live with
  | nil => exact there
  | cons event rest ih => exact ih spares.2 (event.after_spares spares.1 there)

mutual
/-- A live definition that is not taken away reaches what reads its name. -/
theorem Event.links_spares : ∀ (event : Event) {live : Set Node} {occurrence : Node},
    event.All (Event.Spares binding) → binding ∈ live → occurrence ∈ event.reads → binding.name = occurrence.name →
      (binding, occurrence) ∈ event.links live
  | .use _, _, _, _, there, rfl, named | .update _, _, _, _, there, rfl, named => ⟨rfl, there, named⟩
  | .aside inner, _, _, spares, there, read, named => Trace.links_spares inner spares there read named

theorem Trace.links_spares : ∀ (trace : List Event) {live : Set Node} {occurrence : Node},
    Trace.All (Event.Spares binding) trace → binding ∈ live → occurrence ∈ Trace.reads trace →
      binding.name = occurrence.name → (binding, occurrence) ∈ Trace.links trace live
  | event :: _, _, _, spares, there, .inl here, named => .inl (Event.links_spares event spares.1 there here named)
  | event :: rest, _, _, spares, there, .inr later, named =>
    .inr (Trace.links_spares rest spares.2 (event.after_spares spares.1 there) later named)
end

end

namespace Route

variable {scope : ScopeId} {binding : Node}

/-- A declaration at a step stands among the declarations of the route. -/
theorem mem_bindings_of_event {route : Route} {action : Step} (own : action ∈ route.steps) {listed : List Node}
    {node other : Node} (happens : action.event? scope listed = some (.declare node other)) :
    other ∈ route.bindings scope ∧ other.name = node.name := by
  cases action with
  | use | checkArity => cases happens
  | define id name line kind =>
    by_cases part : kind = .partialDefinition <;> simp [Step.event?, part] at happens
  | declare declaration id name line =>
    cases happens
    exact ⟨mem_bindings.mpr ⟨declaration, id, name, line, own, rfl⟩, Node.name_binding declaration scope name⟩

/-- Where a declaration counts from the start, nothing takes its definition away. -/
theorem spares_pinned (route : Route) {pinned : List Node} (counts : binding ∈ pinned)
    (sole : ∀ other ∈ route.bindings scope, other.name = binding.name → other = binding) {trace : Trace}
    (member : trace ∈ route.traces scope pinned) : Trace.All (Event.Spares binding) trace := by
  refine route.all_events (fun action own listed more _ event happens => ?_) member
  cases event with
  | use | update | aside => trivial
  | declare node other =>
    obtain ⟨declared, named⟩ := mem_bindings_of_event own happens
    exact fun same => sole other declared (named.trans same)
  | define node beside =>
    intro _
    cases action with
    | use | declare | checkArity => cases happens
    | define id name line kind =>
      by_cases part : kind = .partialDefinition
      · simp [Step.event?, part] at happens
      · simp only [Step.event?, part, if_false] at happens
        cases happens
        exact more counts

/-- The declarations on a trace stand on its route. -/
theorem bindings_of_trace (route : Route) {pinned : List Node} {trace : Trace} {node other : Node}
    (member : trace ∈ route.traces scope pinned) (declared : .declare node other ∈ trace) :
    other ∈ route.bindings scope ∧ other.name = node.name := by
  have all : Trace.All (fun event => ∀ node other, event = .declare node other →
      other ∈ route.bindings scope ∧ other.name = node.name) trace :=
    route.all_events (fun action own listed _ _ event happens node other same =>
      mem_bindings_of_event own (same ▸ happens)) member
  obtain ⟨before, after, rfl⟩ := List.append_of_mem declared
  exact all.right.1 node other rfl

end Route

/-- An event on a trace of two parts is on the first or on the second. -/
theorem Trace.split {one other before after : Trace} {event : Event} (same : one ++ other = before ++ event :: after) :
    (∃ rest, one = before ++ event :: rest ∧ after = rest ++ other) ∨ ∃ start, other = start ++ event :: after := by
  rcases List.append_eq_append_iff.mp same with ⟨start, _, found⟩ | ⟨rest, first, found⟩
  · exact .inr ⟨start, found⟩
  · cases rest with
    | nil => exact .inr ⟨[], found.symm⟩
    | cons head rest =>
      obtain ⟨rfl, rfl⟩ := List.cons.inj found
      exact .inl ⟨rest, first, rfl⟩

/-- Behind a declaration on a trace, nothing takes its definition away. -/
theorem Route.spares_behind {scope : ScopeId} {binding : Node} (route : Route) :
    ∀ {pinned : List Node} {node : Node} {before after : Trace},
      (∀ other ∈ route.bindings scope, other.name = binding.name → other = binding) →
      before ++ .declare node binding :: after ∈ route.traces scope pinned →
      Trace.All (Event.Spares binding) after := by
  induction route with
  | stay | jump _ | function _ _ _ _ _ =>
    intro pinned node before after sole member
    have empty : before ++ .declare node binding :: after = [] := member
    simp at empty
  | step action =>
    intro pinned node before after sole member
    have same : before ++ .declare node binding :: after = (action.event? scope pinned).toList := member
    cases happens : action.event? scope pinned with
    | none => simp [happens] at same
    | some event =>
      obtain ⟨_, rest⟩ : before = [] ∧ after = [] := by
        simp only [happens, Option.toList_some, List.append_eq_singleton_iff, List.cons.injEq, reduceCtorEq,
          and_false, or_false] at same
        exact ⟨same.1, same.2.2⟩
      rw [rest]
      trivial
  | seq first second ihFirst ihSecond | ensure first second ihFirst ihSecond
  | finish first second ihFirst ihSecond =>
    intro pinned node before after sole member
    obtain ⟨one, inFirst, other, inSecond, same⟩ := Language.mem_mul.mp member
    have soleSecond : ∀ other ∈ second.bindings scope, other.name = binding.name → other = binding :=
      fun other there => sole other (List.mem_append_right _ there)
    rcases Trace.split same with ⟨rest, rfl, rfl⟩ | ⟨start, rfl⟩
    · obtain ⟨declared, _⟩ := first.bindings_of_trace inFirst (List.mem_append_right _ List.mem_cons_self)
      exact (ihFirst (fun other there => sole other (List.mem_append_left _ there)) inFirst).append
        (second.spares_pinned (List.mem_append_left _ declared) soleSecond inSecond)
    · exact ihSecond soleSecond inSecond
  | fork left right ihLeft ihRight =>
    intro pinned node before after sole member
    rcases member with inLeft | inRight
    · exact ihLeft (fun other there => sole other (List.mem_append_left _ there)) inLeft
    · exact ihRight (fun other there => sole other (List.mem_append_right _ there)) inRight
  | attempt body ih =>
    intro pinned node before after sole member
    rcases member with skipped | inBody
    · have empty : before ++ .declare node binding :: after = [] := skipped
      simp at empty
    · exact ih sole inBody
  | loop body ih =>
    intro pinned node before after sole member
    -- The whole loop starts with the declarations of its body, so no pass needs to be told from another.
    obtain ⟨declared, _⟩ := (Route.loop body).bindings_of_trace member (List.mem_append_right _ List.mem_cons_self)
    obtain ⟨passes, same, inside⟩ := Language.mem_kstar.mp member
    have all : Trace.All (Event.Spares binding) passes.flatten := Trace.All.flatten fun pass there =>
      body.spares_pinned (List.mem_append_left _ declared) sole (inside pass there)
    rw [← same] at all
    exact all.right.2
  | aside body ih =>
    intro pinned node before after sole member
    obtain ⟨inner, _, same⟩ := member
    simp only [List.append_eq_singleton_iff, List.cons.injEq, reduceCtorEq, false_and, and_false, or_false] at same

namespace Program

variable (program : Program) (settings : Settings)

/-- The definition behind the declarations of a name reaches what a trace reads behind one of them. -/
theorem edge_of_declared {region : Region} (member : region ∈ program.withIds.1.regions) {binding : Node}
    (sole : ∀ other ∈ region.body.bindings region.scope, other.name = binding.name → other = binding)
    {before after : Trace} {event : Event} (trace : before ++ event :: after ∈ region.body.traces region.scope [])
    {node other : Node} (declared : .declare node other ∈ before) (named : node.name = binding.name)
    {occurrence : Node} (read : occurrence ∈ event.reads) (called : binding.name = occurrence.name) :
    (binding, occurrence) ∈ (program.resolve settings).analysis.graph.links := by
  obtain ⟨stands, same⟩ := region.body.bindings_of_trace trace (List.mem_append_left _ declared)
  obtain rfl : other = binding := sole other stands (same.trans named)
  obtain ⟨start, rest, rfl⟩ := List.append_of_mem declared
  rw [List.append_assoc] at trace
  have spares : Trace.All (Event.Spares other) (rest ++ event :: after) := region.body.spares_behind sole trace
  refine program.edge_of_reaches settings member ⟨_, trace, ?_⟩ fun _ => sole
  rw [Trace.links_append]
  have later {live : Set Node} (there : other ∈ live) :
      (other, occurrence) ∈ Trace.links (rest ++ event :: after) live := by
    rw [Trace.links_append]
    exact .inr (.inl (event.links_spares spares.right.1 (Trace.after_spares spares.left there) read called))
  exact .inr (.inr (later (.inl rfl)))

/-- The definition behind a declaration has a node. -/
theorem node_of_binding {region : Region} (member : region ∈ program.withIds.1.regions) {binding : Node}
    (declared : binding ∈ region.body.bindings region.scope) :
    ∃ index, (program.resolve settings).analysis.graph.node? index = some binding := by
  obtain ⟨declaration, id, name, line, own, rfl⟩ := Route.mem_bindings.mp declared
  have visited : (region.scope, Step.declare declaration id name line) ∈
      program.withIds.1.route.places ScopeTable.script 1 := program.place_of_step member own
  have declared : (.binding declaration region.scope name, .occurrence id name .declaration) ∈
      program.withIds.1.declarations := Route.mem_declarations.mpr ⟨_, visited, rfl⟩
  obtain ⟨source, _, _, there, _⟩ := program.link_of_declaration settings declared
  exact ⟨source, there⟩

end Program

/-- Assignments leave what is declared global or persistent in reach. In a scope that declares a name in one way
only, every use and every partial definition of the name that some trace comes to behind a declaration of it has an
edge from the definition behind the declarations. There is one node for that definition, shared by all scopes that
declare the name global; the persistent definitions of different scopes have different ones. -/
theorem Program.binding_reaches (program : Program) (settings : Settings) :
    let graph := (program.resolve settings).analysis.graph
    let regions := program.withIds.1.regions
    (∀ region ∈ regions, ∀ binding : Node,
      (∀ other ∈ region.body.bindings region.scope, other.name = binding.name → other = binding) →
      ∀ before event after, before ++ event :: after ∈ region.body.traces region.scope [] →
        (∃ node other, .declare node other ∈ before ∧ node.name = binding.name) →
        ∀ occurrence ∈ event.reads, occurrence.name = binding.name → (binding, occurrence) ∈ graph.links) ∧
    (∀ region ∈ regions, ∀ binding ∈ region.body.bindings region.scope,
      ∃! index, graph.node? index = some binding) ∧
    (∀ one ∈ regions, ∀ other ∈ regions, ∀ declaration name first second,
      graph.node? first = some (.binding declaration one.scope name) →
      graph.node? second = some (.binding declaration other.scope name) →
      (first = second ↔ declaration = .global ∨ one.scope = other.scope)) := by
  intro graph regions
  have distinct : graph.Distinct := (program.findings_valid.1).distinct
  refine ⟨?_, ?_, ?_⟩
  · intro region member binding sole before event after trace met occurrence read called
    obtain ⟨node, other, declared, named⟩ := met
    exact program.edge_of_declared settings member sole trace declared named read called.symm
  · intro region member binding declared
    obtain ⟨index, there⟩ := program.node_of_binding settings member declared
    exact ⟨index, there, fun other also => distinct other index _ _ also there (Graph.sameSubject_self binding)⟩
  · intro one _ other _ declaration name first second atFirst atSecond
    cases declaration with
    | global =>
      simp only [true_or, iff_true]
      exact distinct first second _ _ atFirst atSecond (Graph.sameSubject_self _)
    | persistent =>
      constructor
      · rintro rfl
        exact .inr (Node.persistent.inj (Option.some.inj (atFirst.symm.trans atSecond))).1
      · rintro (same | same)
        · cases same
        · rw [same] at atFirst
          exact distinct first second _ _ atFirst atSecond (Graph.sameSubject_self _)

/-- A name is declared at the end of a loop, where the next pass gives it a value and reads it. -/
def Program.declaredBehind : Program :=
  ⟨[.whileLoop 1 (.literal 1 (.logical true))
    [.assign 2 [.ident 2 (.named "x")] (.literal 2 (.logical true)), .expression 3 (.ident 3 (.named "x")),
      .declare 4 .global [.named "x"]]]⟩

theorem Program.binding_reaches_declaredBehind : (.global "x", .occurrence 1 "x" .use) ∈
    (declaredBehind.resolve {}).analysis.graph.links := by
  let defined : Event := .define (.occurrence 0 "x" .definition) [.global "x"]
  let used : Event := .use (.occurrence 1 "x" .use)
  let declared : Event := .declare (.occurrence 2 "x" .declaration) (.global "x")
  have pass : [defined, used, declared] ∈ Route.traces ScopeTable.script
      (.seq .stay (.block (Stmt.routes (Stmt.withIdsList
        [.assign 2 [.ident 2 (.named "x")] (.literal 2 (.logical true)), .expression 3 (.ident 3 (.named "x")),
          .declare 4 .global [.named "x"]] 0).1))) [.global "x"] := by
    refine ⟨[], rfl, _, ⟨[defined, used, declared], ⟨[defined], ?_, [used, declared], ?_, rfl⟩, [], rfl, rfl⟩, rfl⟩
    · exact ⟨[], rfl, [defined], ⟨[defined], ⟨[defined], rfl, [], rfl, rfl⟩, [], rfl, rfl⟩, rfl⟩
    · exact ⟨[used], rfl, [declared], ⟨[declared], ⟨[declared], rfl, [], rfl, rfl⟩, [], rfl, rfl⟩, rfl⟩
  refine (declaredBehind.binding_reaches {}).1 _ List.mem_cons_self (.global "x") ?_
    [defined, used, declared, defined] used [declared] ?_
    ⟨.occurrence 2 "x" .declaration, .global "x", by simp [declared], rfl⟩ _ rfl rfl
  · intro other there _
    exact List.mem_singleton.mp there
  · refine ⟨_, ⟨_, ⟨[defined, used, declared, defined, used, declared], ?_, [], rfl, rfl⟩, [], rfl, rfl⟩, [], rfl, rfl⟩
    refine ⟨[[defined, used, declared], [defined, used, declared]], rfl, fun trace there => ?_⟩
    obtain rfl : trace = [defined, used, declared] := by simpa using there
    exact pass

end ArrayLift
