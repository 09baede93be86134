import ArrayLift.Proofs.Walk.Sound
import ArrayLift.Proofs.Walk.Representation

/-! The graph beside the table while a program is walked: every record that is not of the name of a function has
a node, no node stands for the name of a function, and no edge is drawn twice. The walk keeps this at every
place, however often it comes there. -/
namespace ArrayLift

open DefUse

namespace DefUse.Graph

/-- Some node stands for the occurrence with an identity. -/
def Has (graph : Graph) (id : IdentId) : Prop :=
  ∃ node ∈ graph.nodes, node.occurrence? = some id

structure Draws (graph : Graph) (occurrences : List Occurrence) : Prop where
  edges : graph.edges.Nodup
  recorded : ∀ occurrence ∈ occurrences, occurrence.kind ≠ .functionName → graph.Has occurrence.id
  plain : ∀ id name, .occurrence id name .functionName ∉ graph.nodes

variable {graph : Graph} {occurrences : List Occurrence}

theorem Draws.intern (draws : graph.Draws occurrences) {node : Node}
    (plain : ∀ id name, .occurrence id name .functionName ≠ node) : (graph.intern node).2.Draws occurrences := by
  obtain ⟨_, _, _, _, result⟩ | ⟨_, result⟩ := graph.intern_cases node
  · rwa [result]
  · rw [result]
    refine ⟨draws.edges, fun occurrence member named => ?_, fun id name member => ?_⟩
    · obtain ⟨other, there, same⟩ := draws.recorded occurrence member named
      exact ⟨other, List.mem_append_left _ there, same⟩
    · rcases List.mem_append.mp member with old | fresh
      · exact draws.plain id name old
      · exact plain id name (List.mem_singleton.mp fresh)

theorem has_intern (graph : Graph) (id : IdentId) (name : String) (kind : OccurrenceKind) :
    (graph.intern (.occurrence id name kind)).2.Has id := by
  obtain ⟨index, found, here, same, result⟩ | ⟨_, result⟩ := graph.intern_cases (.occurrence id name kind)
  · rw [result]
    refine ⟨found, List.mem_of_getElem? here, ?_⟩
    cases found <;> simp_all [Node.sameSubject, Node.occurrence?]
  · rw [result]
    exact ⟨_, List.mem_append_right _ (List.mem_singleton_self _), rfl⟩

theorem connectAll_nodes (sources : List NodeId) (graph : Graph) (target : NodeId) :
    (sources.foldl (fun graph source => graph.connect source target) graph).nodes = graph.nodes := by
  induction sources generalizing graph with
  | nil => rfl
  | cons source rest ih => rw [List.foldl_cons, ih, connect_nodes]

theorem connectAll_nodup (sources : List NodeId) (target : NodeId) (graph : Graph) (single : graph.edges.Nodup) :
    (sources.foldl (fun graph source => graph.connect source target) graph).edges.Nodup := by
  induction sources generalizing graph with
  | nil => exact single
  | cons source rest ih => exact ih (graph.connect source target) (nodup_connect single source target)

theorem Has.connectAll {id : IdentId} (has : graph.Has id) (sources : List NodeId) (target : NodeId) :
    (sources.foldl (fun graph source => graph.connect source target) graph).Has id := by
  unfold Has
  rw [connectAll_nodes]
  exact has

theorem Draws.connectAll (draws : graph.Draws occurrences) (sources : List NodeId) (target : NodeId) :
    (sources.foldl (fun graph source => graph.connect source target) graph).Draws occurrences := by
  refine ⟨connectAll_nodup sources target graph draws.edges, ?_, ?_⟩
  · exact fun occurrence member named => (draws.recorded occurrence member named).connectAll sources target
  · rw [connectAll_nodes]
    exact draws.plain

/-- What the table has after a record. -/
theorem mem_of_insertOccurrence {occurrence other : Occurrence} {table : List Occurrence}
    (member : other ∈ ScopeTable.insertOccurrence occurrence table) : other = occurrence ∨ other ∈ table := by
  induction table with
  | nil => exact .inl (List.mem_singleton.mp member)
  | cons first rest ih =>
    unfold ScopeTable.insertOccurrence at member
    split at member
    · exact List.mem_cons.mp member
    · split at member
      · exact .inr member
      · rcases List.mem_cons.mp member with rfl | later
        · exact .inr List.mem_cons_self
        · exact (ih later).imp_right (List.mem_cons_of_mem first)

theorem Draws.record (draws : graph.Draws occurrences) {occurrence : Occurrence}
    (known : occurrence.kind ≠ .functionName → graph.Has occurrence.id) :
    graph.Draws (ScopeTable.insertOccurrence occurrence occurrences) := by
  refine ⟨draws.edges, fun other member named => ?_, draws.plain⟩
  rcases mem_of_insertOccurrence member with rfl | old
  · exact known named
  · exact draws.recorded other old named

end DefUse.Graph

namespace Point

/-- The graph of a point has what its table has. -/
def Drawn (point : Point) : Prop :=
  point.findings.graph.Draws point.findings.table.occurrences

variable {point : Point} {scope : ScopeId}

theorem Drawn.use (drawn : point.Drawn) (id : IdentId) (name : String) (line : SourceLine)
    (indexed arrayOnly : Bool) : (point.use scope (.bare name (some id)) line indexed arrayOnly).Drawn := by
  have plain : ∀ other text, Node.occurrence other text .functionName ≠ .occurrence id name .use :=
    fun _ _ same => by cases same
  have has := (point.findings.graph.has_intern id name .use).connectAll (point.flow.definitions name)
    (point.findings.graph.intern (.occurrence id name .use)).1
  exact ((Graph.Draws.intern drawn plain).connectAll _ _).record fun _ => has

theorem Drawn.define (drawn : point.Drawn) (id : IdentId) (name : String) (line : SourceLine)
    {kind : OccurrenceKind} (source : kind.isSource = true) :
    (point.define scope (.bare name (some id)) line kind).Drawn := by
  have plain : ∀ other text, Node.occurrence other text .functionName ≠ .occurrence id name kind := by
    intro other text same
    cases same
    cases source
  have has := point.findings.graph.has_intern id name kind
  have interned := Graph.Draws.intern drawn plain
  simp only [Point.define, Ident.bare, Ident.id, Ident.name]
  split
  · have linked := has.connectAll (point.flow.definitions name)
      (point.findings.graph.intern (.occurrence id name kind)).1
    exact (interned.connectAll _ _).record fun _ => linked
  · exact interned.record fun _ => has

theorem Drawn.declare (drawn : point.Drawn) (declaration : Declaration) (id : IdentId) (name : String)
    (line : SourceLine) : (point.declare scope declaration (.bare name (some id)) line).Drawn := by
  have pinned (pin : Node) (ordinary : ∀ other text, Node.occurrence other text .functionName ≠ pin) :
      let pinned := point.findings.graph.intern pin
      let declared := pinned.2.intern (.occurrence id name .declaration)
      ([pinned.1].foldl (fun graph source => graph.connect source declared.1) declared.2).Draws
        (ScopeTable.insertOccurrence ⟨id, name, line, scope, .declaration, false, false, .unknown⟩
          point.findings.table.occurrences) := by
    have plain : ∀ other text, Node.occurrence other text .functionName ≠ .occurrence id name .declaration :=
      fun _ _ same => by cases same
    have interned := (Graph.Draws.intern drawn ordinary).intern plain
    have has := (point.findings.graph.intern pin).2.has_intern id name .declaration
    exact (interned.connectAll _ _).record fun _ => has.connectAll _ _
  simp only [Point.declare, Ident.bare, Ident.id, Ident.name, Point.intern, Point.connect, Point.record]
  cases declaration with
  | global => exact pinned (.global name) fun _ _ same => by cases same
  | persistent => exact pinned (.persistent scope name) fun _ _ same => by cases same

theorem Drawn.checkSource (drawn : point.Drawn) (line : SourceLine) (targets : Nat) (source : ValueSource) :
    (point.checkSource line targets source).Drawn := by
  cases source <;> exact drawn

theorem Drawn.functionScope (drawn : point.Drawn) (name : Ident) (line : SourceLine) :
    (point.functionScope name line).2.Drawn := by
  unfold Point.functionScope
  split
  · exact drawn
  · split <;> exact drawn

theorem Drawn.bindImplicit (drawn : point.Drawn) (inner : ScopeId) : (point.bindImplicit inner).Drawn := by
  have plain (name : String) : ∀ other text, Node.occurrence other text .functionName ≠ .implicit inner name :=
    fun _ _ same => by cases same
  exact (Graph.Draws.intern drawn (plain _)).intern (plain _)

theorem Drawn.entered {opened : ScopeId × Point} (drawn : opened.2.Drawn) :
    ((opened.2.withFlow .empty).bindImplicit opened.1).Drawn := by
  have cleared : (opened.2.withFlow .empty).Drawn := drawn
  exact cleared.bindImplicit opened.1

theorem Drawn.enterFunction (drawn : point.Drawn) (id : Option IdentId) (name : String) (line : SourceLine) :
    (point.enterFunction scope (.bare name id) [] line).2.Drawn := by
  cases id with
  | none => exact (drawn.functionScope (.bare name none) line).entered
  | some id =>
    have recorded : (point.record scope name id line .functionName false false).Drawn :=
      Graph.Draws.record drawn fun named => absurd rfl named
    exact (recorded.functionScope (.bare name (some id)) line).entered

/-- A loop keeps what each of its passes keeps. -/
theorem Drawn.walkLoop {body : Point → Point} (pass : ∀ point : Point, point.Drawn → (body point).Drawn)
    (entry : Flow) (walks : Nat) (drawn : point.Drawn) : (Point.walkLoop body entry walks point).Drawn := by
  induction walks generalizing point with
  | zero => exact drawn
  | succ walks ih =>
    simp only [Point.walkLoop]
    split
    · exact pass point drawn
    · exact ih (pass point drawn)

end Point

theorem Step.drawn (action : Step) (sound : action.Sound) {scope : ScopeId} {point : Point} (drawn : point.Drawn) :
    (action.walk scope point).Drawn := by
  cases action with
  | use id name line indexed arrayOnly => exact drawn.use id name line indexed arrayOnly
  | define id name line kind => exact drawn.define id name line sound
  | declare declaration id name line => exact drawn.declare declaration id name line
  | checkArity line targets source => exact drawn.checkSource line targets source

/-- Following a route keeps the graph and the table together. -/
theorem Route.drawn (limit : Nat) (route : Route) (sound : route.Sound) :
    ∀ {scope : ScopeId} {point : Point}, point.Drawn → (route.walk limit scope point).Drawn := by
  induction route with
  | stay | jump _ => exact fun drawn => drawn
  | step action => exact fun drawn => action.drawn sound drawn
  | seq first second ihFirst ihSecond | ensure first second ihFirst ihSecond
  | finish first second ihFirst ihSecond => exact fun drawn => ihSecond sound.2 (ihFirst sound.1 drawn)
  | fork left right ihLeft ihRight =>
    intro scope point drawn
    have back : ((left.walk limit scope point).withFlow point.flow).Drawn := ihLeft sound.1 drawn
    exact ihRight sound.2 back
  | attempt body ih | aside body ih => exact fun drawn => ih sound drawn
  | loop body ih => exact fun drawn => Point.Drawn.walkLoop (fun _ before => ih sound before) _ limit drawn
  | function id name line body ih => exact fun drawn => ih sound (drawn.enterFunction id name line)

end ArrayLift
