import ArrayLift.Proofs.Walk.Representation

/-! The invariant of a walk over a program with numbered identifiers: nodes, records and scopes are those
of the occurrences and functions that stand in the program, and what the walk does at one place keeps
it so. -/
namespace ArrayLift

open DefUse

/-- The node of an occurrence. -/
def Occurrence.node (occurrence : Occurrence) : Node :=
  .occurrence occurrence.id occurrence.name occurrence.kind

/-- The occurrences of a program with their scopes, and its functions in the order of their opening. -/
structure Census where
  occurrences : List Occurrence
  functions : List (Option IdentId)
  single : ∀ left ∈ occurrences, ∀ right ∈ occurrences, left.id = right.id → left = right
  named : ∀ function ∈ functions, ∃ id, function = some id
  distinct : functions.Nodup

namespace Census

/-- A node that stands for an occurrence stands for one of the program. -/
def Knows (census : Census) (node : Node) : Prop :=
  node.occurrence? = none ∨ ∃ occurrence ∈ census.occurrences, node = occurrence.node

/-- What stands on a route stands in the program, and the functions on it open the scopes from `next`
on. -/
structure Covers (census : Census) (route : Route) (scope next : ScopeId) : Prop where
  occurrences : route.occurrences scope next ⊆ census.occurrences
  functions : route.functionIds.zipIdx next ⊆ census.functions.zipIdx 1

theorem knows_same {census : Census} {left right : Node} (one : census.Knows left)
    (other : census.Knows right) (same : left.sameSubject right = true) : left = right := by
  rcases one with plain | ⟨first, inFirst, rfl⟩
  · exact (Node.eq_of_sameSubject (Graph.sameSubject_comm left right ▸ same) plain).symm
  rcases other with plain | ⟨second, inSecond, rfl⟩
  · exact Node.eq_of_sameSubject same plain
  · have equal := census.single first inFirst second inSecond
      (by simpa [Occurrence.node, Node.sameSubject] using same)
    rw [equal]

/-- A function has one scope, and a scope one function. -/
theorem scope_unique {census : Census} {left right : Option IdentId} {first second : ScopeId}
    (one : (left, first) ∈ census.functions.zipIdx 1) (other : (right, second) ∈ census.functions.zipIdx 1) :
    left = right ↔ first = second := by
  obtain ⟨lowerFirst, atFirst⟩ := List.mk_mem_zipIdx_iff_le_and_getElem?_sub.mp one
  obtain ⟨lowerSecond, atSecond⟩ := List.mk_mem_zipIdx_iff_le_and_getElem?_sub.mp other
  constructor
  · rintro rfl
    obtain ⟨inFirst, _⟩ := List.getElem?_eq_some_iff.mp atFirst
    have position := (List.getElem?_inj inFirst census.distinct).mp (atFirst.trans atSecond.symm)
    exact Nat.sub_one_cancel lowerFirst lowerSecond position
  · rintro rfl
    exact Option.some.inj (atFirst.symm.trans atSecond)

/-- The scopes in a list are those of the functions that come first, as many as there are scopes. -/
def Opens (census : Census) (functionScopes : List (IdentId × ScopeId)) (count : Nat) : Prop :=
  ∀ id scope, functionScopes.lookup id = some scope ↔ (some id, scope) ∈ census.functions.zipIdx 1 ∧ scope < count

/-- The next function opens the next scope. -/
theorem Opens.next {census : Census} {functionScopes : List (IdentId × ScopeId)} {count : Nat}
    (opens : census.Opens functionScopes count) {id : IdentId}
    (listed : (some id, count) ∈ census.functions.zipIdx 1) :
    census.Opens ((id, count) :: functionScopes) (count + 1) := by
  intro other scope
  by_cases same : other = id
  · subst same
    rw [List.lookup_cons_self, Option.some.injEq]
    constructor
    · rintro rfl
      exact ⟨listed, Nat.lt_succ_self _⟩
    · rintro ⟨there, _⟩
      exact (scope_unique listed there).mp rfl
  · rw [List.lookup_cons, beq_eq_false_iff_ne.mpr same]
    refine (opens other scope).trans (and_congr_right fun there => ⟨Nat.lt_succ_of_lt, fun inside => ?_⟩)
    refine Nat.lt_of_le_of_ne (Nat.le_of_lt_succ inside) fun equal => same ?_
    exact Option.some.inj ((scope_unique there listed).mpr equal)

/-- A function that has a place among the scopes is open, or it is the next one. -/
theorem Opens.lookup {census : Census} {functionScopes : List (IdentId × ScopeId)} {count : Nat}
    (opens : census.Opens functionScopes count) {id : IdentId} {scope : ScopeId}
    (listed : (some id, scope) ∈ census.functions.zipIdx 1) (early : scope ≤ count) :
    (functionScopes.lookup id = some scope ∧ scope < count) ∨ (functionScopes.lookup id = none ∧ scope = count) := by
  cases known : functionScopes.lookup id with
  | some own =>
    obtain ⟨there, inside⟩ := (opens id own).mp known
    obtain rfl : own = scope := (scope_unique there listed).mp rfl
    exact .inl ⟨rfl, inside⟩
  | none =>
    rcases Nat.lt_or_eq_of_le early with inside | same
    · rw [(opens id scope).mpr ⟨listed, inside⟩] at known
      cases known
    · exact .inr ⟨rfl, same⟩

end Census

namespace Findings

/-- The declaration that was met last for a name in a scope. -/
def pins (findings : Findings) (scope : ScopeId) (name : String) : Option Declaration :=
  ((findings.pinned.lookup (scope, name)).bind findings.graph.node?).bind Node.declaration?

structure Valid (census : Census) (findings : Findings) : Prop where
  distinct : findings.graph.Distinct
  closed : findings.graph.Closed
  known : ∀ index node, findings.graph.node? index = some node → census.Knows node
  pinned : ∀ scope name pin, findings.pinned.lookup (scope, name) = some pin →
    ∃ declaration, findings.graph.node? pin = some (.binding declaration scope name)
  recorded : findings.table.occurrences ⊆ census.occurrences
  sorted : findings.table.occurrences.Pairwise (·.id < ·.id)
  opened : ∀ id scope, findings.functionScopes.lookup id = some scope ↔
    (some id, scope) ∈ census.functions.zipIdx 1 ∧ scope < findings.table.scopes.length

end Findings

namespace Point

/-- The point without the numbers of nodes. -/
def view (point : Point) : View :=
  ⟨point.flow.live point.findings.graph, point.findings.graph.links, point.findings.pins⟩

structure Valid (census : Census) (point : Point) : Prop where
  findings : point.findings.Valid census
  flow : point.flow.Valid point.findings.graph

/-- What has been found stays. -/
structure Grows (before after : Point) : Prop where
  graph : before.findings.graph.Extends after.findings.graph
  scopes : before.findings.table.scopes.length ≤ after.findings.table.scopes.length
  table : before.findings.table.occurrences ⊆ after.findings.table.occurrences

theorem Grows.refl (point : Point) : point.Grows point :=
  ⟨fun _ _ known => known, Nat.le_refl _, List.Subset.refl _⟩

theorem Grows.trans {one two three : Point} (first : one.Grows two) (second : two.Grows three) :
    one.Grows three :=
  ⟨fun index node known => second.graph index node (first.graph index node known),
    Nat.le_trans first.scopes second.scopes, List.Subset.trans first.table second.table⟩

/-- A point with a flow that was saved earlier. -/
theorem Valid.withFlow {census : Census} {point : Point} {flow : Flow} (valid : point.Valid census)
    (fits : flow.Valid point.findings.graph) : (point.withFlow flow).Valid census :=
  ⟨valid.findings, fits⟩

theorem view_withFlow (point : Point) (flow : Flow) :
    (point.withFlow flow).view = point.view.withLive (flow.live point.findings.graph) := rfl

variable {census : Census} {point : Point}

/-- What asking for the node of a subject does to a point: the view does not show it. -/
structure Interned (census : Census) (point : Point) (node : Node) (result : NodeId × Point) : Prop where
  valid : result.2.Valid census
  grows : point.Grows result.2
  view : result.2.view = point.view
  found : result.2.findings.graph.node? result.1 = some node
  flow : result.2.flow = point.flow

theorem Valid.intern (valid : point.Valid census) {node : Node} (known : census.Knows node) :
    Interned census point node (point.intern node) := by
  have spec := Graph.intern_spec point.findings.graph node valid.findings.distinct
    fun index other here same => census.knows_same (valid.findings.known index other here) known same
  have grown := spec.larger
  have links := grown.links valid.findings.closed spec.edges
  have pinned : (point.intern node).2.findings.pins = point.findings.pins := by
    funext scope name
    simp only [Findings.pins, Point.intern]
    cases there : point.findings.pinned.lookup (scope, name) with
    | none => rfl
    | some pin =>
      obtain ⟨declaration, here⟩ := valid.findings.pinned scope name pin there
      simp only [Option.bind_some, here, grown pin _ here]
  refine ⟨⟨⟨spec.distinct, grown.closed valid.findings.closed spec.edges, ?_, ?_, valid.findings.recorded,
    valid.findings.sorted, valid.findings.opened⟩, valid.flow.mono grown⟩, ⟨grown, Nat.le_refl _, List.Subset.refl _⟩,
    ?_, spec.found, rfl⟩
  · intro index other here
    rcases spec.members index other here with old | rfl
    · exact valid.findings.known index other old
    · exact known
  · intro scope name pin there
    obtain ⟨declaration, here⟩ := valid.findings.pinned scope name pin there
    exact ⟨declaration, grown pin _ here⟩
  · unfold Point.view
    rw [pinned]
    simp only [Point.intern, valid.flow.live_mono grown, links]

/-- Edges from nodes to a node. -/
theorem Valid.connect (valid : point.Valid census) {sources : List NodeId} {target : NodeId} {node : Node}
    (from_nodes : ∀ source ∈ sources, ∃ other, point.findings.graph.node? source = some other)
    (found : point.findings.graph.node? target = some node) :
    (point.connect sources target).Valid census ∧ point.Grows (point.connect sources target) ∧
      (point.connect sources target).view = { point.view with
        edges := point.view.edges ∪ {edge | edge.2 = node ∧
          ∃ source ∈ sources, point.findings.graph.node? source = some edge.1} } := by
  have same := Graph.connectAll_node? sources point.findings.graph target
  have edges := Graph.mem_connectAll sources point.findings.graph target
  refine ⟨⟨⟨?_, ?_, ?_, ?_, valid.findings.recorded, valid.findings.sorted, valid.findings.opened⟩, ?_⟩,
    ⟨?_, Nat.le_refl _, List.Subset.refl _⟩, ?_⟩
  · intro i j left right atI atJ
    exact valid.findings.distinct i j left right ((same i).symm.trans atI) ((same j).symm.trans atJ)
  · intro source other member
    simp only [Point.connect, same]
    rcases (edges (source, other)).mp member with ⟨fresh, rfl⟩ | old
    · exact ⟨from_nodes source fresh, node, found⟩
    · exact valid.findings.closed source other old
  · intro index other here
    exact valid.findings.known index other ((same index).symm.trans here)
  · intro scope name pin there
    obtain ⟨declaration, here⟩ := valid.findings.pinned scope name pin there
    exact ⟨declaration, (same pin).trans here⟩
  · intro fact member
    obtain ⟨other, here, named⟩ := valid.flow fact member
    exact ⟨other, (same _).trans here, named⟩
  · intro index other here
    exact (same index).trans here
  · have nodes : (point.connect sources target).findings.graph.node? = point.findings.graph.node? :=
      funext same
    have pinned : (point.connect sources target).findings.pins = point.findings.pins := by
      funext scope name
      simp only [Findings.pins, nodes]
      rfl
    have links : (point.connect sources target).findings.graph.links =
        point.findings.graph.links ∪ {edge | edge.2 = node ∧
          ∃ source ∈ sources, point.findings.graph.node? source = some edge.1} := by
      ext ⟨left, right⟩
      simp only [Graph.links, nodes, Set.mem_union, Set.mem_ofPred_eq]
      constructor
      · intro found
        obtain ⟨source, other, member, atSource, atOther⟩ := found
        rcases (edges (source, other)).mp member with ⟨fresh, rfl⟩ | old
        · exact .inr ⟨Option.some.inj (atOther.symm.trans found), source, fresh, atSource⟩
        · exact .inl ⟨source, other, old, atSource, atOther⟩
      · intro found
        rcases found with ⟨source, other, old, atSource, atOther⟩ | ⟨rfl, source, fresh, atSource⟩
        · exact ⟨source, other, (edges _).mpr (.inr old), atSource, atOther⟩
        · exact ⟨source, target, (edges _).mpr (.inl ⟨fresh, rfl⟩), atSource, found⟩
    simp only [Point.view, pinned, links, Flow.live, nodes]
    rfl

/-- A record of an occurrence of the program. -/
theorem Valid.record (valid : point.Valid census) {occurrence : Occurrence}
    (inside : occurrence ∈ census.occurrences) (plain : occurrence.role = .unknown) :
    let after := point.record occurrence.scope occurrence.name occurrence.id occurrence.line occurrence.kind
      occurrence.indexed occurrence.arrayOnly
    after.Valid census ∧ point.Grows after ∧ after.view = point.view ∧
      occurrence ∈ after.findings.table.occurrences := by
  have same : (⟨occurrence.id, occurrence.name, occurrence.line, occurrence.scope, occurrence.kind,
      occurrence.indexed, occurrence.arrayOnly, .unknown⟩ : Occurrence) = occurrence := by rw [← plain]
  have single : ∀ other ∈ point.findings.table.occurrences, other.id = occurrence.id → other = occurrence :=
    fun other member same => census.single other (valid.findings.recorded member) _ inside same
  have members := ScopeTable.mem_insertOccurrence valid.findings.sorted single
  have sorted := ScopeTable.insertOccurrence_sorted valid.findings.sorted single
  simp only [Point.record, same]
  refine ⟨⟨⟨valid.findings.distinct, valid.findings.closed, valid.findings.known, valid.findings.pinned, ?_, sorted,
    valid.findings.opened⟩, valid.flow⟩, ⟨fun _ _ known => known, Nat.le_refl _, ?_⟩, rfl, ?_⟩
  · intro other member
    rcases (members other).mp member with rfl | old
    · exact inside
    · exact valid.findings.recorded old
  · exact fun other old => (members other).mpr (.inr old)
  · exact (members _).mpr (.inl rfl)

end Point
end ArrayLift
