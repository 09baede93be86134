import ArrayLift.Proofs.Walk.Invariant

/-! The walk and its view: following a route from a point gives the point whose view is that of the same
route followed on views, and every occurrence on the route is recorded. -/
namespace ArrayLift

open DefUse

/-- A walk from one point to another that records occurrences and leads to a view. -/
structure Point.Reaches (census : Census) (before : Point) (visited : List Occurrence) (view : View)
    (after : Point) : Prop where
  valid : after.Valid census
  grows : before.Grows after
  visited : visited ⊆ after.findings.table.occurrences
  view : after.view = view

namespace Point

variable {census : Census} {point : Point}

theorem Reaches.refl (valid : point.Valid census) : point.Reaches census [] point.view point :=
  ⟨valid, .refl point, List.nil_subset _, rfl⟩

theorem Reaches.trans {one two three : Point} {first second : List Occurrence} {view final : View}
    (start : one.Reaches census first view two) (behind : two.Reaches census second final three) :
    one.Reaches census (first ++ second) final three :=
  ⟨behind.valid, start.grows.trans behind.grows,
    List.append_subset.mpr ⟨List.Subset.trans start.visited behind.grows.table, behind.visited⟩, behind.view⟩

theorem Reaches.live {before after : Point} {visited : List Occurrence} {view : View}
    (reaches : before.Reaches census visited view after) : after.flow.live after.findings.graph = view.live :=
  congrArg View.live reaches.view

/-- The test for the end of a loop compares the live definitions. -/
theorem Reaches.same_iff {before after : Point} {visited : List Occurrence} {view : View} {entry : Flow}
    (reaches : before.Reaches census visited view after) (start : before.Valid census)
    (entered : entry.Valid after.findings.graph) : (entry.merge after.flow).same before.flow = true ↔
      entry.live after.findings.graph ∪ view.live = before.view.live := by
  have kept := start.flow.mono reaches.grows.graph
  have same := Flow.same_iff_live reaches.valid.findings.distinct (entered.merge reaches.valid.flow) kept
  rw [Flow.live_merge, reaches.live, start.flow.live_mono reaches.grows.graph] at same
  exact same

/-- Another flow in the place of the last one. -/
theorem Reaches.withFlow {before after : Point} {visited : List Occurrence} {view : View} {flow : Flow}
    (reaches : before.Reaches census visited view after) (fits : flow.Valid after.findings.graph) :
    before.Reaches census visited (view.withLive (flow.live after.findings.graph)) (after.withFlow flow) :=
  ⟨reaches.valid.withFlow fits, ⟨reaches.grows.graph, reaches.grows.scopes, reaches.grows.table⟩, reaches.visited,
    by rw [view_withFlow, reaches.view]⟩

/-- The flow of the start once more. -/
theorem Reaches.back {before after : Point} {visited : List Occurrence} {view : View}
    (reaches : before.Reaches census visited view after) (start : before.Valid census) :
    before.Reaches census visited (view.withLive before.view.live) (after.withFlow before.flow) := by
  have restored := reaches.withFlow (start.flow.mono reaches.grows.graph)
  rw [start.flow.live_mono reaches.grows.graph] at restored
  exact restored

/-- Another flow that leads to the same place. -/
theorem Reaches.join {before after : Point} {visited : List Occurrence} {view : View} {flow : Flow}
    (reaches : before.Reaches census visited view after) (fits : flow.Valid after.findings.graph) :
    before.Reaches census visited (view.withLive (flow.live after.findings.graph ∪ view.live)) (after.join flow) := by
  have joined := reaches.withFlow (fits.merge reaches.valid.flow)
  rw [Flow.live_merge, reaches.live] at joined
  exact joined

/-- One more live definition. -/
theorem Reaches.insert {before after : Point} {visited : List Occurrence} {view : View} {node : Node}
    {index : NodeId} (reaches : before.Reaches census visited view after)
    (found : after.findings.graph.node? index = some node) :
    before.Reaches census visited (view.withLive (Insert.insert node view.live))
      (after.withFlow (after.flow.insert ⟨node.name, index⟩)) := by
  have added := reaches.withFlow (reaches.valid.flow.insert found)
  rw [Flow.live_insert found] at added
  rw [reaches.live] at added
  exact added

/-- Other definitions of a name. -/
theorem Reaches.redefine {before after : Point} {visited : List Occurrence} {view : View} {name : String}
    {nodes : List NodeId} (fresh : Set Node) (reaches : before.Reaches census visited view after)
    (found : ∀ index ∈ nodes, ∃ node, after.findings.graph.node? index = some node ∧ node.name = name)
    (same : ∀ node, node ∈ fresh ↔ ∃ index ∈ nodes, after.findings.graph.node? index = some node) :
    before.Reaches census visited
      (view.withLive {node | node ∈ fresh ∨ (node ∈ view.live ∧ node.name ≠ name)})
      (after.withFlow (after.flow.redefine name nodes)) := by
  have added := reaches.withFlow (reaches.valid.flow.redefine found)
  have equal : (after.flow.redefine name nodes).live after.findings.graph =
      {node | node ∈ fresh ∨ (node ∈ view.live ∧ node.name ≠ name)} := by
    ext node
    rw [Flow.live_redefine found, ← same, reaches.live]
    rfl
  rw [equal] at added
  exact added

/-- The end of a walk once its occurrence is recorded. -/
theorem Reaches.record {before after : Point} {view : View}
    (reaches : before.Reaches census [] view after) {occurrence : Occurrence}
    (inside : occurrence ∈ census.occurrences) (plain : occurrence.role = .unknown) :
    before.Reaches census [occurrence] view (after.record occurrence.scope occurrence.name occurrence.id
      occurrence.line occurrence.kind occurrence.indexed occurrence.arrayOnly) := by
  obtain ⟨valid, grows, same, recorded⟩ := reaches.valid.record inside plain
  exact ⟨valid, reaches.grows.trans grows, by simpa using recorded, same.trans reaches.view⟩

theorem Valid.reaches_intern (valid : point.Valid census) {node : Node} (known : census.Knows node) :
    point.Reaches census [] point.view (point.intern node).2 ∧
      (point.intern node).2.findings.graph.node? (point.intern node).1 = some node := by
  have interned := valid.intern known
  exact ⟨⟨interned.valid, interned.grows, List.nil_subset _, interned.view⟩, interned.found⟩

/-- Edges from the live definitions of a name. -/
theorem Valid.reaches_read (valid : point.Valid census) {node : Node} {index : NodeId}
    (found : point.findings.graph.node? index = some node) :
    point.Reaches census [] (point.view.read node) (point.connect (point.flow.definitions node.name) index) := by
  have definitions := valid.flow.definitions node.name
  have known : ∀ source ∈ point.flow.definitions node.name,
      ∃ other, point.findings.graph.node? source = some other := by
    intro source member
    obtain ⟨other, here, _⟩ := valid.flow _ ((Flow.mem_definitions point.flow node.name source).mp member)
    exact ⟨other, here⟩
  obtain ⟨linked, grows, view⟩ := valid.connect known found
  refine ⟨linked, grows, List.nil_subset _, view.trans ?_⟩
  simp only [View.read, definitions]
  rfl

/-- The node that a declaration keeps beside further definitions of the name. -/
theorem Valid.pinned_iff (valid : point.Valid census) (scope : ScopeId) (name : String) (node : Node) :
    (∃ pin ∈ (point.findings.pinned.lookup (scope, name)).toList, point.findings.graph.node? pin = some node) ↔
      node.name = name ∧ point.view.Pinned scope node := by
  simp only [view, View.Pinned, Findings.pins]
  constructor
  · intro found
    obtain ⟨pin, member, here⟩ := found
    have there := Option.mem_toList.mp member
    obtain ⟨declaration, known⟩ := valid.findings.pinned scope name pin there
    obtain rfl : Node.binding declaration scope name = node := Option.some.inj (known.symm.trans here)
    refine ⟨Node.name_binding declaration scope name, declaration, ?_, by rw [Node.name_binding]⟩
    rw [Node.name_binding, Option.mem_def.mp there]
    simp only [Option.bind_some, known, Node.declaration?_binding]
  · intro found
    obtain ⟨rfl, declaration, met, same⟩ := found
    cases there : point.findings.pinned.lookup (scope, node.name) with
    | none => simp [there] at met
    | some pin =>
      obtain ⟨other, known⟩ := valid.findings.pinned scope node.name pin there
      simp only [there, Option.bind_some, known, Node.declaration?_binding] at met
      cases met
      exact ⟨pin, by simp, known.trans (congrArg some same.symm)⟩

end Point

/-- An occurrence of the program has a node of the program. -/
theorem Census.knows_occurrence {census : Census} {occurrence : Occurrence}
    (inside : occurrence ∈ census.occurrences) : census.Knows occurrence.node :=
  .inr ⟨occurrence, inside, rfl⟩

theorem Census.knows_binding (census : Census) (declaration : Declaration) (scope : ScopeId) (name : String) :
    census.Knows (.binding declaration scope name) := by
  cases declaration <;> exact .inl rfl

namespace Point

variable {census : Census} {point : Point} {scope : ScopeId} {id : IdentId} {name : String} {line : SourceLine}

theorem Valid.reaches_use (valid : point.Valid census) {indexed arrayOnly : Bool}
    (inside : ⟨id, name, line, scope, .use, indexed, arrayOnly, .unknown⟩ ∈ census.occurrences) :
    point.Reaches census [⟨id, name, line, scope, .use, indexed, arrayOnly, .unknown⟩]
      (point.view.read (.occurrence id name .use))
      (point.use scope (.bare name (some id)) line indexed arrayOnly) := by
  obtain ⟨interned, found⟩ := valid.reaches_intern (Census.knows_occurrence inside)
  have linked := interned.valid.reaches_read found
  rw [interned.view] at linked
  exact (interned.trans linked).record inside rfl

theorem Valid.reaches_update (valid : point.Valid census)
    (inside : ⟨id, name, line, scope, .partialDefinition, false, false, .unknown⟩ ∈ census.occurrences) :
    point.Reaches census [⟨id, name, line, scope, .partialDefinition, false, false, .unknown⟩]
      (point.view.update (.occurrence id name .partialDefinition))
      (point.define scope (.bare name (some id)) line .partialDefinition) := by
  obtain ⟨interned, found⟩ := valid.reaches_intern (Census.knows_occurrence inside)
  have linked := interned.valid.reaches_read found
  have there := linked.grows.graph _ _ found
  rw [interned.view] at linked
  exact ((interned.trans linked).insert there).record inside rfl

theorem Valid.reaches_define (valid : point.Valid census) {kind : OccurrenceKind}
    (whole : kind ≠ .partialDefinition)
    (inside : ⟨id, name, line, scope, kind, false, false, .unknown⟩ ∈ census.occurrences) :
    point.Reaches census [⟨id, name, line, scope, kind, false, false, .unknown⟩]
      (point.view.define scope (.occurrence id name kind))
      (point.define scope (.bare name (some id)) line kind) := by
  let node : Node := .occurrence id name kind
  obtain ⟨interned, found⟩ : point.Reaches census [] point.view (point.intern node).2 ∧
      (point.intern node).2.findings.graph.node? (point.intern node).1 = some node :=
    valid.reaches_intern (Census.knows_occurrence inside)
  have pinned := interned.valid.pinned_iff scope name
  rw [interned.view] at pinned
  have fresh (definition : Node) :
      definition ∈ {other | other = node ∨ (other.name = name ∧ point.view.Pinned scope other)} ↔
        ∃ index ∈ (point.intern node).1 ::
          ((point.intern node).2.findings.pinned.lookup (scope, name)).toList,
          (point.intern node).2.findings.graph.node? index = some definition := by
    simp only [Set.mem_ofPred_eq, List.mem_cons, exists_eq_or_imp, pinned, found, Option.some.injEq]
    exact or_congr_left eq_comm
  have called : ∀ index ∈ (point.intern node).1 ::
      ((point.intern node).2.findings.pinned.lookup (scope, name)).toList, ∃ definition,
      (point.intern node).2.findings.graph.node? index = some definition ∧ definition.name = name := by
    intro index member
    rcases List.mem_cons.mp member with rfl | kept
    · exact ⟨node, found, rfl⟩
    · obtain ⟨declaration, known⟩ := interned.valid.findings.pinned scope name index (Option.mem_toList.mp kept)
      exact ⟨_, known, Node.name_binding declaration scope name⟩
  have placed := interned.redefine _ called fresh
  have same : point.view.withLive {other | other ∈ {other | other = node ∨
        (other.name = name ∧ point.view.Pinned scope other)} ∨ (other ∈ point.view.live ∧ other.name ≠ name)} =
      point.view.define scope node := by
    simp only [View.define, Set.mem_ofPred_eq, or_assoc]
    rfl
  rw [same] at placed
  have recorded := placed.record inside rfl
  simp only [Point.define, Ident.bare, Ident.id, Ident.name, if_neg whole]
  exact recorded

/-- The declaration of a name is remembered, and its scope told about it. -/
theorem Valid.reaches_pin (valid : point.Valid census) {declaration : Declaration} {pin : NodeId}
    (found : point.findings.graph.node? pin = some (.binding declaration scope name)) (note : Scope → Scope) :
    point.Reaches census []
      { point.view with pins := fun other text =>
          if other = scope ∧ text = name then some declaration else point.view.pins other text }
      { point with findings := { point.findings with
          pinned := ((scope, name), pin) :: point.findings.pinned
          table := point.findings.table.modifyScope scope note } } := by
  have length : (point.findings.table.modifyScope scope note).scopes.length =
      point.findings.table.scopes.length :=
    List.length_modify ..
  refine ⟨⟨⟨valid.findings.distinct, valid.findings.closed, valid.findings.known, ?_, valid.findings.recorded,
    valid.findings.sorted, ?_⟩, valid.flow⟩, ⟨fun _ _ known => known, length.symm.le, List.Subset.refl _⟩,
    List.nil_subset _, ?_⟩
  · intro other text index there
    by_cases same : (other, text) = (scope, name)
    · cases same
      rw [List.lookup_cons_self] at there
      cases there
      exact ⟨declaration, found⟩
    · rw [List.lookup_cons, beq_eq_false_iff_ne.mpr same] at there
      exact valid.findings.pinned other text index there
  · intro id other
    simp only [length]
    exact valid.findings.opened id other
  · simp only [view, View.mk.injEq, true_and]
    funext other text
    simp only [Findings.pins]
    by_cases same : (other, text) = (scope, name)
    · cases same
      simp only [List.lookup_cons_self, Option.bind_some, found, Node.declaration?_binding, and_self, if_true]
    · have differ : ¬(other = scope ∧ text = name) := fun both => same (Prod.ext both.1 both.2)
      rw [List.lookup_cons, beq_eq_false_iff_ne.mpr same, if_neg differ]

theorem Valid.reaches_declare (valid : point.Valid census) (declaration : Declaration)
    (inside : ⟨id, name, line, scope, .declaration, false, false, .unknown⟩ ∈ census.occurrences) :
    point.Reaches census [⟨id, name, line, scope, .declaration, false, false, .unknown⟩]
      (point.view.declare scope declaration (.occurrence id name .declaration))
      (point.declare scope declaration (.bare name (some id)) line) := by
  let pin : Node := .binding declaration scope name
  let node : Node := .occurrence id name .declaration
  obtain ⟨first, pinned⟩ : point.Reaches census [] point.view (point.intern pin).2 ∧
      (point.intern pin).2.findings.graph.node? (point.intern pin).1 = some pin :=
    valid.reaches_intern (census.knows_binding declaration scope name)
  obtain ⟨second, found⟩ : (point.intern pin).2.Reaches census [] (point.intern pin).2.view
      ((point.intern pin).2.intern node).2 ∧ ((point.intern pin).2.intern node).2.findings.graph.node?
        ((point.intern pin).2.intern node).1 = some node := first.valid.reaches_intern (Census.knows_occurrence inside)
  rw [first.view] at second
  have kept := second.grows.graph _ _ pinned
  have start := first.trans second
  have sources : ∀ source ∈ [(point.intern pin).1],
      ∃ other, ((point.intern pin).2.intern node).2.findings.graph.node? source = some other := by
    simpa using ⟨_, kept⟩
  obtain ⟨linked, grows, edges⟩ := second.valid.connect sources found
  have drawn : { point.view with edges := insert (pin, node) point.view.edges } =
      (((point.intern pin).2.intern node).2.connect [(point.intern pin).1]
        ((point.intern pin).2.intern node).1).view := by
    rw [edges, start.view]
    simp only [View.mk.injEq, true_and, and_true]
    ext ⟨left, right⟩
    simp only [List.mem_singleton, exists_eq_left, kept, Option.some.injEq, Set.mem_insert_iff, Set.mem_union,
      Set.mem_ofPred_eq, Prod.mk.injEq]
    constructor
    · intro found
      rcases found with ⟨rfl, rfl⟩ | old
      · exact .inr ⟨rfl, rfl⟩
      · exact .inl old
    · intro found
      rcases found with old | ⟨rfl, rfl⟩
      · exact .inr old
      · exact .inl ⟨rfl, rfl⟩
  have joined : point.Reaches census [] { point.view with edges := insert (pin, node) point.view.edges } _ :=
    ⟨linked, start.grows.trans grows, List.nil_subset _, drawn.symm⟩
  have here := grows.graph _ _ kept
  have named : ∀ index ∈ [(point.intern pin).1], ∃ other,
      (((point.intern pin).2.intern node).2.connect [(point.intern pin).1]
        ((point.intern pin).2.intern node).1).findings.graph.node? index = some other ∧ other.name = name := by
    simpa using ⟨_, here, Node.name_binding declaration scope name⟩
  have placed := joined.redefine {pin} named (by simp [here, eq_comm])
  have declared : _ = some (Node.binding declaration scope name) := here
  have met := placed.valid.reaches_pin declared
    (fun summary => match declaration with
      | .global => { summary with globalNames := summary.globalNames.insert name }
      | .persistent => { summary with persistentNames := summary.persistentNames.insert name })
  rw [placed.view] at met
  have recorded := (placed.trans met).record inside rfl
  cases declaration <;> exact recorded

/-- One of the bindings that a function starts with. -/
theorem Reaches.implicit {before after : Point} {visited : List Occurrence} {view : View}
    (reaches : before.Reaches census visited view after) (scope : ScopeId) (name : String) :
    before.Reaches census visited
      (view.withLive {node | node ∈ ({.implicit scope name} : Set Node) ∨ (node ∈ view.live ∧ node.name ≠ name)})
      ((after.intern (.implicit scope name)).2.withFlow
        (after.flow.redefine name [(after.intern (.implicit scope name)).1])) := by
  have known : census.Knows (.implicit scope name) := .inl rfl
  obtain ⟨interned, found⟩ := reaches.valid.reaches_intern known
  rw [reaches.view] at interned
  have named : ∀ index ∈ [(after.intern (.implicit scope name)).1], ∃ node,
      (after.intern (.implicit scope name)).2.findings.graph.node? index = some node ∧ node.name = name := by
    simpa using ⟨_, found, rfl⟩
  have placed := (reaches.trans interned).redefine {.implicit scope name} named (by simp [found, eq_comm])
  rw [List.append_nil] at placed
  exact placed

theorem Reaches.bindImplicit {before after : Point} {visited : List Occurrence} {view : View}
    (reaches : before.Reaches census visited view after) (scope : ScopeId) :
    before.Reaches census visited (view.withLive {node | node ∈ implicitNodes scope})
      ((after.withFlow .empty).bindImplicit scope) := by
  have cleared := reaches.withFlow (Flow.valid_empty after.findings.graph)
  rw [Flow.live_empty] at cleared
  have both := (cleared.implicit scope LibraryName.varargin.spelling).implicit scope LibraryName.nargin.spelling
  have differ : LibraryName.varargin.spelling ≠ LibraryName.nargin.spelling := by decide
  have same : {node : Node | node ∈ ({.implicit scope LibraryName.nargin.spelling} : Set Node) ∨
      (node ∈ {node : Node | node ∈ ({.implicit scope LibraryName.varargin.spelling} : Set Node) ∨
          (node ∈ (∅ : Set Node) ∧ node.name ≠ LibraryName.varargin.spelling)} ∧
        node.name ≠ LibraryName.nargin.spelling)} = {node | node ∈ implicitNodes scope} := by
    ext node
    simp only [implicitNodes, LibraryName.implicitBindings, Set.mem_singleton_iff, Set.mem_ofPred_eq,
      Set.mem_empty_iff_false, false_and, or_false, List.map_cons, List.map_nil, List.mem_cons, List.not_mem_nil]
    constructor
    · intro found
      rcases found with last | ⟨first, _⟩
      · exact .inr last
      · exact .inl first
    · intro found
      rcases found with rfl | last
      · exact .inr ⟨rfl, differ⟩
      · exact .inl last
  simp only [View.withLive_live] at both
  rw [same] at both
  exact both

/-- The scope of a function is the one that its place among the functions gives it. -/
theorem Valid.reaches_functionScope (valid : point.Valid census) (name : String) (line : SourceLine)
    {next : ScopeId} (listed : (some id, next) ∈ census.functions.zipIdx 1)
    (early : next ≤ point.findings.table.scopes.length) :
    (point.functionScope (.bare name (some id)) line).1 = next ∧
      point.Reaches census [] point.view (point.functionScope (.bare name (some id)) line).2 ∧
      next + 1 ≤ (point.functionScope (.bare name (some id)) line).2.findings.table.scopes.length := by
  have opened : census.Opens point.findings.functionScopes point.findings.table.scopes.length := valid.findings.opened
  rcases opened.lookup listed early with ⟨known, inside⟩ | ⟨known, last⟩
  · simp only [functionScope, Ident.bare, Ident.id, known]
    exact ⟨trivial, .refl valid, inside⟩
  · simp only [functionScope, Ident.bare, Ident.id, Ident.name, known]
    have longer : (point.findings.table.openScope .function (some name) line).2.scopes.length =
        point.findings.table.scopes.length + 1 := List.length_append
    refine ⟨last.symm, ⟨⟨⟨valid.findings.distinct, valid.findings.closed, valid.findings.known,
      valid.findings.pinned, valid.findings.recorded, valid.findings.sorted, ?_⟩, valid.flow⟩,
      ⟨fun _ _ found => found, ?_, List.Subset.refl _⟩, List.nil_subset _, rfl⟩, ?_⟩
    · rw [longer]
      exact opened.next (last ▸ listed)
    · simp only [ScopeTable.openScope, List.length_append]
      exact Nat.le_add_right _ _
    · simp only [ScopeTable.openScope, List.length_append, List.length_cons, List.length_nil, last]
      exact Nat.le_refl _

theorem Valid.reaches_function (valid : point.Valid census) {next : ScopeId}
    (inside : ⟨id, name, line, scope, .functionName, false, false, .unknown⟩ ∈ census.occurrences)
    (listed : (some id, next) ∈ census.functions.zipIdx 1)
    (early : next ≤ point.findings.table.scopes.length) :
    (point.enterFunction scope (.bare name (some id)) [] line).1 = next ∧
      point.Reaches census [⟨id, name, line, scope, .functionName, false, false, .unknown⟩]
        (point.view.withLive {node | node ∈ implicitNodes next})
        (point.enterFunction scope (.bare name (some id)) [] line).2 ∧
      next + 1 ≤ (point.enterFunction scope (.bare name (some id)) [] line).2.findings.table.scopes.length := by
  have recorded := (Reaches.refl valid).record inside rfl
  obtain ⟨own, opened, room⟩ := recorded.valid.reaches_functionScope name line listed
    (Nat.le_trans early recorded.grows.scopes)
  rw [recorded.view] at opened
  have bound := (recorded.trans opened).bindImplicit next
  have after := ((Reaches.refl opened.valid).bindImplicit next).grows.scopes
  let named := point.record scope name id line .functionName false false
  have entered : point.enterFunction scope (.bare name (some id)) [] line =
      (next, (((named.functionScope (.bare name (some id)) line).2).withFlow .empty).bindImplicit next) := by
    rw [← own]
    rfl
  rw [entered]
  exact ⟨rfl, bound, Nat.le_trans room after⟩

theorem Valid.reaches_checkSource (valid : point.Valid census) (targets : Nat) (source : ValueSource) :
    point.Reaches census [] point.view (point.checkSource line targets source) := by
  have findings := valid.findings
  cases source with
  | several => exact .refl valid
  | single description | named root =>
    exact ⟨⟨⟨findings.distinct, findings.closed, findings.known, findings.pinned, findings.recorded,
      findings.sorted, findings.opened⟩, valid.flow⟩,
      ⟨fun _ _ known => known, Nat.le_refl _, List.Subset.refl _⟩, List.nil_subset _, rfl⟩

end Point

theorem Step.reaches {census : Census} {scope : ScopeId} {point : Point} (action : Step)
    (valid : point.Valid census) (inside : (action.occurrence? scope).toList ⊆ census.occurrences) :
    point.Reaches census (action.occurrence? scope).toList (action.see scope point.view) (action.walk scope point) := by
  cases action with
  | use id name line indexed arrayOnly => exact valid.reaches_use (inside (by simp [occurrence?]))
  | define id name line kind =>
    have listed := inside (a := ⟨id, name, line, scope, kind, false, false, .unknown⟩) (by simp [occurrence?])
    by_cases part : kind = .partialDefinition
    · subst part
      exact valid.reaches_update listed
    · simp only [Step.see, if_neg part]
      exact valid.reaches_define part listed
  | declare declaration id name line =>
    exact valid.reaches_declare declaration (inside (by simp [occurrence?]))
  | checkArity line targets source => exact valid.reaches_checkSource targets source

/-- What following a route from a point leads to, and that its functions have been opened. -/
structure Route.Follows (census : Census) (limit : Nat) (route : Route) (scope next : ScopeId) (before after : Point) :
    Prop where
  reaches : before.Reaches census (route.occurrences scope next) (route.see limit scope next before.view) after
  opened : next + route.functionIds.length ≤ after.findings.table.scopes.length

namespace Census.Covers

variable {census : Census} {first second body : Route} {scope next : ScopeId}

theorem left (covers : census.Covers (.seq first second) scope next) : census.Covers first scope next := by
  refine ⟨fun _ member => covers.occurrences (List.mem_append_left _ member), fun _ member => covers.functions ?_⟩
  rw [Route.functionIds, List.zipIdx_append]
  exact List.mem_append_left _ member

theorem right (covers : census.Covers (.seq first second) scope next) :
    census.Covers second scope (next + first.functionIds.length) := by
  refine ⟨fun _ member => covers.occurrences (List.mem_append_right _ member), fun _ member => covers.functions ?_⟩
  rw [Route.functionIds, List.zipIdx_append]
  exact List.mem_append_right _ member

/-- A function in the program has an identity, a scope and an occurrence of its name. -/
theorem function {id : Option IdentId} {name : String} {line : SourceLine}
    (covers : census.Covers (.function id name line body) scope next) :
    ∃ known, id = some known ∧ (some known, next) ∈ census.functions.zipIdx 1 ∧
      ⟨known, name, line, scope, .functionName, false, false, .unknown⟩ ∈ census.occurrences ∧
      census.Covers body next (next + 1) := by
  have listed : (id, next) ∈ census.functions.zipIdx 1 := covers.functions (by simp [Route.functionIds])
  obtain ⟨known, rfl⟩ := census.named id (List.fst_mem_of_mem_zipIdx listed)
  have named := covers.occurrences (a := ⟨known, name, line, scope, .functionName, false, false, .unknown⟩)
    (by simp [Route.occurrences])
  refine ⟨known, rfl, listed, named, ?_, ?_⟩
  · exact fun _ member => covers.occurrences (List.mem_append_right _ member)
  · exact fun _ member => covers.functions (List.mem_cons_of_mem _ member)

end Census.Covers

/-- A route behind another one. -/
theorem Route.Follows.seq {census : Census} {limit : Nat} {first second : Route} {scope next : ScopeId}
    {before middle after : Point} (start : first.Follows census limit scope next before middle)
    (behind : second.Follows census limit scope (next + first.functionIds.length) middle after) :
    (Route.seq first second).Follows census limit scope next before after := by
  constructor
  · have both := start.reaches.trans behind.reaches
    rw [start.reaches.view] at both
    exact both
  · simp only [functionIds, List.length_append, ← Nat.add_assoc]
    exact behind.opened

namespace Point

/-- A loop walked until its start stays the same is its body seen until its start stays the same. -/
theorem reaches_walkLoop {census : Census} {body : Point → Point} {seen : View → View}
    {visited : List Occurrence} {entry : Flow} {origin : Point} {opened : Nat}
    (pass : ∀ point, point.Valid census → origin.Grows point →
      point.Reaches census visited (seen point.view) (body point) ∧
        opened ≤ (body point).findings.table.scopes.length)
    (start : entry.Valid origin.findings.graph) (passes : Nat) (point : Point) (valid : point.Valid census)
    (later : origin.Grows point)
    (known : passes = 0 → visited ⊆ point.findings.table.occurrences ∧ opened ≤ point.findings.table.scopes.length) :
    point.Reaches census visited (View.settle seen (entry.live origin.findings.graph) passes point.view)
        (walkLoop body entry passes point) ∧
      opened ≤ (walkLoop body entry passes point).findings.table.scopes.length := by
  induction passes generalizing point with
  | zero =>
    obtain ⟨recorded, room⟩ := known rfl
    exact ⟨⟨valid, .refl point, recorded, rfl⟩, room⟩
  | succ passes ih =>
    obtain ⟨reached, room⟩ := pass point valid later
    have grown := later.trans reached.grows
    have before : point.flow.Valid (body point).findings.graph := valid.flow.mono reached.grows.graph
    have entered : entry.Valid (body point).findings.graph := start.mono grown.graph
    have merged : (entry.merge (body point).flow).Valid (body point).findings.graph :=
      entered.merge reached.valid.flow
    have live : (entry.merge (body point).flow).live (body point).findings.graph =
        entry.live origin.findings.graph ∪ (seen point.view).live := by
      rw [Flow.live_merge, start.live_mono grown.graph, reached.live]
    have kept : point.flow.live (body point).findings.graph = point.view.live :=
      valid.flow.live_mono reached.grows.graph
    have same := reached.same_iff valid entered
    rw [start.live_mono grown.graph] at same
    simp only [walkLoop, View.settle]
    by_cases stable : (entry.merge (body point).flow).same point.flow = true
    · rw [if_pos stable, if_pos (same.mp stable), ← kept]
      exact ⟨reached.withFlow before, room⟩
    · rw [if_neg stable, if_neg (mt same.mpr stable), ← live]
      have again := reached.withFlow merged
      have further := ih ((body point).withFlow (entry.merge (body point).flow)) again.valid
        (later.trans again.grows) fun _ => ⟨again.visited, room⟩
      rw [again.view] at further
      exact ⟨⟨further.1.valid, again.grows.trans further.1.grows, further.1.visited, further.1.view⟩, further.2⟩

end Point

/-- The walk along a route and the route followed on views agree. -/
theorem Route.walk_follows {census : Census} {limit : Nat} (some_pass : 0 < limit) (route : Route) :
    ∀ (scope next : ScopeId) (point : Point), census.Covers route scope next → point.Valid census →
      next ≤ point.findings.table.scopes.length →
      route.Follows census limit scope next point (route.walk limit scope point) := by
  induction route with
  | stay | jump exit =>
    intro scope next point covers valid early
    exact ⟨.refl valid, early⟩
  | step action =>
    intro scope next point covers valid early
    have reached := action.reaches valid covers.occurrences
    exact ⟨reached, Nat.le_trans early reached.grows.scopes⟩
  | seq first second ihFirst ihSecond =>
    intro scope next point covers valid early
    have start := ihFirst scope next point covers.left valid early
    exact start.seq (ihSecond scope _ _ covers.right start.reaches.valid start.opened)
  | ensure first second ihFirst ihSecond | finish first second ihFirst ihSecond =>
    intro scope next point covers valid early
    have covers : census.Covers (.seq first second) scope next := ⟨covers.occurrences, covers.functions⟩
    have start := ihFirst scope next point covers.left valid early
    have both := start.seq (ihSecond scope _ _ covers.right start.reaches.valid start.opened)
    exact ⟨both.reaches, both.opened⟩
  | fork left right ihLeft ihRight =>
    intro scope next point covers valid early
    have covers : census.Covers (.seq left right) scope next := ⟨covers.occurrences, covers.functions⟩
    have start := ihLeft scope next point covers.left valid early
    have back := start.reaches.back valid
    have other := ihRight scope _ _ covers.right back.valid start.opened
    have joined := (back.trans other.reaches).join (start.reaches.valid.flow.mono other.reaches.grows.graph)
    rw [start.reaches.valid.flow.live_mono other.reaches.grows.graph, start.reaches.live, back.view] at joined
    refine ⟨joined, ?_⟩
    simp only [functionIds, List.length_append, ← Nat.add_assoc]
    exact other.opened
  | attempt body ih =>
    intro scope next point covers valid early
    have inside := ih scope next point ⟨covers.occurrences, covers.functions⟩ valid early
    have joined := inside.reaches.join (valid.flow.mono inside.reaches.grows.graph)
    rw [valid.flow.live_mono inside.reaches.grows.graph] at joined
    exact ⟨joined, inside.opened⟩
  | loop body ih =>
    intro scope next point covers valid early
    have pass (other : Point) (good : other.Valid census) (later : point.Grows other) :
        other.Reaches census (body.occurrences scope next) (body.see limit scope next other.view)
          (body.walk limit scope other) ∧
        next + body.functionIds.length ≤ (body.walk limit scope other).findings.table.scopes.length := by
      have inside := ih scope next other ⟨covers.occurrences, covers.functions⟩ good
        (Nat.le_trans early later.scopes)
      exact ⟨inside.reaches, inside.opened⟩
    have repeated := Point.reaches_walkLoop pass valid.flow limit point valid (.refl point)
      fun none => absurd none (Nat.ne_of_gt some_pass)
    exact ⟨repeated.1, repeated.2⟩
  | aside body ih =>
    intro scope next point covers valid early
    have inside := ih scope next point ⟨covers.occurrences, covers.functions⟩ valid early
    exact ⟨inside.reaches.back valid, inside.opened⟩
  | function id name line body ih =>
    intro scope next point covers valid early
    obtain ⟨known, rfl, listed, named, inner⟩ := covers.function
    obtain ⟨own, entered, room⟩ := valid.reaches_function named listed early
    have inside := ih next (next + 1) _ inner entered.valid room
    have back := (entered.trans inside.reaches).back valid
    rw [entered.view] at back
    have opened := inside.opened
    constructor
    · simp only [walk, own]
      exact back
    · simp only [walk, own, functionIds, List.length_cons]
      rw [Nat.add_comm _ 1, ← Nat.add_assoc]
      exact opened

end ArrayLift
