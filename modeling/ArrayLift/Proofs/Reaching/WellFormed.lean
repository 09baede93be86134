import ArrayLift.Proofs.Reaching.Definitions
import ArrayLift.Proofs.Reaching.Events
import ArrayLift.Proofs.Walk.Drawn

/-! The graph that resolution returns, beside its table: edges lead from definitions to what is read or declared,
within one scope and under one name, a declaration hangs on its own definition alone, and what has a node is what
the table records. -/
namespace ArrayLift

open DefUse

/-- Is the name read here? -/
def OccurrenceKind.isRead : OccurrenceKind → Bool
  | .use | .partialDefinition => true
  | .definition | .parameter | .declaration | .functionName => false

namespace DefUse.Node

/-- Does the node define its name? -/
def isSource : Node → Bool
  | .occurrence _ _ kind => kind.isSource
  | .implicit .. | .global _ | .persistent .. => true

/-- Is its name read at the node? -/
def isRead : Node → Bool
  | .occurrence _ _ kind => kind.isRead
  | .implicit .. | .global _ | .persistent .. => false

def isDeclaration : Node → Bool
  | .occurrence _ _ kind => kind = .declaration
  | .implicit .. | .global _ | .persistent .. => false

/-- A node of a scope. The definition behind global declarations is in none. -/
def Within (table : ScopeTable) (scope : ScopeId) : Node → Prop
  | .occurrence id name kind =>
    ∃ occurrence ∈ table.occurrences, occurrence.node = .occurrence id name kind ∧ occurrence.scope = scope
  | .implicit own _ | .persistent own _ => own = scope
  | .global _ => False

/-- A node that may be the source of edges in a scope. -/
def Defines (table : ScopeTable) (scope : ScopeId) (node : Node) : Prop :=
  node.isSource = true ∧ (node = .global node.name ∨ node.Within table scope)

theorem Defines.binding (table : ScopeTable) (declaration : Declaration) (scope : ScopeId) (name : String) :
    (binding declaration scope name).Defines table scope := by
  cases declaration with
  | global => exact ⟨rfl, .inl rfl⟩
  | persistent => exact ⟨rfl, .inr rfl⟩

end DefUse.Node

/-- The definition behind a declaration, and the declaration. -/
def Step.declared? (scope : ScopeId) : Step → Option (Node × Node)
  | .declare declaration id name _ => some (.binding declaration scope name, .occurrence id name .declaration)
  | .use .. | .define .. | .checkArity .. => none

/-- The declarations on a route with the definitions behind them. -/
def Route.declarations (route : Route) (scope next : ScopeId) : List (Node × Node) :=
  (route.places scope next).filterMap fun place => place.2.declared? place.1

def Program.declarations (program : Program) : List (Node × Node) :=
  program.route.declarations ScopeTable.script 1

/-- What holds of graph and table whatever the program is. -/
structure Analysis.WellFormed (analysis : Analysis) (declarations : List (Node × Node)) : Prop where
  /-- No subject has two nodes. -/
  single : analysis.graph.Distinct
  edges : ∀ source target, (source, target) ∈ analysis.graph.edges → ∃ definition occurrence scope,
    analysis.graph.node? source = some definition ∧ analysis.graph.node? target = some occurrence ∧
      definition.Defines analysis.table scope ∧ occurrence.Within analysis.table scope ∧
      (occurrence.isRead = true ∨ occurrence.isDeclaration = true) ∧ definition.name = occurrence.name
  /-- A declaration has one incoming edge, from its own definition, and no outgoing one. -/
  declared : ∀ index id name, analysis.graph.node? index = some (.occurrence id name .declaration) →
    ∃ pin binding, analysis.graph.sources index = [pin] ∧ analysis.graph.node? pin = some binding ∧
      (binding, .occurrence id name .declaration) ∈ declarations ∧ analysis.graph.targets index = []
  nodes : ∀ id name kind, (∃ index, analysis.graph.node? index = some (.occurrence id name kind)) ↔
    kind ≠ .functionName ∧ ∃ occurrence ∈ analysis.table.occurrences, occurrence.node = .occurrence id name kind
  roles : ∀ occurrence ∈ analysis.table.occurrences, occurrence.kind = .use →
    (occurrence.role = .variable ↔ ∃ source target, (source, target) ∈ analysis.graph.edges ∧
      analysis.graph.node? target = some occurrence.node)

/-! Edges of traces. -/

/-- An event that defines what the sources have, reads what the targets have, and declares as the declarations
do. -/
def Event.Joins (sources targets : Set Node) (declarations : Set (Node × Node)) : Event → Prop
  | .use node => node ∈ targets
  | .define node pinned => node ∈ sources ∧ ∀ pin ∈ pinned, pin ∈ sources
  | .update node => node ∈ sources ∧ node ∈ targets
  | .declare node binding => binding ∈ sources ∧ (binding, node) ∈ declarations
  | .aside _ => True

section
variable {sources targets : Set Node} {declarations : Set (Node × Node)}

theorem Event.after_within (event : Event) (joins : event.All (Event.Joins sources targets declarations))
    {live : Set Node} (within : live ⊆ sources) : event.after live ⊆ sources := by
  intro definition there
  cases event with
  | use | aside => exact within there
  | define node pinned =>
    rcases there with rfl | ⟨_, met⟩ | ⟨old, _⟩
    · exact joins.1
    · exact joins.2 definition met
    · exact within old
  | update node =>
    rcases there with rfl | old
    · exact joins.1
    · exact within old
  | declare node binding =>
    rcases there with rfl | ⟨old, _⟩
    · exact joins.1
    · exact within old

mutual
theorem Event.links_within : ∀ (event : Event) {live : Set Node}, event.All (Event.Joins sources targets declarations) →
    live ⊆ sources → ∀ {definition occurrence : Node}, (definition, occurrence) ∈ event.links live →
      definition ∈ sources ∧ ((occurrence ∈ targets ∧ definition.name = occurrence.name) ∨
        (definition, occurrence) ∈ declarations)
  | .use _, _, joins, within, _, _, ⟨rfl, old, named⟩ => ⟨within old, .inl ⟨joins, named⟩⟩
  | .update _, _, joins, within, _, _, ⟨rfl, old, named⟩ => ⟨within old, .inl ⟨joins.2, named⟩⟩
  | .declare _ _, _, joins, _, _, _, rfl => ⟨joins.1, .inr joins.2⟩
  | .aside inner, _, joins, within, _, _, linked => Trace.links_within inner joins within linked

theorem Trace.links_within : ∀ (trace : List Event) {live : Set Node},
    Trace.All (Event.Joins sources targets declarations) trace → live ⊆ sources →
    ∀ {definition occurrence : Node}, (definition, occurrence) ∈ Trace.links trace live →
      definition ∈ sources ∧ ((occurrence ∈ targets ∧ definition.name = occurrence.name) ∨
        (definition, occurrence) ∈ declarations)
  | event :: _, _, joins, within, _, _, .inl here => Event.links_within event joins.1 within here
  | event :: rest, _, joins, within, _, _, .inr later =>
    Trace.links_within rest joins.2 (event.after_within joins.1 within) later
end

end

/-! Declarations are walked, and each identity is declared once. -/

namespace Route

variable {route : Route} {scope next limit : Nat} {pair : Node × Node}

theorem mem_declarations : pair ∈ route.declarations scope next ↔
    ∃ place ∈ route.places scope next, place.2.declared? place.1 = some pair :=
  List.mem_filterMap

/-- The walk connects every declaration with the definition behind it. -/
theorem edge_of_declaration (enough : 3 ≤ limit) (tidy : route.Tidy) (inside : scope < next)
    (member : pair ∈ route.declarations scope next) (view : View) :
    pair ∈ (route.see limit scope next view).edges := by
  obtain ⟨place, visited, declared⟩ := mem_declarations.mp member
  induction route generalizing scope next view with
  | stay | jump _ => cases visited
  | step action =>
    obtain rfl := List.mem_singleton.mp visited
    cases action with
    | use | define | checkArity => cases declared
    | declare declaration id name line =>
      cases declared
      exact .inl rfl
  | seq first second ihFirst ihSecond | ensure first second ihFirst ihSecond | finish first second ihFirst ihSecond
  | fork first second ihFirst ihSecond =>
    have later : scope < next + first.functionIds.length := Nat.lt_add_right _ inside
    rcases List.mem_append.mp visited with inFirst | inSecond
    · apply (second.describes enough tidy.2 later).edges
      exact ihFirst tidy.1 inside (mem_declarations.mpr ⟨place, inFirst, declared⟩) view inFirst
    · exact ihSecond tidy.2 later (mem_declarations.mpr ⟨place, inSecond, declared⟩) _ inSecond
  | attempt body ih => exact ih tidy inside member view visited
  | aside body ih => exact ih tidy.tidy inside member view visited
  | loop body ih =>
    obtain ⟨final, _, same⟩ := (body.describes enough tidy inside).settled enough view
    simp only [see, same]
    exact ih tidy inside member final visited
  | function id name line body ih => exact ih tidy (Nat.lt_succ_self next) member _ visited

end Route

namespace Program

variable (program : Program) (settings : Settings)

theorem declaration_unique {one other : Node} {id : IdentId} {name text : String}
    (first : (one, .occurrence id name .declaration) ∈ program.withIds.1.declarations)
    (second : (other, .occurrence id text .declaration) ∈ program.withIds.1.declarations) : one = other := by
  obtain ⟨⟨scope, action⟩, visited, declared⟩ := Route.mem_declarations.mp first
  obtain ⟨⟨further, another⟩, too, also⟩ := Route.mem_declarations.mp second
  cases action with
  | use | define | checkArity => cases declared
  | declare declaration own called line =>
    cases another with
    | use | define | checkArity => cases also
    | declare =>
      cases declared
      cases also
      have same := (Stmt.spans_block program.statements 0).steps _ _ _ visited _ too id rfl rfl
      cases same
      rfl

/-- An occurrence at a step of the program is in the table, with the scope of the step. -/
theorem within_of_place {scope : ScopeId} {action : Step}
    (visited : (scope, action) ∈ program.withIds.1.route.places ScopeTable.script 1) {occurrence : Occurrence}
    (own : action.occurrence? scope = some occurrence) :
    occurrence.node.Within (program.resolve settings).analysis.table scope := by
  obtain ⟨numbered, here⟩ := Step.id?_of_occurrence? own
  obtain ⟨other, inside, same, _⟩ := Route.occurrence_of_place visited numbered
  obtain rfl : other = occurrence := Option.some.inj (same.symm.trans own)
  exact ⟨_, (program.resolve_occurrences settings _).mpr ⟨other, inside, rfl⟩, rfl, here⟩

/-- A step of a region is a step of the program. -/
theorem place_of_step {region : Region} (member : region ∈ program.withIds.1.regions) {action : Step}
    (own : action ∈ region.body.steps) :
    (region.scope, action) ∈ program.withIds.1.route.places ScopeTable.script 1 := by
  rcases List.mem_cons.mp member with rfl | nested
  · exact Route.place_of_step own ScopeTable.script 1
  · exact Route.places_region nested (Route.place_of_step own region.scope _)

/-- A step belongs to one region, by its identity. -/
theorem region_of_place {place : ScopeId × Step} (visited : place ∈ program.route.places ScopeTable.script 1) :
    ∃ region ∈ program.regions, region.scope = place.1 ∧ place.2 ∈ region.body.steps := by
  rcases Route.region_of_place false visited with ⟨same, own⟩ | ⟨region, nested, found⟩
  · exact ⟨_, List.mem_cons_self, same.symm, own⟩
  · exact ⟨region, List.mem_cons_of_mem _ nested, found⟩

/-- The events at the steps of a region define and read names of its scope. -/
theorem joins_of_step {region : Region} (member : region ∈ program.withIds.1.regions) {action : Step}
    (own : action ∈ region.body.steps) {listed : List Node} {event : Event}
    (pinned : ∀ node ∈ listed, node.Defines (program.resolve settings).analysis.table region.scope)
    (happens : action.event? region.scope listed = some event) :
    event.Joins {node | node.Defines (program.resolve settings).analysis.table region.scope}
      {node | node.Within (program.resolve settings).analysis.table region.scope ∧ node.isRead = true}
      {pair | pair ∈ program.withIds.1.declarations ∧
        pair.2.Within (program.resolve settings).analysis.table region.scope} := by
  have visited := program.place_of_step member own
  have sound := program.withIds.1.sound_route.place visited
  have within {occurrence : Occurrence} (here : action.occurrence? region.scope = some occurrence) :=
    program.within_of_place settings visited here
  cases action with
  | checkArity => cases happens
  | use id name line indexed arrayOnly =>
    cases happens
    exact ⟨within rfl, rfl⟩
  | define id name line kind =>
    by_cases part : kind = .partialDefinition
    · subst part
      cases happens
      exact ⟨⟨rfl, .inr (within rfl)⟩, within rfl, rfl⟩
    · simp only [Step.event?, part, if_false, Option.some.injEq] at happens
      subst happens
      exact ⟨⟨sound, .inr (within rfl)⟩, pinned⟩
  | declare declaration id name line =>
    cases happens
    exact ⟨.binding _ declaration region.scope name, Route.mem_declarations.mpr ⟨_, visited, rfl⟩, within rfl⟩

/-- What a trace of the script or a function leads from and to. -/
theorem defines_of_reaches {region : Region} (member : region ∈ program.withIds.1.regions)
    {definition occurrence : Node} (reaches : region.Reaches region.pinned definition occurrence) :
    definition.Defines (program.resolve settings).analysis.table region.scope ∧
      occurrence.Within (program.resolve settings).analysis.table region.scope ∧
      ((occurrence.isRead = true ∧ definition.name = occurrence.name) ∨
        (definition, occurrence) ∈ program.withIds.1.declarations) := by
  obtain ⟨trace, inBody, linked⟩ := reaches
  let sources : Set Node := {node | node.Defines (program.resolve settings).analysis.table region.scope}
  have declares : ∀ node ∈ region.body.bindings region.scope, node ∈ sources := by
    intro node met
    obtain ⟨declaration, id, name, line, _, rfl⟩ := Route.mem_bindings.mp met
    exact .binding _ declaration region.scope name
  have pins : ∀ node ∈ region.pinned, node ∈ sources := by
    intro node met
    unfold Region.pinned at met
    split at met
    · exact declares node met
    · cases met
  have start : {node | node ∈ region.start} ⊆ sources := by
    intro node there
    rcases List.mem_cons.mp member with rfl | nested
    · cases there
    · replace there : node ∈ region.start := there
      rw [Route.region_start nested] at there
      obtain ⟨binding, _, rfl⟩ := List.mem_map.mp there
      exact ⟨rfl, .inr rfl⟩
  have joins := region.body.all_events (fun action own listed _ some event happens =>
    program.joins_of_step settings member own (fun node there =>
      (List.mem_append.mp (some there)).elim (declares node) (pins node)) happens) inBody
  obtain ⟨source, ⟨⟨within, read⟩, named⟩ | ⟨declared, within⟩⟩ := Trace.links_within trace joins start linked
  · exact ⟨source, within, .inl ⟨read, named⟩⟩
  · exact ⟨source, within, .inr declared⟩

/-- What an edge leads from and to. -/
theorem joined_of_link {definition occurrence : Node}
    (edge : (definition, occurrence) ∈ (program.resolve settings).analysis.graph.links) :
    ∃ scope, definition.Defines (program.resolve settings).analysis.table scope ∧
      occurrence.Within (program.resolve settings).analysis.table scope ∧
      ((occurrence.isRead = true ∧ definition.name = occurrence.name) ∨
        (definition, occurrence) ∈ program.withIds.1.declarations) := by
  obtain ⟨region, member, reaches⟩ := program.reaches_of_edge settings edge
  exact ⟨region.scope, program.defines_of_reaches settings member reaches⟩

theorem name_of_declaration {binding node : Node} (declared : (binding, node) ∈ program.withIds.1.declarations) :
    ∃ id, node = .occurrence id binding.name .declaration := by
  obtain ⟨⟨scope, action⟩, _, same⟩ := Route.mem_declarations.mp declared
  cases action with
  | use | define | checkArity => cases same
  | declare declaration id name line =>
    cases same
    exact ⟨id, by rw [Node.name_binding]⟩

/-- The graph has what the table of the walk has. -/
theorem findings_drawn (limit : Nat) :
    (program.findings limit).graph.Draws (program.findings limit).table.occurrences := by
  rw [program.findings_route limit]
  apply Route.drawn limit program.route program.sound_route
  refine ⟨List.nodup_nil, ?_, fun _ _ none => by cases none⟩
  rw [(Findings.start_table _).1]
  exact fun _ none => by cases none

end Program

/-- The sources of the edges to a node, if they are all the same. -/
theorem DefUse.Graph.sources_eq {graph : Graph} (single : graph.edges.Nodup) {source target : NodeId}
    (edge : (source, target) ∈ graph.edges) (sole : ∀ other, (other, target) ∈ graph.edges → other = source) :
    graph.sources target = [source] := by
  have all : graph.edges.filter (fun edge => edge.2 = target) = [(source, target)] := by
    refine List.perm_singleton.mp ((List.perm_ext_iff_of_nodup (single.filter _) (List.nodup_singleton _)).mpr ?_)
    intro other
    obtain ⟨first, second⟩ := other
    simp only [List.mem_filter, decide_eq_true_eq, List.mem_singleton, Prod.mk.injEq]
    constructor
    · rintro ⟨member, rfl⟩
      exact ⟨sole first member, rfl⟩
    · rintro ⟨rfl, rfl⟩
      exact ⟨edge, rfl⟩
  simp [sources, all]

/-- A use is one of a variable if its node has an incoming edge. -/
theorem DefUse.Graph.roleOf_use {graph : Graph} (distinct : graph.Distinct) {occurrence : Occurrence}
    (use : occurrence.kind = .use) {target : NodeId} (there : graph.node? target = some occurrence.node) :
    graph.roleOf occurrence = .variable ↔ ∃ source, (source, target) ∈ graph.edges := by
  have reached : graph.isReached target = true ↔ ∃ source, (source, target) ∈ graph.edges := by
    simp [isReached]
  simp only [roleOf, use, nodeOf?_eq distinct there, ← reached]
  by_cases known : graph.isReached target = true <;> simp [known]

/-- Two occurrences of one kind have the same role, if it is no use or both or none of them are reached. -/
theorem DefUse.Graph.roleOf_congr {graph other : Graph} {one two : Occurrence} (same : one.kind = two.kind)
    (uses : one.kind = .use → (graph.roleOf one = .variable ↔ other.roleOf two = .variable)) :
    graph.roleOf one = other.roleOf two := by
  cases kind : one.kind with
  | use =>
    have either (graph : Graph) {occurrence : Occurrence} (use : occurrence.kind = .use) :
        graph.roleOf occurrence = .variable ∨ graph.roleOf occurrence = .function := by
      simp only [roleOf, use]
      split
      · split
        · exact .inl rfl
        · exact .inr rfl
      · exact .inr rfl
    have alike := uses kind
    rcases either graph kind with left | left <;> rcases either other (same.symm.trans kind) with right | right <;>
      simp_all
  | definition | partialDefinition | parameter | declaration | functionName =>
    simp only [roleOf, ← same, kind]

namespace Program

variable (program : Program) (settings : Settings)

/-- An occurrence that is a declaration has a definition behind it. -/
theorem declared_of_occurrence {occurrence : Occurrence} (inside : occurrence ∈ program.census.occurrences)
    (declares : occurrence.kind = .declaration) :
    ∃ binding, (binding, occurrence.node) ∈ program.withIds.1.declarations := by
  obtain ⟨⟨scope, action⟩, visited, own⟩ :=
    Route.place_of_occurrence inside (by rw [declares]; exact fun same => by cases same)
  have sound := program.withIds.1.sound_route.place visited
  cases action with
  | checkArity => cases own
  | use id name line indexed arrayOnly =>
    cases own
    cases declares
  | define id name line kind =>
    cases own
    obtain rfl : kind = .declaration := declares
    cases sound
  | declare declaration id name line =>
    cases own
    exact ⟨_, Route.mem_declarations.mpr ⟨_, visited, rfl⟩⟩

/-- The nodes of occurrences are those of the program that do not name functions. -/
theorem node_iff_occurrence (node : Node) (id : IdentId) (own : node.occurrence? = some id) :
    (∃ index, (program.resolve settings).analysis.graph.node? index = some node) ↔
      ∃ occurrence ∈ program.census.occurrences, occurrence.node = node ∧ occurrence.kind ≠ .functionName := by
  have valid : (program.withIds.1.findings (walkLimit program.withIds.2)).Valid program.census :=
    program.findings_valid.1
  have drawn := program.withIds.1.findings_drawn (walkLimit program.withIds.2)
  have known {index : NodeId} {other : Node} {other_id : IdentId}
      (there : (program.resolve settings).analysis.graph.node? index = some other)
      (own : other.occurrence? = some other_id) :
      ∃ occurrence ∈ program.census.occurrences, other = occurrence.node := by
    rcases valid.known index other there with none | found
    · rw [own] at none
      cases none
    · exact found
  constructor
  · intro found
    obtain ⟨index, there⟩ := found
    obtain ⟨occurrence, inside, rfl⟩ := known there own
    refine ⟨occurrence, inside, rfl, fun named => drawn.plain occurrence.id occurrence.name ?_⟩
    have member := List.mem_of_getElem? there
    rw [Occurrence.node, named] at member
    exact member
  · intro found
    obtain ⟨occurrence, inside, rfl, plain⟩ := found
    have recorded := (program.findings_valid.2.2 occurrence).mpr inside
    obtain ⟨node, member, same⟩ := drawn.recorded occurrence recorded plain
    obtain ⟨index, there⟩ := List.getElem?_of_mem member
    obtain ⟨other, listed, rfl⟩ := known there same
    rw [program.census.single other listed occurrence inside (Option.some.inj same)] at there
    exact ⟨index, there⟩

/-- A use is one of a variable if some definition reaches it. -/
theorem roleOf_use_iff {occurrence : Occurrence} (inside : occurrence ∈ program.census.occurrences)
    (use : occurrence.kind = .use) :
    (program.resolve settings).analysis.graph.roleOf occurrence = .variable ↔
      ∃ definition, (definition, occurrence.node) ∈ (program.resolve settings).analysis.graph.links := by
  have valid := program.findings_valid.1
  have plain : occurrence.kind ≠ .functionName := by rw [use]; exact fun same => by cases same
  obtain ⟨index, there⟩ := (program.node_iff_occurrence settings occurrence.node occurrence.id rfl).mpr
    ⟨occurrence, inside, rfl, plain⟩
  refine (Graph.roleOf_use valid.distinct use there).trans ⟨fun incoming => ?_, fun incoming => ?_⟩
  · obtain ⟨source, edge⟩ := incoming
    obtain ⟨definition, atSource⟩ := (valid.closed source index edge).1
    exact ⟨definition, source, index, edge, atSource, there⟩
  · obtain ⟨definition, source, target, edge, _, atTarget⟩ := incoming
    obtain rfl : target = index := valid.distinct target index _ _ atTarget there (Graph.sameSubject_self _)
    exact ⟨source, edge⟩

/-- An edge connects two nodes. -/
theorem link_of_edge {source target : NodeId}
    (edge : (source, target) ∈ (program.resolve settings).analysis.graph.edges) :
    ∃ definition occurrence, (program.resolve settings).analysis.graph.node? source = some definition ∧
      (program.resolve settings).analysis.graph.node? target = some occurrence ∧
      (definition, occurrence) ∈ (program.resolve settings).analysis.graph.links := by
  obtain ⟨⟨definition, atSource⟩, occurrence, atTarget⟩ := program.findings_valid.1.closed source target edge
  exact ⟨definition, occurrence, atSource, atTarget, source, target, edge, atSource, atTarget⟩

/-- The definition behind a declaration has an edge to it. -/
theorem link_of_declaration {pair : Node × Node} (declared : pair ∈ program.withIds.1.declarations) :
    pair ∈ (program.resolve settings).analysis.graph.links := by
  rw [program.resolve_links settings]
  exact Route.edge_of_declaration (three_le_walkLimit program.withIds.2) program.withIds.1.tidy_route Nat.one_pos
    declared .start

/-- A declaration hangs on the definition behind it, and on nothing else. -/
theorem sources_of_declaration {index : NodeId} {id : IdentId} {name : String}
    (there : (program.resolve settings).analysis.graph.node? index = some (.occurrence id name .declaration)) :
    ∃ pin binding, (program.resolve settings).analysis.graph.sources index = [pin] ∧
      (program.resolve settings).analysis.graph.node? pin = some binding ∧
      (binding, .occurrence id name .declaration) ∈ program.withIds.1.declarations := by
  have distinct : (program.resolve settings).analysis.graph.Distinct := program.findings_valid.1.distinct
  have drawn := program.withIds.1.findings_drawn (walkLimit program.withIds.2)
  obtain ⟨occurrence, inside, same, _⟩ := (program.node_iff_occurrence settings _ id rfl).mp ⟨index, there⟩
  obtain ⟨binding, declared⟩ := program.declared_of_occurrence inside (Node.occurrence.inj same).2.2
  rw [same] at declared
  obtain ⟨pin, target, edge, atPin, atTarget⟩ := program.link_of_declaration settings declared
  obtain rfl : target = index := distinct target index _ _ atTarget there (Graph.sameSubject_self _)
  refine ⟨pin, binding, Graph.sources_eq drawn.edges edge fun other incoming => ?_, atPin, declared⟩
  obtain ⟨definition, reached, atSource, atReached, link⟩ := program.link_of_edge settings incoming
  obtain rfl := Option.some.inj (there.symm.trans atReached)
  obtain ⟨_, _, _, ⟨read, _⟩ | also⟩ := program.joined_of_link settings link
  · cases read
  · rw [program.declaration_unique also declared] at atSource
    exact distinct other pin _ _ atSource atPin (Graph.sameSubject_self _)

/-- Nothing hangs on a declaration. -/
theorem targets_of_declaration {index : NodeId} {id : IdentId} {name : String}
    (there : (program.resolve settings).analysis.graph.node? index = some (.occurrence id name .declaration)) :
    (program.resolve settings).analysis.graph.targets index = [] := by
  simp only [Graph.targets, List.map_eq_nil_iff, List.filter_eq_nil_iff, decide_eq_true_eq]
  rintro ⟨source, further⟩ outgoing rfl
  obtain ⟨definition, reached, atSource, _, link⟩ := program.link_of_edge settings outgoing
  obtain rfl := Option.some.inj (there.symm.trans atSource)
  obtain ⟨_, ⟨source, _⟩, _⟩ := program.joined_of_link settings link
  cases source

end Program

/-- The graph that resolution returns is well formed. -/
theorem Program.wellFormed_resolve (program : Program) (settings : Settings) :
    (program.resolve settings).analysis.WellFormed program.withIds.1.declarations := by
  refine ⟨program.findings_valid.1.distinct, ?edges, ?declared, ?nodes, ?roles⟩
  case edges =>
    intro source target edge
    obtain ⟨definition, occurrence, atSource, atTarget, link⟩ := program.link_of_edge settings edge
    obtain ⟨scope, defines, within, ⟨read, named⟩ | declared⟩ := program.joined_of_link settings link
    · exact ⟨definition, occurrence, scope, atSource, atTarget, defines, within, .inl read, named⟩
    · obtain ⟨id, rfl⟩ := program.name_of_declaration declared
      exact ⟨definition, _, scope, atSource, atTarget, defines, within, .inr rfl, rfl⟩
  case declared =>
    intro index id name there
    obtain ⟨pin, binding, sources, atPin, declared⟩ := program.sources_of_declaration settings there
    exact ⟨pin, binding, sources, atPin, declared, program.targets_of_declaration settings there⟩
  case nodes =>
    intro id name kind
    rw [program.node_iff_occurrence settings _ id rfl]
    constructor
    · intro found
      obtain ⟨occurrence, inside, same, plain⟩ := found
      have listed := (program.resolve_occurrences settings _).mpr ⟨occurrence, inside, rfl⟩
      exact ⟨(Node.occurrence.inj same).2.2 ▸ plain, _, listed, same⟩
    · intro found
      obtain ⟨plain, occurrence, listed, same⟩ := found
      obtain ⟨origin, inside, rfl⟩ := (program.resolve_occurrences settings _).mp listed
      exact ⟨origin, inside, same, (Node.occurrence.inj same).2.2 ▸ plain⟩
  case roles =>
    intro occurrence listed use
    obtain ⟨origin, inside, rfl⟩ := (program.resolve_occurrences settings _).mp listed
    replace use : origin.kind = .use := use
    refine (program.roleOf_use_iff settings inside use).trans ⟨fun reached => ?_, fun incoming => ?_⟩
    · obtain ⟨_, source, target, edge, _, there⟩ := reached
      exact ⟨source, target, edge, there⟩
    · obtain ⟨source, target, edge, there⟩ := incoming
      obtain ⟨definition, node, _, atTarget, link⟩ := program.link_of_edge settings edge
      obtain rfl := Option.some.inj (there.symm.trans atTarget)
      exact ⟨definition, link⟩

end ArrayLift
