import ArrayLift.Proofs.Isolation.Alone
import ArrayLift.Proofs.Reaching.WellFormed

/-! Functions are resolved by themselves. What resolution finds out about a function, its roles, its calls and the
edges from its own definitions, is what it finds out about the function alone, moved up to the identities and scopes
that the function has in the program. -/
namespace ArrayLift

open DefUse

/-! Definitions of a function. -/

/-- An occurrence of an identifier of the function, or a definition that the function or one inside starts with; the
scope of the function comes first, those of the functions inside follow. -/
def DefUse.Node.IsOf (function : Stmt) (scope : ScopeId) : Node → Prop
  | .occurrence id _ _ => ∃ mention ∈ function.mentions, mention.ident.id = some id
  | .implicit own _ => scope ≤ own ∧ scope + function.functions.length > own
  | .global _ | .persistent .. => False

/-- The edges from the definitions of a function, those behind its declarations apart. -/
def Resolution.edgesFrom (resolution : Resolution) (function : Stmt) (scope : ScopeId) : Set (Node × Node) :=
  {edge ∈ resolution.analysis.graph.links | edge.1.IsOf function scope}

/-- Annotation leaves a function its definitions. -/
theorem DefUse.Node.isOf_annotate (function : Stmt) (table : ScopeTable) (words : ReservedWords) (scope : ScopeId)
    (node : Node) : node.IsOf (function.annotate table words).1 scope ↔ node.IsOf function scope := by
  cases node with
  | global | persistent => exact Iff.rfl
  | implicit own name =>
    have length : (function.annotate table words).1.functions.length = function.functions.length := by
      rw [function.functions_annotate, List.length_map]
    simp only [IsOf, length]
  | occurrence id name kind =>
    have same (mention : Mention) : (mention.annotate table words).ident.id = mention.ident.id :=
      mention.ident.id_annotate table words
    simp only [IsOf, function.mentions_annotate, List.mem_map, exists_exists_and_eq_and, same]

namespace Program

variable (program : Program) (settings : Settings)

theorem map_scope_regions :
    program.regions.map Region.scope = List.range' 0 (program.route.functionIds.length + 1) := by
  rw [List.range'_succ]
  exact congrArg (List.cons 0) (program.route.map_scope_regions 1 false)

/-- A scope belongs to one region. -/
theorem region_unique {one other : Region} (left : one ∈ program.regions) (right : other ∈ program.regions)
    (same : one.scope = other.scope) : one = other := by
  have distinct : (program.regions.map Region.scope).Nodup := by
    rw [program.map_scope_regions]
    exact List.nodup_range'
  exact List.inj_on_of_nodup_map distinct left right same

end Program

/-! A function in a program. -/

/-- The program has a function as its function of this index: a statement that is the function, numbered from `first`
on, apart from the lines, and its route on the route through the program. -/
structure Program.Copy (program : Program) (function : Stmt) (index : Nat) where
  first : Nat
  statement : Stmt
  isFunction : statement.isFunction = true
  explicit : statement.Explicit
  alike : statement.shifted 0 = function.alone.shifted first
  mentioned : statement.mentions ⊆ program.withIds.1.mentions
  counted : Counted statement.mentions first (function.size + first)
  outer : ScopeId
  again : Bool
  stands : statement.functionRoute.Stands outer (1 + index) again program.withIds.1.route ScopeTable.script 1 false

namespace Program

variable {program other : Program} {function : Stmt} {index : Nat}

/-- With explicit ownership, what stands in the list of the functions is in the program. -/
theorem exists_copy (explicit : Stmt.ExplicitList program.withIds.1.statements) {first : Nat} {twin : Stmt}
    (placed : (Stmt.functionsList program.withIds.1.statements)[index]? = some (twin.withIds first).1)
    (same : function.shifted 0 = twin.shifted 0) :
    ∃ copy : program.Copy function index, copy.first = first ∧ copy.statement = (twin.withIds first).1 := by
  obtain ⟨alike, last⟩ := Stmt.withIds_alike same first
  have contained := Stmt.containedList program.withIds.1.statements
  have listed := List.mem_of_getElem? placed
  have routes : program.withIds.1.route.functionRoutes[index]? = some (twin.withIds first).1.functionRoute := by
    have functions := Stmt.functionRoutes_block program.withIds.1.statements explicit
    refine (congrArg (·[index]?) functions).trans ?_
    rw [List.getElem?_map, placed, Option.map_some]
  obtain ⟨outer, again, stands⟩ := Route.stands_of_functionRoutes routes ScopeTable.script 1 false
  have isFunction := contained.isFunction _ listed
  have mentioned := contained.mentioned _ listed
  have counted : Counted _ first (function.size + first) := last ▸ twin.counted_withIds first
  have owned := contained.explicit explicit _ listed
  exact ⟨⟨first, _, isFunction, owned, alike, mentioned, counted, outer, again, stands⟩, rfl, rfl⟩

namespace Copy

variable (copy : program.Copy function index)

/-- The route through the function in the program. -/
def route : Route := copy.statement.functionRoute

theorem moved : copy.route.shifted 0 = function.alone.functionRoute.shifted copy.first := by
  have route := copy.statement.functionRoute_shifted 0
  rw [copy.alike, Stmt.functionRoute_shifted] at route
  exact route.symm

/-- The scopes of the function are those of its regions alone. -/
theorem mem_regions_of_scope {region : Region} (member : region ∈ program.withIds.1.regions)
    (above : 1 + index ≤ (region.scope : Nat)) (below : 1 + index + copy.route.functionIds.length > region.scope) :
    region ∈ copy.route.regions (1 + index) copy.again := by
  have scopes := copy.route.map_scope_regions (1 + index) copy.again
  have listed : region.scope ∈ (copy.route.regions (1 + index) copy.again).map Region.scope := by
    rw [scopes]
    exact List.mem_range'_1.mpr ⟨above, below⟩
  obtain ⟨own, inside, same⟩ := List.mem_map.mp listed
  have there : own ∈ program.withIds.1.regions := List.mem_cons_of_mem _ (copy.stands.regions inside)
  rwa [← program.withIds.1.region_unique there member same]

/-- A step in the scopes of the function is a step of the function. -/
theorem mem_places_of_scope {place : ScopeId × Step}
    (visited : place ∈ program.withIds.1.route.places ScopeTable.script 1) (above : 1 + index ≤ (place.1 : Nat))
    (below : 1 + index + copy.route.functionIds.length > place.1) :
    place ∈ copy.route.places copy.outer (1 + index) := by
  obtain ⟨region, member, same, own⟩ := program.withIds.1.region_of_place visited
  obtain ⟨scope, action⟩ := place
  obtain rfl : region.scope = scope := same
  exact Route.places_region (copy.mem_regions_of_scope member above below) (Route.place_of_step own _ _)

/-- The identities of the function are at its occurrences alone. -/
theorem mem_occurrences_iff {occurrence : Occurrence} (inside : occurrence ∈ program.census.occurrences) :
    occurrence ∈ copy.route.occurrences copy.outer (1 + index) ↔
      copy.first ≤ occurrence.id ∧ function.size + copy.first > occurrence.id := by
  have passes (name : String) :
      copy.route.Passes occurrence.id name ↔ Marked occurrence.id name copy.statement.mentions :=
    Stmt.passes_functionRoute copy.isFunction
  rw [← copy.counted.exists_iff]
  constructor
  · intro own
    have passed := (Route.passes_iff_occurrence copy.route copy.outer (1 + index)).mpr ⟨occurrence, own, rfl, rfl⟩
    obtain ⟨mention, listed, _, same, _⟩ := (passes occurrence.name).mp passed
    exact ⟨mention, listed, same⟩
  · rintro ⟨mention, listed, numbered⟩
    -- the identity is that of a mention of the function, and the program has no other mention with it
    obtain ⟨found, met, walked, same, named⟩ :=
      (program.marked_iff_occurrence occurrence.id occurrence.name).mpr ⟨occurrence, inside, rfl, rfl⟩
    obtain rfl := program.counted_withIds.single (copy.mentioned listed) met (numbered.trans same.symm)
    have passed := (passes occurrence.name).mpr ⟨mention, listed, walked, same, named⟩
    obtain ⟨own, here, alike, _⟩ := (Route.passes_iff_occurrence copy.route copy.outer (1 + index)).mp passed
    rwa [← program.census.single own (copy.stands.occurrences here) occurrence inside alike]

/-- What is defined before a use of the function is defined in the function. -/
theorem reads_iff_innerReads {occurrence : Occurrence}
    (own : occurrence ∈ copy.route.occurrences copy.outer (1 + index)) (plain : occurrence.kind ≠ .functionName)
    (name : String) :
    (∃ region ∈ program.withIds.1.regions, region.body.Reads occurrence.id name region.names) ↔
      copy.route.InnerReads (1 + index) occurrence.id name := by
  constructor
  · rintro ⟨region, member, reads⟩
    obtain ⟨action, inBody, numbered⟩ := reads.step
    obtain ⟨place, visited, here⟩ := Route.place_of_occurrence own plain
    obtain ⟨above, below⟩ := Stmt.places_functionRoute copy.isFunction visited
    -- the identity stands at one step of the program, so the region is that of the use
    have same : (region.scope, action) = place :=
      (Stmt.spans_block program.statements 0).steps _ _ _ (program.place_of_step member inBody) _
        (copy.stands.places visited) occurrence.id numbered (Step.id?_of_occurrence? here).1
    subst same
    exact ⟨copy.again, region, copy.mem_regions_of_scope member above below, reads⟩
  · rintro ⟨repeated, region, member, reads⟩
    obtain ⟨again, inside⟩ := Route.regions_again member copy.again
    exact ⟨_, List.mem_cons_of_mem _ (copy.stands.regions inside), reads⟩

/-- The nodes of the occurrences of a function alone. -/
def aloneNodes (function : Stmt) : List Node :=
  (function.alone.functionRoute.occurrences ScopeTable.script 1).map Occurrence.node

theorem map_node_occurrences : (copy.route.occurrences copy.outer (1 + index)).map Occurrence.node =
    (aloneNodes function).map (Shift.mk copy.first 0).node := by
  rw [aloneNodes, List.map_map]
  exact Route.nodes_alike copy.moved _ _ _ _

theorem exists_occurrence {id : Nat} {name : String} {kind : OccurrenceKind}
    (found : .occurrence id name kind ∈ aloneNodes function) :
    ∃ occurrence ∈ copy.route.occurrences copy.outer (1 + index),
      occurrence.node = .occurrence (id + copy.first) name kind := by
  have moved : Node.occurrence (id + copy.first) name kind ∈
      (copy.route.occurrences copy.outer (1 + index)).map Occurrence.node := by
    rw [copy.map_node_occurrences]
    exact List.mem_map_of_mem found
  exact List.mem_map.mp moved

/-- What is no occurrence in the function alone has no role in the program. -/
theorem roleOf_unknown (settings : Settings) {id : Nat} (below : id < function.size)
    (nowhere : ∀ name kind, .occurrence id name kind ∉ aloneNodes function) :
    (program.resolve settings).analysis.table.roleOf (id + copy.first) = .unknown := by
  have absent : (program.resolve settings).analysis.table.occurrence? (id + copy.first) = none := by
    refine List.find?_eq_none.mpr fun occurrence listed same => ?_
    obtain ⟨origin, inside, rfl⟩ := (program.resolve_occurrences settings occurrence).mp listed
    have same : origin.id = id + copy.first := by simpa using same
    have own := (copy.mem_occurrences_iff inside).mpr
      ⟨same ▸ Nat.le_add_left copy.first id, same ▸ Nat.add_lt_add_right below copy.first⟩
    have moved : origin.node ∈ (aloneNodes function).map (Shift.mk copy.first 0).node := by
      rw [← copy.map_node_occurrences]
      exact List.mem_map_of_mem own
    obtain ⟨node, there, alike⟩ := List.mem_map.mp moved
    cases node with
    | implicit | global | persistent => cases alike
    | occurrence before name kind =>
      have shifted : before + copy.first = origin.id := (Node.occurrence.inj alike).1
      obtain rfl : before = id := Nat.add_right_cancel (shifted.trans same)
      exact nowhere name kind there
  rw [ScopeTable.roleOf, absent]
  rfl

/-- A use in the function is one of a variable if its name is defined before it in the function alone. -/
theorem roleOf_use_iff (settings : Settings) {occurrence : Occurrence}
    (own : occurrence ∈ copy.route.occurrences copy.outer (1 + index)) (use : occurrence.kind = .use) {id : Nat}
    (numbered : occurrence.id = id + copy.first) :
    (program.resolve settings).analysis.graph.roleOf occurrence = .variable ↔
      function.alone.functionRoute.InnerReads 1 id occurrence.name := by
  have plain : occurrence.kind ≠ .functionName := by rw [use]; exact fun same => by cases same
  rw [program.roleOf_use_iff settings (copy.stands.occurrences own) use, Occurrence.node, use,
    program.reached_iff_reads settings, copy.reads_iff_innerReads own plain, numbered,
    Route.innerReads_alike copy.moved]

end Copy

/-- The same identity of the same function has the same role in any two programs. -/
theorem Copy.roleOf_alike {position : Nat} (copy : program.Copy function index) (twin : other.Copy function position)
    (settings : Settings) {id : Nat} (below : id < function.size) :
    (program.resolve settings).analysis.table.roleOf (id + copy.first) =
      (other.resolve settings).analysis.table.roleOf (id + twin.first) := by
  by_cases found : ∃ name kind, .occurrence id name kind ∈ Copy.aloneNodes function
  · obtain ⟨name, kind, there⟩ := found
    obtain ⟨left, inLeft, atLeft⟩ := copy.exists_occurrence there
    obtain ⟨right, inRight, atRight⟩ := twin.exists_occurrence there
    obtain ⟨idLeft, nameLeft, kindLeft⟩ := Node.occurrence.inj atLeft
    obtain ⟨idRight, nameRight, kindRight⟩ := Node.occurrence.inj atRight
    rw [← idLeft, ← idRight, program.resolve_roleOf settings (copy.stands.occurrences inLeft),
      other.resolve_roleOf settings (twin.stands.occurrences inRight)]
    refine Graph.roleOf_congr (kindLeft.trans kindRight.symm) fun use => ?_
    rw [copy.roleOf_use_iff settings inLeft use idLeft,
      twin.roleOf_use_iff settings inRight (kindRight.trans (kindLeft.symm.trans use)) idRight, nameLeft, nameRight]
  · have nowhere : ∀ name kind, .occurrence id name kind ∉ Copy.aloneNodes function :=
      fun name kind there => found ⟨name, kind, there⟩
    rw [copy.roleOf_unknown settings below nowhere, twin.roleOf_unknown settings below nowhere]

/-! Edges. -/

theorem Copy.length_functions (copy : program.Copy function index) :
    copy.statement.functions.length = copy.route.functionIds.length := by
  rw [Copy.route, ← Route.length_functionRoutes, Stmt.functionRoutes_functionRoute copy.isFunction copy.explicit,
    List.length_map]

/-- A definition is one of the function if it stands in its scopes. -/
theorem Copy.isOf_iff_scope (copy : program.Copy function index) (settings : Settings) {node : Node} {scope : Nat}
    (ordinary : node.isBinding = false) (defines : node.Defines (program.resolve settings).analysis.table scope) :
    node.IsOf copy.statement (1 + index) ↔
      1 + index ≤ scope ∧ 1 + index + copy.route.functionIds.length > scope := by
  obtain ⟨source, global | within⟩ := defines
  · rw [global] at ordinary
    cases ordinary
  cases node with
  | global | persistent => cases ordinary
  | implicit own name =>
    obtain rfl : own = scope := within
    rw [Node.IsOf, copy.length_functions]
  | occurrence id name kind =>
    obtain ⟨occurrence, listed, same, here⟩ := within
    obtain ⟨origin, inside, rfl⟩ := (program.resolve_occurrences settings occurrence).mp listed
    obtain ⟨rfl, rfl, rfl⟩ := Node.occurrence.inj same
    replace here : origin.scope = scope := here
    have plain : origin.kind ≠ .functionName := fun named => by
      rw [Node.isSource, named] at source
      cases source
    rw [Node.IsOf, copy.counted.exists_iff, ← copy.mem_occurrences_iff inside]
    constructor
    · intro own
      obtain ⟨place, visited, found⟩ := Route.place_of_occurrence own plain
      rw [← here, (Step.id?_of_occurrence? found).2]
      exact Stmt.places_functionRoute copy.isFunction visited
    · rintro ⟨above, below⟩
      obtain ⟨place, visited, found⟩ := Route.place_of_occurrence inside plain
      have atScope := (Step.id?_of_occurrence? found).2.symm.trans here
      have own := copy.mem_places_of_scope visited (atScope ▸ above) (atScope ▸ below)
      obtain ⟨other, member, also, _⟩ := Route.occurrence_of_place own (Step.id?_of_occurrence? found).1
      rwa [Option.some.inj (found.symm.trans also)]

/-- The edges from the definitions of a function are found in the function. -/
theorem Copy.edges_eq_innerEdges (copy : program.Copy function index) (settings : Settings) :
    {edge ∈ (program.resolve settings).analysis.graph.links | edge.1.IsOf copy.statement (1 + index)} =
      copy.route.innerEdges (1 + index) := by
  ext edge
  constructor
  · rintro ⟨linked, own⟩
    have ordinary : edge.1.isBinding = false := by
      generalize edge.1 = node at own
      cases node with
      | occurrence | implicit => rfl
      | global | persistent => exact own.elim
    obtain ⟨region, member, reaches⟩ := program.reaches_of_edge settings linked
    obtain ⟨defines, _⟩ := program.defines_of_reaches settings member reaches
    obtain ⟨above, below⟩ := (copy.isOf_iff_scope settings ordinary defines).mp own
    exact ⟨ordinary, copy.again, region, copy.mem_regions_of_scope member above below,
      region.reaches_of_ordinary ordinary reaches⟩
  · rintro ⟨ordinary, repeated, region, member, reaches⟩
    obtain ⟨again, inside⟩ := Route.regions_again member copy.again
    have nested : _ ∈ program.withIds.1.regions := List.mem_cons_of_mem _ (copy.stands.regions inside)
    have alike : Region.Reaches { region with repeated := again } [] edge.1 edge.2 := reaches
    obtain ⟨defines, _⟩ :=
      program.defines_of_reaches settings nested (alike.imitate fun met => absurd met List.not_mem_nil)
    exact ⟨program.edge_of_reaches settings nested alike (Node.sole_of_ordinary ordinary _),
      (copy.isOf_iff_scope settings ordinary defines).mpr (Route.region_scope inside)⟩

/-! Trees. -/

/-- The tree of the function is the tree that it has in a program in which its identities start from zero, moved up. -/
theorem Copy.annotate_alike {position : Nat} (copy : program.Copy function index) (twin : other.Copy function position)
    (still : twin.first = 0) (settings : Settings) (words : ReservedWords) :
    (copy.statement.annotate (program.resolve settings).analysis.table words).1.shifted 0 =
      (function.alone.annotate (other.resolve settings).analysis.table words).1.shifted copy.first := by
  let table := (program.resolve settings).analysis.table
  let alone := (other.resolve settings).analysis.table
  have agrees : table.Agrees copy.first alone function.alone.mentions := by
    intro mention member id numbered
    have below := ((function.counted_withIds 0).exists_iff id).mp ⟨mention, member, numbered⟩
    have same := copy.roleOf_alike twin settings below.2
    rwa [still, Nat.add_zero] at same
  have unmoved : table.Agrees 0 table copy.statement.mentions := fun _ _ _ _ => rfl
  have own := copy.statement.annotate_shifted words unmoved
  rw [copy.alike, function.alone.annotate_shifted words agrees] at own
  exact (congrArg Prod.fst own).symm

theorem analysis_nested (program : Program) (settings : Settings) :
    (program.nested.resolve settings).analysis = (program.resolve settings).analysis := by
  rw [program.resolve_nested settings]

/-- The functions of a resolved program are annotated one by one. -/
theorem functions_resolve (program : Program) (settings : Settings) :
    (program.resolve settings).program.functions =
      (Stmt.functionsList program.nested.withIds.1.statements).map fun function =>
        (function.annotate (program.resolve settings).analysis.table settings.reserved).1 := by
  have trees : (program.resolve settings).program.nested = (program.nested.resolve settings).program := by
    rw [program.resolve_nested settings]
  rw [functions, trees, ← program.analysis_nested]
  exact Stmt.functionsList_annotate _ settings.reserved _

theorem explicit_of_functions (here : program.functions[index]? = some function) :
    function.isFunction = true ∧ function.Explicit := by
  have contained := Stmt.containedList program.nested.statements
  have listed := List.mem_of_getElem? here
  exact ⟨contained.isFunction _ listed, contained.explicit (Stmt.explicit_nestedList program.statements) _ listed⟩

/-- The function alone is a program. -/
theorem exists_copy_alone (isFunction : function.isFunction = true) (explicit : function.Explicit) :
    ∃ copy : (Program.mk [function]).Copy function 0, copy.first = 0 := by
  have owned : Stmt.ExplicitList (Program.mk [function]).withIds.1.statements :=
    ⟨explicit.withIds 0, fun _ _ head => (nomatch head), trivial⟩
  have placed :
      (Stmt.functionsList (Program.mk [function]).withIds.1.statements)[0]? = some (function.withIds 0).1 := by
    match function, isFunction with
    | .function .., _ => rfl
  obtain ⟨copy, first, _⟩ := exists_copy owned placed rfl
  exact ⟨copy, first⟩

end Program

/-- The function of this index is resolved as this one, with these edges from its own definitions, when its lines are
left out and its identities are counted from `first` on. -/
def Resolution.ResolvesAs (resolution : Resolution) (index : Nat) (function : Stmt) (edges : Set (Node × Node))
    (first : Nat) : Prop :=
  ∃ found, resolution.program.functions[index]? = some found ∧ found.shifted 0 = function.shifted first ∧
    resolution.edgesFrom found (index + 1) = Shift.edge ⟨first, index⟩ '' edges

namespace Program

/-- A function is resolved as it is resolved alone. -/
theorem resolves_alone (settings : Settings) (program : Program) {index : Nat} {function twin : Stmt}
    (isFunction : function.isFunction = true) (explicit : function.Explicit)
    (here : program.functions[index]? = some twin) (same : function.shifted 0 = twin.shifted 0) :
    ∃ first, (program.resolve settings).ResolvesAs index
      (function.alone.annotate ((Program.mk [function]).resolve settings).analysis.table settings.reserved).1
      (function.alone.functionRoute.innerEdges 1) first := by
  obtain ⟨first, placed⟩ := Stmt.getElem?_functions_withIds here 0
  have owned : Stmt.ExplicitList program.nested.withIds.1.statements :=
    (Stmt.explicit_nestedList program.statements).withIds 0
  obtain ⟨copy, rfl, statement⟩ := exists_copy owned placed same
  obtain ⟨alone, still⟩ := exists_copy_alone isFunction explicit
  have tree := copy.annotate_alike alone still settings settings.reserved
  have edges := copy.edges_eq_innerEdges settings
  rw [program.analysis_nested] at tree edges
  refine ⟨copy.first, _, ?_, tree, ?_⟩
  · rw [functions_resolve, List.getElem?_map]
    exact congrArg (Option.map _) (placed.trans (congrArg some statement.symm))
  · rw [← Route.innerEdges_alike copy.moved]
    refine Eq.trans ?_ edges
    ext edge
    simp only [Resolution.edgesFrom, Set.mem_ofPred_eq, Node.isOf_annotate, Nat.add_comm index 1]

/-- Functions are isolated: wherever a function stands in two programs, in loops and other functions too, and on
whatever lines, the two find the same tree, with its roles, calls and counts of results, and the same edges from its
own definitions. A function without a body is compared with what it owns. -/
theorem functions_isolated (settings : Settings) (one other : Program) {i j : Nat} {function twin : Stmt}
    (here : one.functions[i]? = some function) (there : other.functions[j]? = some twin)
    (same : function.shifted 0 = twin.shifted 0) :
    ∃ (alone : Stmt) (edges : Set (Node × Node)) (a b : Nat),
      (one.resolve settings).ResolvesAs i alone edges a ∧ (other.resolve settings).ResolvesAs j alone edges b := by
  obtain ⟨isFunction, explicit⟩ := explicit_of_functions here
  obtain ⟨a, left⟩ := one.resolves_alone settings isFunction explicit here rfl
  obtain ⟨b, right⟩ := other.resolves_alone settings isFunction explicit there same
  exact ⟨_, _, a, b, left, right⟩

/-- A parameter is indexed, and a name that the function does not define is called. -/
def indexedCall (line : SourceLine) : List Stmt :=
  [.assign line [.ident line (.named "y")]
    (.index line .apply (.ident line (.named "x"))
      [.index line .apply (.ident line (.named "n")) [.literal line (.logical true)]])]

/-- The function alone. -/
def aloneCall : Program :=
  ⟨[.function 1 (.named "f") [.named "x"] (indexedCall 2)]⟩

/-- The function in a loop of a script that defines the name, without a body of its own. -/
def loopedCall : Program :=
  ⟨[.assign 1 [.ident 1 (.named "n")] (.literal 1 (.logical true)),
    .whileLoop 2 (.ident 2 (.named "n")) (.function 3 (.named "f") [.named "x"] [] :: indexedCall 4)]⟩

theorem functions_isolated_loopedCall :
    aloneCall.functions[0]? = some (.function 1 (.named "f") [.named "x"] (indexedCall 2)) ∧
    loopedCall.functions[0]? = some (.function 3 (.named "f") [.named "x"] (indexedCall 4)) ∧
    ∃ (alone : Stmt) (edges : Set (Node × Node)) (a b : Nat),
      (aloneCall.resolve {}).ResolvesAs 0 alone edges a ∧ (loopedCall.resolve {}).ResolvesAs 0 alone edges b :=
  ⟨rfl, rfl, functions_isolated {} aloneCall loopedCall rfl rfl rfl⟩

end Program

end ArrayLift
