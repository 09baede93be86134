import ArrayLift.Proofs.Scopes.Containment
import ArrayLift.Proofs.Scopes.Declared
import ArrayLift.Proofs.Scopes.Table

/-! The scope table says of a program what its tree says: which scopes there are, in which of them each occurrence
stands, and which names each of them has. -/
namespace ArrayLift

/-- The name of a function that is declared. -/
def Stmt.functionName? : Stmt → Option String
  | .function _ name _ _ => some name.name
  | _ => none

namespace Resolution

variable (resolution : Resolution)

/-- A name is declared in a scope: an identifier of that name in a declaration has its occurrence there. -/
def Declares (declaration : Declaration) (scope : ScopeId) (name : String) : Prop :=
  ∃ ident ∈ resolution.program.declared declaration, ident.name = name ∧
    ∃ occurrence ∈ resolution.analysis.table.occurrences, ident.id = some occurrence.id ∧ occurrence.scope = scope

/-- The scopes of a resolved program. -/
structure Scoped : Prop where
  /-- The scope of the script comes first, then that of each function, in the order of the text. -/
  headings : resolution.analysis.table.scopes.map Scope.blank =
    .fresh ScopeTable.script .script none 1 :: (resolution.program.functions.zipIdx 1).map fun entry =>
      .fresh entry.2 .function entry.1.functionName? entry.1.line
  placed : ∀ occurrence ∈ resolution.analysis.table.occurrences,
    Stmt.Houses resolution.program.functions occurrence.id occurrence.scope
  variableNames : ∀ scope ∈ resolution.analysis.table.scopes,
    scope.variableNames.Lists (resolution.analysis.table.Names scope.id .variable)
  functionNames : ∀ scope ∈ resolution.analysis.table.scopes,
    scope.functionNames.Lists (resolution.analysis.table.Names scope.id .function)
  globalNames : ∀ scope ∈ resolution.analysis.table.scopes,
    scope.globalNames.Lists (resolution.Declares .global scope.id)
  persistentNames : ∀ scope ∈ resolution.analysis.table.scopes,
    scope.persistentNames.Lists (resolution.Declares .persistent scope.id)

end Resolution

/-- A function opens the scope of its name and line, which annotation leaves to it. -/
theorem Stmt.opens_functionRoute {function : Stmt} (isFunction : function.isFunction = true) (table : ScopeTable)
    (words : ReservedWords) (id : ScopeId) : function.functionRoute.opens id =
      .fresh id .function (function.annotate table words).1.functionName? (function.annotate table words).1.line := by
  match function, isFunction with
  | .function line name params body, _ =>
    simp only [functionRoute, Route.opens, Stmt.annotate, functionName?, Ident.name_annotate]
    rfl

namespace Program

variable (program : Program) (settings : Settings)

theorem headings_resolve : (program.resolve settings).analysis.table.scopes.map Scope.blank =
    .fresh ScopeTable.script .script none 1 ::
      ((program.resolve settings).program.functions.zipIdx 1).map fun entry =>
        .fresh entry.2 .function entry.1.functionName? entry.1.line := by
  have explicit := (Stmt.explicit_nestedList program.statements).withIds 0
  have routes : program.nested.withIds.1.route.functionRoutes = _ :=
    Stmt.functionRoutes_block program.nested.withIds.1.statements explicit
  have isFunction := (Stmt.containedList program.nested.withIds.1.statements).isFunction
  rw [← program.analysis_nested, blank_resolve, headings, Route.scopes, routes, functions_resolve,
    List.zipIdx_map, List.zipIdx_map, List.map_map, List.map_map]
  refine congrArg (List.cons _) (List.map_congr_left fun entry member => ?_)
  have listed := isFunction entry.1 (List.fst_mem_of_mem_zipIdx member)
  exact Stmt.opens_functionRoute listed (program.resolve settings).analysis.table settings.reserved entry.2

theorem placed_resolve {occurrence : Occurrence}
    (member : occurrence ∈ (program.resolve settings).analysis.table.occurrences) :
    Stmt.Houses (program.resolve settings).program.functions occurrence.id occurrence.scope := by
  have explicit : Stmt.ExplicitList program.nested.withIds.1.statements :=
    (Stmt.explicit_nestedList program.statements).withIds 0
  rw [← program.analysis_nested] at member
  obtain ⟨origin, inside, rfl⟩ := (program.nested.resolve_occurrences settings occurrence).mp member
  rw [functions_resolve]
  exact (program.nested.houses_occurrence explicit inside).annotate _ settings.reserved

/-- The declarations on the route are those of the statements, in the scopes of their occurrences. -/
theorem mem_notes_iff_declares (declaration : Declaration) (scope : ScopeId) (name : String) :
    ⟨declaration, scope, name⟩ ∈ program.withIds.1.route.notes ScopeTable.script 1 ↔
      (program.resolve settings).Declares declaration scope name := by
  let table := (program.resolve settings).analysis.table
  have declared : (program.resolve settings).program.declared declaration =
      (program.withIds.1.declared declaration).map fun ident => (ident.annotate table settings.reserved).1 :=
    Stmt.declaredList_annotate declaration table settings.reserved program.withIds.1.statements
  constructor
  · rintro ⟨id, line, visited⟩
    obtain ⟨origin, inside, own, rfl⟩ := Route.occurrence_of_place visited rfl
    obtain ⟨ident, listed, numbered, named⟩ := program.withIds.1.declares_route.mp
      ((Route.declares_iff_place _ ScopeTable.script 1).mpr ⟨scope, line, visited⟩)
    refine ⟨_, declared ▸ List.mem_map_of_mem listed, (ident.name_annotate table settings.reserved).trans named, _,
      (program.resolve_occurrences settings _).mpr ⟨origin, inside, rfl⟩,
      (ident.id_annotate table settings.reserved).trans numbered, (Step.id?_of_occurrence? own).2⟩
  · rintro ⟨_, listed, rfl, _, member, numbered, rfl⟩
    rw [declared] at listed
    obtain ⟨ident, there, rfl⟩ := List.mem_map.mp listed
    obtain ⟨origin, inside, rfl⟩ := (program.resolve_occurrences settings _).mp member
    rw [ident.id_annotate] at numbered
    obtain ⟨home, line, visited⟩ := (Route.declares_iff_place _ ScopeTable.script 1).mp
      (program.withIds.1.declares_route.mpr ⟨ident, there, numbered, rfl⟩)
    -- the identity is that of one occurrence, so the declaration stands in the scope of this one
    obtain ⟨other, met, own, same⟩ := Route.occurrence_of_place visited rfl
    obtain rfl := program.census.single other met origin inside same
    obtain rfl : other.scope = home := (Step.id?_of_occurrence? own).2
    rw [ident.name_annotate]
    exact ⟨other.id, line, visited⟩

/-- A scope stands in the table at the place that is its number. -/
theorem getElem?_of_scope {scope : Scope} (member : scope ∈ (program.resolve settings).analysis.table.scopes) :
    (program.resolve settings).analysis.table.scopes[scope.id]? = some scope := by
  obtain ⟨index, found⟩ := List.mem_iff_getElem?.mp member
  have heading : program.withIds.1.headings[index]? = some scope.blank := by
    rw [← program.blank_resolve settings, List.getElem?_map, found, Option.map_some]
  have same : scope.blank.id = index := program.withIds.1.id_of_getElem?_headings heading
  rwa [← same] at found

/-- The scope table is that of the tree: the scope of the script, one scope for each function in the order of the
text, with its name and line, however many loops are around it; every occurrence in the scope of the function that
contains it or owns its statement, the name of a function outside; and in each scope the names of its variables, its
functions, its global and its persistent declarations, no others. -/
theorem resolve_scoped : (program.resolve settings).Scoped := by
  have found (scope : Scope) (member : scope ∈ (program.resolve settings).analysis.table.scopes) :=
    program.getElem?_of_scope settings member
  have declared (declaration : Declaration) : ∀ scope ∈ (program.resolve settings).analysis.table.scopes,
      (scope.declaredNames declaration).Lists ((program.resolve settings).Declares declaration scope.id) :=
    fun scope member => (declaredNames_resolve (found scope member) declaration).congr
      fun name => program.mem_notes_iff_declares settings declaration scope.id name
  exact ⟨program.headings_resolve settings, fun _ => program.placed_resolve settings,
    fun scope member => (names_resolve (found scope member)).1,
    fun scope member => (names_resolve (found scope member)).2, declared .global, declared .persistent⟩

/-- A function in a loop has one scope. -/
example :
    let program : Program := ⟨[.whileLoop 1 (.ident 1 (.named "n")) [.function 2 (.named "f") [] []]]⟩
    (program.resolve {}).analysis.table.scopes.map Scope.name = [none, some "f"] := by
  decide

end Program
end ArrayLift
