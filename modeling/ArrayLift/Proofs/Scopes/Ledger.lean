import ArrayLift.Proofs.Scopes.Summaries
import ArrayLift.Proofs.Walk.Outcome
import ArrayLift.Proofs.Isolation.Functions

/-! The ledger of a walk: the scopes that are open, the functions they belong to and the names that are declared in
them. Definitions and uses do not touch it, so what a walk leaves there depends on the route alone, however often its
loops are walked: each function opens the scope that its place among the functions gives it, and every declaration
puts its name into the scope it stands in. -/
namespace ArrayLift

structure Ledger where
  scopes : List Scope
  functionScopes : List (IdentId × ScopeId)

/-- A name that is declared in a scope. -/
structure Note where
  declaration : Declaration
  scope : ScopeId
  name : String

namespace Scope

/-- The scope with one more declared name. -/
def declaring (declaration : Declaration) (name : String) (scope : Scope) : Scope :=
  match declaration with
  | .global => { scope with globalNames := scope.globalNames.insert name }
  | .persistent => { scope with persistentNames := scope.persistentNames.insert name }

variable {scope : Scope}

theorem blank_declaring (declaration : Declaration) (name : String) :
    (scope.declaring declaration name).blank = scope.blank := by
  cases declaration <;> rfl

theorem mem_declaring {declaration other : Declaration} {name called : String} :
    called ∈ (scope.declaring declaration name).declaredNames other ↔
      called ∈ scope.declaredNames other ∨ (other = declaration ∧ called = name) := by
  cases declaration <;> cases other <;> simp [declaring, declaredNames, NameSet.mem_insert, or_comm]

/-- Nothing but declared names, in order, is in the scope yet. -/
structure Unsummarized (scope : Scope) : Prop where
  variableNames : scope.variableNames = []
  functionNames : scope.functionNames = []
  declared : ∀ declaration, (scope.declaredNames declaration).Pairwise (· < ·)

theorem unsummarized_fresh (id : ScopeId) (kind : ScopeKind) (name : Option String) (line : SourceLine) :
    (fresh id kind name line).Unsummarized :=
  ⟨rfl, rfl, fun declaration => by cases declaration <;> exact .nil⟩

theorem Unsummarized.declaring (unsummarized : scope.Unsummarized) (declaration : Declaration) (name : String) :
    (scope.declaring declaration name).Unsummarized := by
  obtain ⟨noVariable, noFunction, ordered⟩ := unsummarized
  cases declaration with
  | global =>
    refine ⟨noVariable, noFunction, fun other => ?_⟩
    cases other with
    | global => exact NameSet.ordered_insert (ordered .global) name
    | persistent => exact ordered .persistent
  | persistent =>
    refine ⟨noVariable, noFunction, fun other => ?_⟩
    cases other with
    | global => exact ordered .global
    | persistent => exact NameSet.ordered_insert (ordered .persistent) name

end Scope

namespace Ledger

/-- The scope of a function, opened when the function is first met. -/
def enter (ledger : Ledger) (id : Option IdentId) (name : String) (line : SourceLine) : ScopeId × Ledger :=
  let next := ledger.scopes.length
  let scopes := ledger.scopes ++ [Scope.fresh next .function (some name) line]
  match id with
  | none => (next, { ledger with scopes })
  | some id =>
    match ledger.functionScopes.lookup id with
    | some scope => (scope, ledger)
    | none => (next, ⟨scopes, (id, next) :: ledger.functionScopes⟩)

/-- Declare a name in a scope. -/
def note (ledger : Ledger) (note : Note) : Ledger :=
  { ledger with scopes := ledger.scopes.modify note.scope (Scope.declaring note.declaration note.name) }

/-- The names that are declared, with their scopes. -/
def notes (ledger : Ledger) : Set Note :=
  {note | ∃ scope, ledger.scopes[note.scope]? = some scope ∧ note.name ∈ scope.declaredNames note.declaration}

end Ledger

/-! What the steps of the walk do to the ledger. -/

namespace Point

def ledger (point : Point) : Ledger :=
  ⟨point.findings.table.scopes, point.findings.functionScopes⟩

variable (point : Point) (scope : ScopeId)

theorem ledger_use (ident : Ident) (line : SourceLine) (indexed arrayOnly : Bool) :
    (point.use scope ident line indexed arrayOnly).ledger = point.ledger := by
  unfold Point.use
  split <;> rfl

theorem ledger_define (ident : Ident) (line : SourceLine) (kind : OccurrenceKind) :
    (point.define scope ident line kind).ledger = point.ledger := by
  unfold Point.define
  split
  · rfl
  · dsimp only
    split <;> rfl

theorem ledger_checkSource (line : SourceLine) (targets : Nat) (source : ValueSource) :
    (point.checkSource line targets source).ledger = point.ledger := by
  cases source <;> rfl

theorem ledger_declare (declaration : Declaration) (id : IdentId) (name : String) (line : SourceLine) :
    (point.declare scope declaration (.bare name (some id)) line).ledger =
      point.ledger.note ⟨declaration, scope, name⟩ := by
  cases declaration <;> rfl

theorem ledger_functionScope (id : Option IdentId) (name : String) (line : SourceLine) :
    let opened := point.functionScope (.bare name id) line
    (opened.1, opened.2.ledger) = point.ledger.enter id name line := by
  cases id with
  | none => rfl
  | some id =>
    simp only [Point.functionScope, Ledger.enter, Ident.bare, Ident.id, Ident.name, ledger]
    cases point.findings.functionScopes.lookup id <;> rfl

theorem ledger_enterFunction (id : Option IdentId) (name : String) (line : SourceLine) :
    let entered := point.enterFunction scope (.bare name id) [] line
    (entered.1, entered.2.ledger) = point.ledger.enter id name line := by
  cases id with
  | none => exact point.ledger_functionScope none name line
  | some id =>
    exact (point.record scope name id line .functionName false false).ledger_functionScope (some id) name line

end Point

/-! The functions and the declarations on a route. -/

namespace Route

/-- What a function leaves in the table when it opens a scope. -/
def opens (id : ScopeId) : Route → Scope
  | .function _ name line _ => .fresh id .function (some name) line
  | _ => .fresh id .script none 1

/-- The scopes that the functions on a route open. -/
def scopes (route : Route) (next : ScopeId) : List Scope :=
  (route.functionRoutes.zipIdx next).map fun entry => entry.1.opens entry.2

/-- The names that are declared on a route. -/
def notes (route : Route) (scope next : ScopeId) : Set Note :=
  {note | ∃ id line, (note.scope, .declare note.declaration id note.name line) ∈ route.places scope next}

theorem scopes_seq (first second : Route) (next : ScopeId) :
    (seq first second).scopes next = first.scopes next ++ second.scopes (next + first.functionIds.length) := by
  simp only [scopes, functionRoutes, List.zipIdx_append, List.map_append, length_functionRoutes]

theorem notes_seq (first second : Route) (scope next : ScopeId) :
    (seq first second).notes scope next =
      first.notes scope next ∪ second.notes scope (next + first.functionIds.length) := by
  ext note
  simp only [notes, places, List.mem_append, exists_or, Set.mem_union, Set.mem_ofPred_eq]

theorem map_id_scopes (route : Route) (next : ScopeId) :
    (route.scopes next).map Scope.id = List.range' next route.functionIds.length := by
  have each : Scope.id ∘ (fun entry : Route × ScopeId => entry.1.opens entry.2) = Prod.snd := by
    funext entry
    obtain ⟨part, id⟩ := entry
    cases part <;> rfl
  rw [scopes, List.map_map, each, List.zipIdx_map_snd, length_functionRoutes]

end Route
end ArrayLift
