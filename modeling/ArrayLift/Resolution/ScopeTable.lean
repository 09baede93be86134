import ArrayLift.Tree.Syntax

/-! What resolution knows about every identifier occurrence and every scope. Scopes are numbered
in the order of their opening, the scope of the script first; of several records of one occurrence
the first one stays. -/
namespace ArrayLift

abbrev ScopeId := Nat

inductive ScopeKind where
  /-- The scope outside all functions. -/
  | script
  | function
  deriving DecidableEq, Repr

/-- How an occurrence of an identifier relates to its name. -/
inductive OccurrenceKind where
  /-- It reads the name. -/
  | use
  /-- It gives the name a new value. -/
  | definition
  /-- It changes a part of the value of the name. -/
  | partialDefinition
  | parameter
  | declaration
  /-- It is the name of a function where that is declared. -/
  | functionName
  deriving DecidableEq, Repr

/-- Everything but reading a name and naming a function defines the name. -/
def OccurrenceKind.isDefinition : OccurrenceKind → Bool
  | .use | .functionName => false
  | _ => true

structure Occurrence where
  id : IdentId
  name : String
  line : SourceLine
  scope : ScopeId
  kind : OccurrenceKind
  /-- Does an index or a call follow the name? -/
  indexed : Bool
  /-- Is the index one that only arrays accept? -/
  arrayOnly : Bool
  role : Role
  deriving DecidableEq, Repr

/-- Names in their order, each one once. -/
abbrev NameSet := List String

/-- Put a name in its place. -/
def NameSet.insert (name : String) : NameSet → NameSet
  | [] => [name]
  | first :: rest =>
    if name < first then name :: first :: rest
    else if name = first then first :: rest
    else first :: NameSet.insert name rest

structure Scope where
  id : ScopeId
  kind : ScopeKind
  /-- The name of the function. -/
  name : Option String
  line : SourceLine
  variableNames : NameSet
  functionNames : NameSet
  globalNames : NameSet
  persistentNames : NameSet
  deriving DecidableEq, Repr

/-- A scope in which nothing has been seen. -/
def Scope.fresh (id : ScopeId) (kind : ScopeKind) (name : Option String) (line : SourceLine) : Scope :=
  ⟨id, kind, name, line, [], [], [], []⟩

structure ScopeTable where
  scopes : List Scope
  /-- The occurrences by ascending identity. -/
  occurrences : List Occurrence
  declaredFunctions : List String

namespace ScopeTable

/-- The scope of the script. -/
def script : ScopeId := 0

/-- The table that holds the scope of the script alone. -/
def empty : ScopeTable :=
  ⟨[Scope.fresh script .script none 1], [], []⟩

def openScope (table : ScopeTable) (kind : ScopeKind) (name : Option String) (line : SourceLine) :
    ScopeId × ScopeTable :=
  let id := table.scopes.length
  (id, { table with scopes := table.scopes ++ [Scope.fresh id kind name line] })

def scope? (table : ScopeTable) (id : ScopeId) : Option Scope :=
  table.scopes[id]?

/-- The first scope of a function with a given name. -/
def functionScope? (table : ScopeTable) (name : String) : Option Scope :=
  table.scopes.find? fun scope => scope.kind = .function && scope.name = some name

/-- Change one scope; one that is not there stays so. -/
def modifyScope (table : ScopeTable) (id : ScopeId) (change : Scope → Scope) : ScopeTable :=
  { table with scopes := table.scopes.modify id change }

def declareFunction (table : ScopeTable) (name : String) : ScopeTable :=
  { table with declaredFunctions := name :: table.declaredFunctions }

def isDeclaredFunction (table : ScopeTable) (name : String) : Bool :=
  table.declaredFunctions.contains name

/-- Put an occurrence in its place, unless there is one with its identity. -/
def insertOccurrence (occurrence : Occurrence) : List Occurrence → List Occurrence
  | [] => [occurrence]
  | first :: rest =>
    if occurrence.id < first.id then occurrence :: first :: rest
    else if occurrence.id = first.id then first :: rest
    else first :: insertOccurrence occurrence rest

/-- Record an occurrence; only the first record of an identity counts. -/
def record (table : ScopeTable) (occurrence : Occurrence) : ScopeTable :=
  { table with occurrences := insertOccurrence occurrence table.occurrences }

def occurrence? (table : ScopeTable) (id : IdentId) : Option Occurrence :=
  table.occurrences.find? fun occurrence => occurrence.id = id

/-- The role of an occurrence; one that was never recorded has none. -/
def roleOf (table : ScopeTable) (id : IdentId) : Role :=
  ((table.occurrence? id).map Occurrence.role).getD .unknown

end ScopeTable
end ArrayLift
