import ArrayLift.Resolution.IdentIds
import ArrayLift.Resolution.Walk

/-! What the walk means: the role of every occurrence, the names of every scope, and the
diagnostics in the order of their lines. -/
namespace ArrayLift

/-- What is known about a program whose identifiers are numbered. -/
structure Analysis where
  graph : DefUse.Graph
  table : ScopeTable
  diagnostics : List Diagnostic

/-- The role of an occurrence: a use that no definition reaches is one of a function. -/
def DefUse.Graph.roleOf (graph : DefUse.Graph) (occurrence : Occurrence) : Role :=
  match occurrence.kind with
  | .functionName => .function
  | .use =>
    match graph.nodeOf? occurrence.id with
    | some node => if graph.isReached node then .variable else .function
    | none => .function
  | _ => .variable

namespace ScopeTable

def withRoles (table : ScopeTable) (graph : DefUse.Graph) : ScopeTable :=
  { table with occurrences := table.occurrences.map fun occurrence =>
      { occurrence with role := graph.roleOf occurrence } }

/-- Add an occurrence to the names of its scope; the names of declared functions are left out. -/
def summarize (table : ScopeTable) (occurrence : Occurrence) : ScopeTable :=
  if occurrence.kind = .functionName then table
  else table.modifyScope occurrence.scope fun scope =>
    if occurrence.role = .variable then { scope with variableNames := scope.variableNames.insert occurrence.name }
    else { scope with functionNames := scope.functionNames.insert occurrence.name }

/-- Fill in the names of all scopes. -/
def withSummaries (table : ScopeTable) : ScopeTable :=
  table.occurrences.foldl summarize table

/-- Is a name used as only arrays are, although nothing defines it and no function has it? -/
def isAmbiguous (table : ScopeTable) (occurrence : Occurrence) : Bool :=
  occurrence.kind = .use && occurrence.indexed && occurrence.arrayOnly
    && occurrence.role = .function && !table.isDeclaredFunction occurrence.name

def ambiguousIndices (table : ScopeTable) : List Diagnostic :=
  (table.occurrences.filter table.isAmbiguous).map fun occurrence =>
    .ambiguousIndex occurrence.name occurrence.line

end ScopeTable

/-- The report on an assignment to several targets once roles are known. -/
def PendingAssignment.diagnostic? (table : ScopeTable) (pending : PendingAssignment) : Option Diagnostic :=
  match pending.root with
  | none => some (.arityMismatch pending.targets "an indexed expression" pending.line)
  | some (id, name) =>
    if table.roleOf id = .variable then
      some (.arityMismatch pending.targets ("variable '" ++ name ++ "'") pending.line)
    else none

namespace Findings

/-- Decide the roles and gather the diagnostics. -/
def analysis (findings : Findings) : Analysis :=
  let table := (findings.table.withRoles findings.graph).withSummaries
  let diagnostics := findings.diagnostics
    ++ findings.pending.filterMap (PendingAssignment.diagnostic? table)
    ++ table.ambiguousIndices
  ⟨findings.graph, table, diagnostics.mergeSort fun left right => left.line ≤ right.line⟩

end Findings

namespace Program

/-- What the walk over a program finds. The number bounds the walks over one loop. -/
def findings (program : Program) (limit : Nat) : Findings :=
  (Stmt.walkList limit program.statements ScopeTable.script none
    ⟨.empty, .start program.declaredFunctions⟩).findings

end Program
end ArrayLift
