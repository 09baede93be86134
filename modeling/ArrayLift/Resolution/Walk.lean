import ArrayLift.Resolution.Flow
import ArrayLift.Vocabulary.Operator
import ArrayLift.Vocabulary.LibraryName
import ArrayLift.Diagnostic

/-! The walk along every path of a program that finds which definitions may reach which uses.
Statements are walked in order, both branches of a condition from one state, and a loop again and
again until the state at its start stays the same. -/
namespace ArrayLift

/-- An assignment to several targets from an indexed expression or a name, which can be judged once
the role of the name is known. -/
structure PendingAssignment where
  line : SourceLine
  targets : Nat
  /-- The name that the value starts from; there is none if the start is computed. -/
  root : Option (IdentId × String)

/-- What the walk has found so far. -/
structure Findings where
  graph : DefUse.Graph
  table : ScopeTable
  /-- The definitions that stay behind the names declared in a scope, the latest first. -/
  pinned : List ((ScopeId × String) × DefUse.NodeId)
  /-- The scope that was opened for a function, by the identity of its name. -/
  functionScopes : List (IdentId × ScopeId)
  pending : List PendingAssignment
  diagnostics : List Diagnostic

namespace Findings

/-- Nothing but the names of the functions that a program declares. -/
def start (declaredFunctions : List String) : Findings :=
  ⟨DefUse.Graph.empty, declaredFunctions.foldl ScopeTable.declareFunction ScopeTable.empty, [], [], [], []⟩

end Findings

/-- A point of the walk: the definitions that may reach it, and what has been found. -/
structure Point where
  flow : Flow
  findings : Findings

namespace Point

def record (point : Point) (scope : ScopeId) (name : String) (id : IdentId) (line : SourceLine)
    (kind : OccurrenceKind) (indexed arrayOnly : Bool) : Point :=
  { point with findings := { point.findings with
      table := point.findings.table.record ⟨id, name, line, scope, kind, indexed, arrayOnly, .unknown⟩ } }

/-- The node of a subject. -/
def intern (point : Point) (node : DefUse.Node) : DefUse.NodeId × Point :=
  let (id, graph) := point.findings.graph.intern node
  (id, { point with findings := { point.findings with graph } })

/-- Connect definitions with what they reach. -/
def connect (point : Point) (sources : List DefUse.NodeId) (target : DefUse.NodeId) : Point :=
  { point with findings := { point.findings with
      graph := sources.foldl (fun graph source => graph.connect source target) point.findings.graph } }

/-- Read a name: every definition that reaches the point reaches the occurrence. -/
def use (point : Point) (scope : ScopeId) (ident : Ident) (line : SourceLine)
    (indexed arrayOnly : Bool) : Point :=
  match ident.id with
  | none => point
  | some id =>
    let (node, point) := point.intern (.occurrence id ident.name .use)
    let point := point.connect (point.flow.definitions ident.name) node
    point.record scope ident.name id line .use indexed arrayOnly

/-- Define a name. A partial definition is reached by the definitions before it and stands beside
them; any other takes their place, beside the definition that a declaration has pinned. -/
def define (point : Point) (scope : ScopeId) (ident : Ident) (line : SourceLine)
    (kind : OccurrenceKind) : Point :=
  match ident.id with
  | none => point
  | some id =>
    let (node, point) := point.intern (.occurrence id ident.name kind)
    let point :=
      if kind = .partialDefinition then
        let point := point.connect (point.flow.definitions ident.name) node
        { point with flow := point.flow.insert ⟨ident.name, node⟩ }
      else
        let pin := point.findings.pinned.lookup (scope, ident.name)
        { point with flow := point.flow.redefine ident.name (node :: pin.toList) }
    point.record scope ident.name id line kind false false

/-- Declare a name global or persistent: its pinned definition alone reaches what follows. -/
def declare (point : Point) (scope : ScopeId) (declaration : Declaration) (ident : Ident)
    (line : SourceLine) : Point :=
  match ident.id with
  | none => point
  | some id =>
    let name := ident.name
    let (pin, point) := point.intern (match declaration with
      | .global => .global name
      | .persistent => .persistent scope name)
    let (node, point) := point.intern (.occurrence id name .declaration)
    let point := point.connect [pin] node
    let note (summary : Scope) : Scope := match declaration with
      | .global => { summary with globalNames := summary.globalNames.insert name }
      | .persistent => { summary with persistentNames := summary.persistentNames.insert name }
    let point : Point := {
      flow := point.flow.redefine name [pin]
      findings := { point.findings with
        pinned := ((scope, name), pin) :: point.findings.pinned
        table := point.findings.table.modifyScope scope note } }
    point.record scope name id line .declaration false false

/-- Both paths may lead here. -/
def join (point : Point) (flow : Flow) : Point :=
  { point with flow := flow.merge point.flow }

/-- Go on from another state with the same findings. -/
def withFlow (point : Point) (flow : Flow) : Point :=
  { point with flow }

/-- Walk a loop until the state at its start stays the same; everything that is found on the way
counts. The number bounds the walks. -/
def walkLoop (body : Point → Point) (entry : Flow) : Nat → Point → Point
  | 0, point => point
  | walks + 1, point =>
    let walked := body point
    let next := entry.merge walked.flow
    if next.same point.flow then walked.withFlow point.flow
    else walkLoop body entry walks (walked.withFlow next)

end Point

mutual
/-- Does an argument hold an end marker or a bare colon, outside nested indices? -/
def Expr.hasArrayIndex : Expr → Bool
  | .operation _ spelling operands _ =>
    match Operator.ofSpelling? spelling with
    | some .lastIndex => true
    | some .colon | some .range => operands.isEmpty || Expr.anyArrayIndex operands
    | _ => Expr.anyArrayIndex operands
  | _ => false

def Expr.anyArrayIndex : List Expr → Bool
  | [] => false
  | expr :: rest => Expr.hasArrayIndex expr || Expr.anyArrayIndex rest
end

mutual
/-- Walk an expression: arguments before the indexed name, operands before the result name. What a
lambda defines stays inside. -/
def Expr.walk (scope : ScopeId) : Expr → Point → Point
  | .ident line named, point => point.use scope named line false false
  | .literal .., point => point
  | .operation _ _ operands none, point => Expr.walkList scope operands point
  | .operation line _ operands (some result), point =>
    (Expr.walkList scope operands point).define scope result line .definition
  | .field _ object _, point => Expr.walk scope object point
  | .dynamicField _ object selector, point => Expr.walk scope selector (Expr.walk scope object point)
  | .index _ form target arguments, point =>
    let point := Expr.walkList scope arguments point
    match target with
    | .ident line named =>
      point.use scope named line true (form = .cellRef || Expr.anyArrayIndex arguments)
    | _ => Expr.walk scope target point
  | .rows _ _ elements, point => Expr.walkRows scope elements point
  | .lambda line params body, point =>
    let inner := params.foldl (fun inner param => inner.define scope param line .parameter) point
    (Expr.walk scope body inner).withFlow point.flow

def Expr.walkList (scope : ScopeId) : List Expr → Point → Point
  | [], point => point
  | expr :: rest, point => Expr.walkList scope rest (Expr.walk scope expr point)

def Expr.walkRows (scope : ScopeId) : List (List Expr) → Point → Point
  | [], point => point
  | row :: rest, point => Expr.walkRows scope rest (Expr.walkList scope row point)
end

/-- Walk an assignment target: a name is defined, and one that is indexed or has a field assigned is
defined in part. -/
def Expr.walkTarget (scope : ScopeId) : Expr → OccurrenceKind → Point → Point
  | .ident line named, kind, point => point.define scope named line kind
  | .index _ _ target arguments, _, point =>
    Expr.walkTarget scope target .partialDefinition (Expr.walkList scope arguments point)
  | .field _ object _, _, point => Expr.walkTarget scope object .partialDefinition point
  | .dynamicField _ object selector, _, point =>
    Expr.walkTarget scope object .partialDefinition (selector.walk scope point)
  | other, _, point => other.walk scope point

/-- The name that an indexed expression starts from, through fields only. -/
def Expr.callee? : Expr → Option (IdentId × String)
  | .ident _ named => named.id.map fun id => (id, named.name)
  | .field _ object _ => callee? object
  | .dynamicField _ object _ => callee? object
  | _ => none

/-- What an assignment to several targets takes its values from. -/
inductive ValueSource where
  /-- Something that yields several values. -/
  | several
  /-- A single value, described in words. -/
  | single (description : String)
  /-- It depends on the role of the name it starts from. -/
  | named (root : Option (IdentId × String))

/-- What kind of source a value is. -/
def Expr.valueSource : Expr → ValueSource
  | .index _ .cellRef _ _ => .several
  | .index _ _ target _ => .named target.callee?
  | .ident _ named => .named (named.id.map fun id => (id, named.name))
  | .literal _ (.number _) => .single "a number literal"
  | .literal _ (.text _) => .single "a string literal"
  | .literal _ (.logical _) => .single "a logical literal"
  | .operation .. => .single "an operator expression"
  | .field .. | .dynamicField .. => .single "a field access"
  | .rows _ .matrix _ => .single "a matrix literal"
  | .rows _ .cell _ => .single "a cell array literal"
  | .lambda .. => .single "an anonymous function"

namespace Point

/-- Check that an assignment to several targets has as many values. -/
def checkArity (point : Point) (line : SourceLine) (targets : Nat) (value : Expr) : Point :=
  if targets ≤ 1 then point
  else match value.valueSource with
    | .several => point
    | .single description =>
      { point with findings := { point.findings with
          diagnostics := point.findings.diagnostics ++ [.arityMismatch targets description line] } }
    | .named root =>
      { point with findings := { point.findings with
          pending := point.findings.pending ++ [⟨line, targets, root⟩] } }

/-- The scope of a function, opened when the function is first met. -/
def functionScope (point : Point) (name : Ident) (line : SourceLine) : ScopeId × Point :=
  match name.id with
  | none =>
    let (scope, table) := point.findings.table.openScope .function (some name.name) line
    (scope, { point with findings := { point.findings with table } })
  | some id =>
    match point.findings.functionScopes.lookup id with
    | some scope => (scope, point)
    | none =>
      let (scope, table) := point.findings.table.openScope .function (some name.name) line
      (scope, { point with findings := { point.findings with
        table, functionScopes := (id, scope) :: point.findings.functionScopes } })

/-- Bind what every function starts with. -/
def bindImplicit (point : Point) (scope : ScopeId) : Point :=
  LibraryName.implicitBindings.foldl (fun point binding =>
    let (node, point) := point.intern (.implicit scope binding.spelling)
    { point with flow := point.flow.redefine binding.spelling [node] }) point

/-- Bind a parameter, its default value first. -/
def bindParam (scope : ScopeId) (line : SourceLine) (point : Point) (param : Ident) : Point :=
  let point := match param.init with
    | some init => init.walk scope point
    | none => point
  point.define scope param line .parameter

/-- Enter a function: its name belongs to the scope around it, and inside only its own bindings
and parameters are defined. -/
def enterFunction (point : Point) (outer : ScopeId) (name : Ident) (params : List Ident)
    (line : SourceLine) : ScopeId × Point :=
  let point := match name.id with
    | some id => point.record outer name.name id line .functionName false false
    | none => point
  let (scope, point) := point.functionScope name line
  (scope, params.foldl (bindParam scope line) ((point.withFlow .empty).bindImplicit scope))

end Point

/-- The scope and the state that a function without a body of its own has interrupted. -/
abbrev Suspended := Option (ScopeId × Flow)

namespace Suspended

/-- The scope around the statements of the list. -/
def outer (suspended : Suspended) (scope : ScopeId) : ScopeId :=
  match suspended with
  | some (outer, _) => outer
  | none => scope

/-- Return to the state around the function. -/
def resume (suspended : Suspended) (point : Point) : Point :=
  match suspended with
  | some (_, flow) => point.withFlow flow
  | none => point

end Suspended

mutual
/-- Walk a statement in a scope. -/
def Stmt.walk (limit : Nat) : Stmt → ScopeId → Point → Point
  | .expression _ value, scope, point => value.walk scope point
  | .assign line targets value, scope, point =>
    let point := value.walk scope point
    let point := targets.foldl (fun point target => target.walkTarget scope .definition point) point
    point.checkArity line targets.length value
  | .branch _ condition thenBody elseBody, scope, point =>
    let point := condition.walk scope point
    let thenEnd := Stmt.walkList limit thenBody scope none point
    let elseStart := thenEnd.withFlow point.flow
    let elseEnd := match elseBody with
      | some elseBody => Stmt.walkList limit elseBody scope none elseStart
      | none => elseStart
    elseEnd.join thenEnd.flow
  | .forEach line loopName columns body, scope, point =>
    let point := columns.walk scope point
    Point.walkLoop
      (fun point => Stmt.walkList limit body scope none (point.define scope loopName line .definition))
      point.flow limit point
  | .whileLoop _ condition body, scope, point =>
    let point := Point.walkLoop
      (fun point => Stmt.walkList limit body scope none (condition.walk scope point))
      point.flow limit point
    condition.walk scope point
  | .attempt line body handler finallyBody, scope, point =>
    let bodyEnd := Stmt.walkList limit body scope none point
    let point := Handler.walk limit handler line scope (bodyEnd.join point.flow)
    match finallyBody with
    | some finallyBody => Stmt.walkList limit finallyBody scope none point
    | none => point
  | .function line name params body, scope, point =>
    let (inner, entered) := point.enterFunction scope name params line
    (Stmt.walkList limit body inner none entered).withFlow point.flow
  | .declare line declaration names, scope, point =>
    names.foldl (fun point name => point.declare scope declaration name line) point
  | .return _ none, _, point => point
  | .return _ (some value), scope, point => value.walk scope point
  | .word .., _, point => point
  | .comment .., _, point => point

/-- Walk what takes an error up; it may be skipped. -/
def Handler.walk (limit : Nat) : Handler → SourceLine → ScopeId → Point → Point
  | .absent, _, _, point => point
  | .present name body, line, scope, point =>
    let caught := match name with
      | some name => point.define scope name line .definition
      | none => point
    (Stmt.walkList limit body scope none caught).join point.flow

/-- Walk the statements of a list. A function without a body of its own owns the statements up to
the next function, which are walked in its scope. -/
def Stmt.walkList (limit : Nat) : List Stmt → ScopeId → Suspended → Point → Point
  | [], _, suspended, point => suspended.resume point
  | statement :: rest, scope, suspended, point =>
    match statement with
    | .function line name params [] =>
      let outer := suspended.outer scope
      let point := suspended.resume point
      let (inner, entered) := point.enterFunction outer name params line
      Stmt.walkList limit rest inner (some (outer, point.flow)) entered
    | .function .. =>
      let outer := suspended.outer scope
      Stmt.walkList limit rest outer none (Stmt.walk limit statement outer (suspended.resume point))
    | _ => Stmt.walkList limit rest scope suspended (Stmt.walk limit statement scope point)
end

end ArrayLift
