import ArrayLift.Proofs.Naming.Images
import ArrayLift.Proofs.Naming.Renaming
import Mathlib.Data.List.Forall2

/-! The walk over a tree and the walk over the tree with other names, step by step: both find the same, the one under
the old names and the other under the new ones. -/
namespace ArrayLift

open DefUse

/-- Different names stay different, and what every function starts with keeps its name. -/
structure Renaming.Faithful (rename : Renaming) : Prop where
  injective : Function.Injective rename.name
  implicit : ∀ binding ∈ LibraryName.implicitBindings, rename.name binding.spelling = binding.spelling

/-- The same diagnostic, up to the name that it quotes. One without a quotation mark quotes none. -/
inductive Diagnostic.Renamed (rename : String → String) : Diagnostic → Diagnostic → Prop where
  | unquoted {targets : Nat} {description : String} {line : SourceLine} (plain : '\'' ∉ description.toList) :
    Renamed rename (.arityMismatch targets description line) (.arityMismatch targets description line)
  | variable {targets : Nat} {name : String} {line : SourceLine} :
    Renamed rename (.arityMismatch targets ("variable '" ++ name ++ "'") line)
      (.arityMismatch targets ("variable '" ++ rename name ++ "'") line)
  | ambiguous {name : String} {line : SourceLine} :
    Renamed rename (.ambiguousIndex name line) (.ambiguousIndex (rename name) line)

def PendingAssignment.renamed (rename : String → String) (pending : PendingAssignment) : PendingAssignment :=
  { pending with root := pending.root.map fun root => (root.1, rename root.2) }

/-- The findings of two walks are the same under the old and under the new names. -/
structure Findings.Renamed (rename : String → String) (before after : Findings) : Prop where
  graph : after.graph = before.graph.renamed rename
  table : after.table = before.table.renamed rename
  pinned : after.pinned = before.pinned.map fun pin => ((pin.1.1, rename pin.1.2), pin.2)
  functionScopes : after.functionScopes = before.functionScopes
  pending : after.pending = before.pending.map (PendingAssignment.renamed rename)
  diagnostics : List.Forall₂ (Diagnostic.Renamed rename) before.diagnostics after.diagnostics

/-- Two walks have come to the same, under the old and under the new names. -/
structure Point.Renamed (rename : String → String) (before after : Point) : Prop where
  flow : after.flow = before.flow.renamed rename
  findings : before.findings.Renamed rename after.findings

def Suspended.renamed (rename : String → String) (suspended : Suspended) : Suspended :=
  suspended.map fun around => (around.1, around.2.renamed rename)

section
variable (rename : Renaming)

theorem Ident.id_renamed (ident : Ident) : (ident.renamed rename).id = ident.id := by
  obtain ⟨name, init, role, reserved, id⟩ := ident
  cases init <;> rfl

theorem Ident.init_renamed (ident : Ident) : (ident.renamed rename).init = ident.init.map (Expr.renamed rename) := by
  obtain ⟨name, init, role, reserved, id⟩ := ident
  cases init <;> rfl

mutual
theorem Expr.hasArrayIndex_renamed : ∀ expr : Expr, (expr.renamed rename).hasArrayIndex = expr.hasArrayIndex
  | .ident .. | .literal .. | .field .. | .dynamicField .. | .index .. | .rows .. | .lambda .. => rfl
  | .operation line spelling operands none | .operation line spelling operands (some _) => by
    have any := Expr.anyArrayIndex_renamedList operands
    have empty : (Expr.renamedList rename operands).isEmpty = operands.isEmpty := by cases operands <;> rfl
    simp only [Expr.renamed, Expr.hasArrayIndex, any, empty]

theorem Expr.anyArrayIndex_renamedList : ∀ exprs : List Expr,
    Expr.anyArrayIndex (Expr.renamedList rename exprs) = Expr.anyArrayIndex exprs
  | [] => rfl
  | expr :: rest => congrArg₂ (· || ·) (Expr.hasArrayIndex_renamed expr) (Expr.anyArrayIndex_renamedList rest)
end

theorem Expr.callee?_renamed : ∀ expr : Expr,
    (expr.renamed rename).callee? = expr.callee?.map fun root => (root.1, rename.name root.2)
  | .ident _ (.mk _ none _ _ id) | .ident _ (.mk _ (some _) _ _ id) => by cases id <;> rfl
  | .field _ object _ | .dynamicField _ object _ => Expr.callee?_renamed object
  | .operation _ _ _ none | .operation _ _ _ (some _) => rfl
  | .literal .. | .index .. | .rows .. | .lambda .. => rfl

def ValueSource.renamed : ValueSource → ValueSource
  | .several => .several
  | .single description => .single description
  | .named root => .named (root.map fun root => (root.1, rename.name root.2))

theorem Expr.valueSource_renamed : ∀ expr : Expr, (expr.renamed rename).valueSource = expr.valueSource.renamed rename
  | .ident _ (.mk _ none _ _ id) | .ident _ (.mk _ (some _) _ _ id) => by cases id <;> rfl
  | .index _ .cellRef _ _ => rfl
  | .index _ .apply target _ | .index _ .arrayRef target _ | .index _ (.call _) target _ =>
    congrArg ValueSource.named (target.callee?_renamed rename)
  | .operation _ _ _ none | .operation _ _ _ (some _) => rfl
  | .literal _ (.number _) | .literal _ (.text _) | .literal _ (.logical _) => rfl
  | .rows _ .matrix _ | .rows _ .cell _ => rfl
  | .field .. | .dynamicField .. | .lambda .. => rfl

end

/-- The words that describe a single value quote no name. -/
theorem Expr.unquoted_of_valueSource {value : Expr} {description : String}
    (single : value.valueSource = .single description) : '\'' ∉ description.toList := by
  cases value with
  | literal line value => cases value <;> (obtain rfl := ValueSource.single.inj single; simp)
  | index line form target arguments => cases form <;> cases single
  | rows line brackets elements => cases brackets <;> (obtain rfl := ValueSource.single.inj single; simp)
  | ident => cases single
  | operation | field | dynamicField | lambda => obtain rfl := ValueSource.single.inj single; simp

namespace Point.Renamed

variable {rename : String → String} {before after : Point}

theorem record (here : before.Renamed rename after) (scope : ScopeId) (name : String) (id : IdentId)
    (line : SourceLine) (kind : OccurrenceKind) (indexed arrayOnly : Bool) :
    (before.record scope name id line kind indexed arrayOnly).Renamed rename
      (after.record scope (rename name) id line kind indexed arrayOnly) := by
  have table := before.findings.table.record_renamed rename
    ⟨id, name, line, scope, kind, indexed, arrayOnly, .unknown⟩
  rw [← here.findings.table] at table
  exact ⟨here.flow, { here.findings with table }⟩

theorem connect (here : before.Renamed rename after) {sources others : List NodeId} (reaching : others = sources)
    {target other : NodeId} (reached : other = target) :
    (before.connect sources target).Renamed rename (after.connect others other) := by
  subst reaching reached
  have graph : others.foldl (fun graph source => graph.connect source other) after.findings.graph =
      (others.foldl (fun graph source => graph.connect source other) before.findings.graph).renamed rename := by
    rw [here.findings.graph]
    generalize before.findings.graph = graph
    induction others generalizing graph with
    | nil => rfl
    | cons source rest ih =>
      rw [List.foldl_cons, List.foldl_cons, Graph.connect_renamed]
      exact ih _
  exact ⟨here.flow, { here.findings with graph }⟩

theorem withFlow (here : before.Renamed rename after) {flow other : Flow} (same : other = flow.renamed rename) :
    (before.withFlow flow).Renamed rename (after.withFlow other) :=
  ⟨same, here.findings⟩

theorem resume (here : before.Renamed rename after) (suspended : Suspended) :
    (suspended.resume before).Renamed rename ((suspended.renamed rename).resume after) := by
  cases suspended with
  | none => exact here
  | some _ => exact here.withFlow rfl

theorem functionScope (here : before.Renamed rename after) {name other : Ident} (id : other.id = name.id)
    (named : other.name = rename name.name) (line : SourceLine) :
    (after.functionScope other line).1 = (before.functionScope name line).1 ∧
      (before.functionScope name line).2.Renamed rename (after.functionScope other line).2 := by
  have opened := before.findings.table.openScope_renamed rename .function (some name.name) line
  rw [← here.findings.table, Option.map_some, ← named] at opened
  have own := congrArg Prod.fst opened
  have table := congrArg Prod.snd opened
  unfold Point.functionScope
  rw [id, here.findings.functionScopes]
  cases name.id with
  | none => exact ⟨own, here.flow, { here.findings with table }⟩
  | some id =>
    simp only
    cases before.findings.functionScopes.lookup id with
    | some scope => exact ⟨rfl, here⟩
    | none =>
      have functionScopes := congrArg (fun scope => (id, scope) :: before.findings.functionScopes) own
      exact ⟨own, here.flow, { here.findings with table, functionScopes }⟩

section
variable (injective : Function.Injective rename)
include injective

theorem join (here : before.Renamed rename after) {flow other : Flow} (same : other = flow.renamed rename) :
    (before.join flow).Renamed rename (after.join other) := by
  refine ⟨?_, here.findings⟩
  rw [Point.join, Point.join, same, here.flow]
  exact Flow.merge_renamed injective flow before.flow

theorem intern (here : before.Renamed rename after) (node : Node) :
    (after.intern (node.renamed rename)).1 = (before.intern node).1 ∧
      (before.intern node).2.Renamed rename (after.intern (node.renamed rename)).2 := by
  have interned := before.findings.graph.intern_renamed injective node
  rw [← here.findings.graph] at interned
  have same := congrArg Prod.fst interned
  have graph := congrArg Prod.snd interned
  exact ⟨same, here.flow, { here.findings with graph }⟩

theorem insert (here : before.Renamed rename after) (name : String) {node other : NodeId} (same : other = node) :
    ({ before with flow := before.flow.insert ⟨name, node⟩ } : Point).Renamed rename
      { after with flow := after.flow.insert ⟨rename name, other⟩ } := by
  refine ⟨?_, here.findings⟩
  rw [here.flow, same]
  exact Flow.insert_renamed injective before.flow name node

theorem redefine (here : before.Renamed rename after) (name : String) {nodes others : List NodeId}
    (same : others = nodes) :
    ({ before with flow := before.flow.redefine name nodes } : Point).Renamed rename
      { after with flow := after.flow.redefine (rename name) others } := by
  refine ⟨?_, here.findings⟩
  rw [here.flow, same]
  exact Flow.redefine_renamed injective before.flow name nodes

/-- Changes to the summary of a scope that are the same under the old and under the new names. -/
theorem bind (here : before.Renamed rename after) (scope : ScopeId) (name : String) {pin other : NodeId}
    (same : other = pin) {note change : Scope → Scope}
    (noted : ∀ scope, change (scope.renamed rename) = (note scope).renamed rename) :
    (Point.mk (before.flow.redefine name [pin]) { before.findings with
        pinned := ((scope, name), pin) :: before.findings.pinned
        table := before.findings.table.modifyScope scope note }).Renamed rename
      (Point.mk (after.flow.redefine (rename name) [other]) { after.findings with
        pinned := ((scope, rename name), other) :: after.findings.pinned
        table := after.findings.table.modifyScope scope change }) := by
  subst same
  have table := before.findings.table.modifyScope_renamed rename scope noted
  rw [← here.findings.table] at table
  have pinned := congrArg (((scope, rename name), other) :: ·) here.findings.pinned
  exact ⟨(here.redefine injective name rfl).flow, { here.findings with table, pinned }⟩

theorem pin (here : before.Renamed rename after) (scope : ScopeId) (name : String) :
    after.findings.pinned.lookup (scope, rename name) = before.findings.pinned.lookup (scope, name) := by
  have found (pins : List ((ScopeId × String) × NodeId)) :
      (pins.map fun pin => ((pin.1.1, rename pin.1.2), pin.2)).lookup (scope, rename name) =
        pins.lookup (scope, name) := by
    induction pins with
    | nil => rfl
    | cons first rest ih =>
      have key : ((scope, rename name) == (first.1.1, rename first.1.2)) = ((scope, name) == first.1) := by
        rw [Bool.eq_iff_iff, beq_iff_eq, beq_iff_eq, Prod.ext_iff, Prod.ext_iff, injective.eq_iff]
      rw [List.map_cons, List.lookup_cons, List.lookup_cons, key, ih]
  rw [here.findings.pinned]
  exact found before.findings.pinned

end

variable {rename : Renaming} (faithful : rename.Faithful)
include faithful

theorem use (here : before.Renamed rename.name after) (scope : ScopeId) (ident : Ident) (line : SourceLine)
    (indexed arrayOnly : Bool) : (before.use scope ident line indexed arrayOnly).Renamed rename.name
      (after.use scope (ident.renamed rename) line indexed arrayOnly) := by
  unfold Point.use
  rw [ident.id_renamed, ident.name_renamed]
  cases ident.id with
  | none => exact here
  | some id =>
    obtain ⟨same, interned⟩ := here.intern faithful.injective (.occurrence id ident.name .use)
    have definitions := Flow.definitions_renamed faithful.injective before.flow ident.name
    rw [← here.flow] at definitions
    exact (interned.connect definitions same).record scope ident.name id line .use indexed arrayOnly

theorem define (here : before.Renamed rename.name after) (scope : ScopeId) (ident : Ident) (line : SourceLine)
    (kind : OccurrenceKind) : (before.define scope ident line kind).Renamed rename.name
      (after.define scope (ident.renamed rename) line kind) := by
  unfold Point.define
  rw [ident.id_renamed, ident.name_renamed]
  cases ident.id with
  | none => exact here
  | some id =>
    obtain ⟨same, interned⟩ := here.intern faithful.injective (.occurrence id ident.name kind)
    refine Renamed.record ?_ scope ident.name id line kind false false
    by_cases partially : kind = .partialDefinition
    · have definitions := Flow.definitions_renamed faithful.injective before.flow ident.name
      rw [← here.flow] at definitions
      simp only [partially, if_true] at same interned ⊢
      exact (interned.connect definitions same).insert faithful.injective ident.name same
    · have pinned := here.pin faithful.injective scope ident.name
      simp only [partially, if_false]
      exact interned.redefine faithful.injective ident.name
        (congrArg₂ (fun node pin => node :: Option.toList pin) same pinned)

theorem declare (here : before.Renamed rename.name after) (scope : ScopeId) (declaration : Declaration) (ident : Ident)
    (line : SourceLine) : (before.declare scope declaration ident line).Renamed rename.name
      (after.declare scope declaration (ident.renamed rename) line) := by
  unfold Point.declare
  rw [ident.id_renamed, ident.name_renamed]
  cases ident.id with
  | none => exact here
  | some id =>
    have inserted := NameSet.insert_renamed rename.name ident.name
    cases declaration with
    | global =>
      obtain ⟨pin, pinned⟩ := here.intern faithful.injective (.global ident.name)
      obtain ⟨node, interned⟩ := pinned.intern faithful.injective (.occurrence id ident.name .declaration)
      have noted (scope : Scope) := congrArg (fun globalNames => { scope.renamed rename.name with globalNames })
        (inserted scope.globalNames)
      exact ((interned.connect (congrArg (fun pin => [pin]) pin) node).bind faithful.injective scope ident.name pin
        noted).record scope ident.name id line .declaration false false
    | persistent =>
      obtain ⟨pin, pinned⟩ := here.intern faithful.injective (.persistent scope ident.name)
      obtain ⟨node, interned⟩ := pinned.intern faithful.injective (.occurrence id ident.name .declaration)
      have noted (scope : Scope) := congrArg (fun persistentNames => { scope.renamed rename.name with persistentNames })
        (inserted scope.persistentNames)
      exact ((interned.connect (congrArg (fun pin => [pin]) pin) node).bind faithful.injective scope ident.name pin
        noted).record scope ident.name id line .declaration false false

theorem bindImplicit (here : before.Renamed rename.name after) (scope : ScopeId) :
    (before.bindImplicit scope).Renamed rename.name (after.bindImplicit scope) := by
  have fixed := faithful.implicit
  unfold Point.bindImplicit
  generalize LibraryName.implicitBindings = bindings at fixed
  induction bindings generalizing before after with
  | nil => exact here
  | cons binding rest ih =>
    obtain ⟨first, others⟩ := List.forall_mem_cons.mp fixed
    obtain ⟨same, interned⟩ := here.intern faithful.injective (.implicit scope binding.spelling)
    have bound := interned.redefine faithful.injective binding.spelling (congrArg (fun node => [node]) same)
    simp only [Node.renamed, first] at bound
    exact ih bound others

theorem defineAll (here : before.Renamed rename.name after) (scope : ScopeId) (line : SourceLine)
    (idents : List Ident) (kind : OccurrenceKind) :
    (idents.foldl (fun point ident => point.define scope ident line kind) before).Renamed rename.name
      ((Ident.renamedList rename idents).foldl (fun point ident => point.define scope ident line kind) after) := by
  induction idents generalizing before after with
  | nil => exact here
  | cons ident rest ih => exact ih (here.define faithful scope ident line kind)

omit faithful in
theorem checkArity (here : before.Renamed rename.name after) (line : SourceLine) (targets : Nat) (value : Expr) :
    (before.checkArity line targets value).Renamed rename.name
      (after.checkArity line targets (value.renamed rename)) := by
  unfold Point.checkArity
  rw [value.valueSource_renamed]
  split
  · exact here
  · cases source : value.valueSource with
    | several => exact here
    | single description =>
      have plain := Expr.unquoted_of_valueSource source
      exact ⟨here.flow, { here.findings with
        diagnostics := List.rel_append here.findings.diagnostics (.cons (.unquoted plain) .nil) }⟩
    | named root =>
      refine ⟨here.flow, { here.findings with pending := ?_ }⟩
      simp only [ValueSource.renamed, here.findings.pending, List.map_append]
      rfl

theorem walkLoop {body other : Point → Point} {entry start : Flow} (same : start = entry.renamed rename.name)
    (each : ∀ {before after : Point}, before.Renamed rename.name after →
      (body before).Renamed rename.name (other after)) (walks : Nat) {before after : Point}
    (here : before.Renamed rename.name after) :
    (Point.walkLoop body entry walks before).Renamed rename.name (Point.walkLoop other start walks after) := by
  induction walks generalizing before after with
  | zero => exact here
  | succ walks ih =>
    have walked := each here
    have next : start.merge (other after).flow = (entry.merge (body before).flow).renamed rename.name := by
      rw [same, walked.flow, Flow.merge_renamed faithful.injective]
    have settled := Flow.same_renamed faithful.injective (entry.merge (body before).flow) before.flow
    rw [← next, ← here.flow] at settled
    unfold Point.walkLoop
    simp only [settled]
    split
    · exact walked.withFlow here.flow
    · exact ih (walked.withFlow next)

end Point.Renamed

section
variable {rename : Renaming}

mutual
/-- Two walks over an expression, under the old and under the new names. -/
theorem Expr.walk_renamed (faithful : rename.Faithful) (scope : ScopeId) : ∀ (expr : Expr) {before after : Point},
    before.Renamed rename.name after →
      (expr.walk scope before).Renamed rename.name ((expr.renamed rename).walk scope after)
  | .ident line named, _, _, here => here.use faithful scope named line false false
  | .literal .., _, _, here => here
  | .operation _ _ operands none, _, _, here => Expr.walkList_renamed faithful scope operands here
  | .operation line _ operands (some result), _, _, here =>
    (Expr.walkList_renamed faithful scope operands here).define faithful scope result line .definition
  | .field _ object _, _, _, here => Expr.walk_renamed faithful scope object here
  | .dynamicField _ object selector, _, _, here =>
    Expr.walk_renamed faithful scope selector (Expr.walk_renamed faithful scope object here)
  | .index _ form target arguments, before, after, here => by
    have indices := Expr.walkList_renamed faithful scope arguments here
    have inner := Expr.walk_renamed faithful scope target indices
    cases target with
    | ident line named =>
      have read := indices.use faithful scope named line true (form = .cellRef || Expr.anyArrayIndex arguments)
      simpa only [Expr.renamed, Expr.walk, Expr.anyArrayIndex_renamedList] using read
    | operation line spelling operands result => cases result <;> exact inner
    | literal | field | dynamicField | index | rows | lambda => exact inner
  | .rows _ _ elements, _, _, here => Expr.walkRows_renamed faithful scope elements here
  | .lambda line params body, _, _, here =>
    (Expr.walk_renamed faithful scope body (here.defineAll faithful scope line params .parameter)).withFlow here.flow

theorem Expr.walkList_renamed (faithful : rename.Faithful) (scope : ScopeId) : ∀ (exprs : List Expr)
    {before after : Point}, before.Renamed rename.name after →
      (Expr.walkList scope exprs before).Renamed rename.name
        (Expr.walkList scope (Expr.renamedList rename exprs) after)
  | [], _, _, here => here
  | expr :: rest, _, _, here => Expr.walkList_renamed faithful scope rest (Expr.walk_renamed faithful scope expr here)

theorem Expr.walkRows_renamed (faithful : rename.Faithful) (scope : ScopeId) : ∀ (rows : List (List Expr))
    {before after : Point}, before.Renamed rename.name after →
      (Expr.walkRows scope rows before).Renamed rename.name
        (Expr.walkRows scope (Expr.renamedRows rename rows) after)
  | [], _, _, here => here
  | row :: rest, _, _, here => Expr.walkRows_renamed faithful scope rest (Expr.walkList_renamed faithful scope row here)
end

variable (faithful : rename.Faithful)
include faithful

theorem Expr.walkTarget_renamed (scope : ScopeId) : ∀ (expr : Expr) (kind : OccurrenceKind) {before after : Point},
    before.Renamed rename.name after →
      (expr.walkTarget scope kind before).Renamed rename.name ((expr.renamed rename).walkTarget scope kind after)
  | .ident line named, kind, _, _, here => here.define faithful scope named line kind
  | .index _ _ target arguments, _, _, _, here =>
    Expr.walkTarget_renamed scope target .partialDefinition (Expr.walkList_renamed faithful scope arguments here)
  | .field _ object _, _, _, _, here => Expr.walkTarget_renamed scope object .partialDefinition here
  | .dynamicField _ object selector, _, _, _, here =>
    Expr.walkTarget_renamed scope object .partialDefinition (selector.walk_renamed faithful scope here)
  | .literal line value, _, _, _, here => Expr.walk_renamed faithful scope (.literal line value) here
  | .operation line spelling operands none, _, _, _, here =>
    Expr.walk_renamed faithful scope (.operation line spelling operands none) here
  | .operation line spelling operands (some result), _, _, _, here =>
    Expr.walk_renamed faithful scope (.operation line spelling operands (some result)) here
  | .rows line brackets elements, _, _, _, here =>
    Expr.walk_renamed faithful scope (.rows line brackets elements) here
  | .lambda line params body, _, _, _, here => Expr.walk_renamed faithful scope (.lambda line params body) here

theorem Expr.walkTargets_renamed (scope : ScopeId) (targets : List Expr) {before after : Point}
    (here : before.Renamed rename.name after) :
    (targets.foldl (fun point target => target.walkTarget scope .definition point) before).Renamed rename.name
      ((Expr.renamedList rename targets).foldl (fun point target => target.walkTarget scope .definition point)
        after) := by
  induction targets generalizing before after with
  | nil => exact here
  | cons target rest ih => exact ih (target.walkTarget_renamed faithful scope .definition here)

namespace Point.Renamed

variable {before after : Point}

theorem declareAll (here : before.Renamed rename.name after) (scope : ScopeId) (line : SourceLine)
    (declaration : Declaration) (names : List Ident) :
    (names.foldl (fun point name => point.declare scope declaration name line) before).Renamed rename.name
      ((Ident.renamedList rename names).foldl (fun point name => point.declare scope declaration name line)
        after) := by
  induction names generalizing before after with
  | nil => exact here
  | cons name rest ih => exact ih (here.declare faithful scope declaration name line)

theorem bindParams (here : before.Renamed rename.name after) (scope : ScopeId) (line : SourceLine)
    (params : List Ident) : (params.foldl (bindParam scope line) before).Renamed rename.name
      ((Ident.renamedList rename params).foldl (bindParam scope line) after) := by
  induction params generalizing before after with
  | nil => exact here
  | cons param rest ih =>
    refine ih ?_
    unfold bindParam
    rw [param.init_renamed]
    cases param.init with
    | none => exact here.define faithful scope param line .parameter
    | some init => exact (init.walk_renamed faithful scope here).define faithful scope param line .parameter

theorem enterFunction (here : before.Renamed rename.name after) (outer : ScopeId) (name : Ident)
    (params : List Ident) (line : SourceLine) :
    (after.enterFunction outer (name.renamed rename) (Ident.renamedList rename params) line).1 =
        (before.enterFunction outer name params line).1 ∧
      (before.enterFunction outer name params line).2.Renamed rename.name
        (after.enterFunction outer (name.renamed rename) (Ident.renamedList rename params) line).2 := by
  have inside {before after : Point} (here : before.Renamed rename.name after) := here.functionScope
    (name.id_renamed rename) (name.name_renamed rename) line
  have cleared : Flow.empty = Flow.empty.renamed rename.name := rfl
  have entered {before after : Point} (here : before.Renamed rename.name after) (scope : ScopeId) :=
    ((here.withFlow cleared).bindImplicit faithful scope).bindParams faithful scope line params
  unfold Point.enterFunction
  rw [name.id_renamed, name.name_renamed]
  cases name.id with
  | none =>
    obtain ⟨own, opened⟩ := inside here
    simp only [own, true_and]
    exact entered opened _
  | some id =>
    obtain ⟨own, opened⟩ := inside (here.record outer name.name id line .functionName false false)
    simp only [own, true_and]
    exact entered opened _

end Point.Renamed

section
variable (limit : Nat)

mutual
/-- Two walks over a statement, under the old and under the new names. -/
theorem Stmt.walk_renamed : ∀ (statement : Stmt) (scope : ScopeId) {before after : Point},
    before.Renamed rename.name after →
      (statement.walk limit scope before).Renamed rename.name ((statement.renamed rename).walk limit scope after)
  | .expression _ value, scope, _, _, here => value.walk_renamed faithful scope here
  | .assign line targets value, scope, before, after, here => by
    have assigned := Expr.walkTargets_renamed faithful scope targets (value.walk_renamed faithful scope here)
    have checked := assigned.checkArity line targets.length value
    simpa only [Stmt.renamed, Stmt.walk, Expr.renamedList_eq_map, List.length_map] using checked
  | .branch _ condition thenBody none, scope, _, _, here => by
    have start := condition.walk_renamed faithful scope here
    have thenEnd := Stmt.walkList_renamed thenBody scope none start
    exact (thenEnd.withFlow start.flow).join faithful.injective thenEnd.flow
  | .branch _ condition thenBody (some elseBody), scope, _, _, here => by
    have start := condition.walk_renamed faithful scope here
    have thenEnd := Stmt.walkList_renamed thenBody scope none start
    have elseEnd := Stmt.walkList_renamed elseBody scope none (thenEnd.withFlow start.flow)
    exact elseEnd.join faithful.injective thenEnd.flow
  | .forEach line loopName columns body, scope, _, _, here => by
    have start := columns.walk_renamed faithful scope here
    exact Point.Renamed.walkLoop faithful start.flow
      (fun here => Stmt.walkList_renamed body scope none (here.define faithful scope loopName line .definition))
      limit start
  | .whileLoop _ condition body, scope, _, _, here =>
    condition.walk_renamed faithful scope <| Point.Renamed.walkLoop faithful here.flow
      (fun here => Stmt.walkList_renamed body scope none (condition.walk_renamed faithful scope here)) limit here
  | .attempt line body handler none, scope, _, _, here =>
    Handler.walk_renamed handler line scope
      ((Stmt.walkList_renamed body scope none here).join faithful.injective here.flow)
  | .attempt line body handler (some finallyBody), scope, _, _, here =>
    Stmt.walkList_renamed finallyBody scope none <| Handler.walk_renamed handler line scope
      ((Stmt.walkList_renamed body scope none here).join faithful.injective here.flow)
  | .function line name params body, scope, before, after, here => by
    obtain ⟨own, entered⟩ := here.enterFunction faithful scope name params line
    have walked := Stmt.walkList_renamed body (before.enterFunction scope name params line).1 none entered
    simp only [Stmt.renamed, Stmt.walk, own]
    exact walked.withFlow here.flow
  | .declare line declaration names, scope, _, _, here => here.declareAll faithful scope line declaration names
  | .return _ none, _, _, _, here | .word .., _, _, _, here | .comment .., _, _, _, here => here
  | .return _ (some value), scope, _, _, here => value.walk_renamed faithful scope here

theorem Handler.walk_renamed : ∀ (handler : Handler) (line : SourceLine) (scope : ScopeId) {before after : Point},
    before.Renamed rename.name after →
      (handler.walk limit line scope before).Renamed rename.name
        ((handler.renamed rename).walk limit line scope after)
  | .absent, _, _, _, _, here => here
  | .present none body, _, scope, _, _, here =>
    (Stmt.walkList_renamed body scope none here).join faithful.injective here.flow
  | .present (some name) body, line, scope, _, _, here =>
    (Stmt.walkList_renamed body scope none (here.define faithful scope name line .definition)).join
      faithful.injective here.flow

theorem Stmt.walkList_renamed : ∀ (statements : List Stmt) (scope : ScopeId) (suspended : Suspended)
    {before after : Point}, before.Renamed rename.name after →
      (Stmt.walkList limit statements scope suspended before).Renamed rename.name
        (Stmt.walkList limit (Stmt.renamedList rename statements) scope (suspended.renamed rename.name) after)
  | [], _, suspended, _, _, here => here.resume suspended
  | statement :: rest, scope, suspended, before, after, here => by
    have outer : (suspended.renamed rename.name).outer scope = suspended.outer scope := by cases suspended <;> rfl
    have back := here.resume suspended
    have first := Stmt.walk_renamed statement
    match statement with
    | .function line name params [] =>
      obtain ⟨own, entered⟩ := back.enterFunction faithful (suspended.outer scope) name params line
      have others := Stmt.walkList_renamed rest
        ((suspended.resume before).enterFunction (suspended.outer scope) name params line).1
        (some (suspended.outer scope, (suspended.resume before).flow)) entered
      simp only [Stmt.renamedList, Stmt.renamed, Stmt.walkList, outer, own, back.flow]
      exact others
    | .function line name params (head :: tail) =>
      have others := Stmt.walkList_renamed rest (suspended.outer scope) none (first (suspended.outer scope) back)
      simp only [Stmt.renamedList, Stmt.renamed, Stmt.walkList, outer]
      exact others
    | .branch _ _ _ none | .branch _ _ _ (some _) | .attempt _ _ _ none | .attempt _ _ _ (some _) | .return _ none
    | .return _ (some _) | .expression .. | .assign .. | .forEach .. | .whileLoop .. | .declare .. | .word ..
    | .comment .. => exact Stmt.walkList_renamed rest scope suspended (first scope here)
end

end
end
end ArrayLift
