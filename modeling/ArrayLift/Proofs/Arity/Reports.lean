import ArrayLift.Proofs.Arity.Loops
import ArrayLift.Proofs.Walk.Outcome

/-! The reports of a program on assignments of several targets from a single value, against the count of such
assignments in it. Every one of them is reported, and once only if the loops around it are passed once. -/
namespace ArrayLift

/-- Can an expression give only one value? An index can if it starts from a variable or a computed value. -/
def Expr.isSingle (table : ScopeTable) : Expr → Bool
  | .literal .. | .operation .. | .field .. | .dynamicField .. | .rows .. | .lambda .. => true
  | .ident _ named => named.id.all fun id => table.roleOf id = .variable
  | .index _ .cellRef _ _ => false
  | .index _ _ target _ => target.callee?.all fun root => table.roleOf root.1 = .variable

mutual
/-- The assignments in a statement that take several values from a single one. -/
def Stmt.mismatches (table : ScopeTable) : Stmt → Nat
  | .assign _ targets value => if 1 < targets.length && value.isSingle table then 1 else 0
  | .branch _ _ thenBody none => Stmt.mismatchesList table thenBody
  | .branch _ _ thenBody (some elseBody) =>
    Stmt.mismatchesList table thenBody + Stmt.mismatchesList table elseBody
  | .forEach _ _ _ body | .whileLoop _ _ body | .function _ _ _ body => Stmt.mismatchesList table body
  | .attempt _ body handler none => Stmt.mismatchesList table body + Handler.mismatches table handler
  | .attempt _ body handler (some finallyBody) =>
    Stmt.mismatchesList table body + Handler.mismatches table handler + Stmt.mismatchesList table finallyBody
  | .expression .. | .declare .. | .return .. | .word .. | .comment .. => 0

def Handler.mismatches (table : ScopeTable) : Handler → Nat
  | .absent => 0
  | .present _ body => Stmt.mismatchesList table body

def Stmt.mismatchesList (table : ScopeTable) : List Stmt → Nat
  | [] => 0
  | statement :: rest => Stmt.mismatches table statement + Stmt.mismatchesList table rest
end

namespace Program

def mismatches (table : ScopeTable) (program : Program) : Nat :=
  Stmt.mismatchesList table program.statements

end Program

/-- The reports of a resolution on assignments of several targets. -/
def Analysis.arityReports (analysis : Analysis) : Nat :=
  analysis.diagnostics.countP (·.concern = .arityMismatch)

variable (table : ScopeTable)

theorem Expr.isSingle_valueSource (expr : Expr) : expr.valueSource.isSingle table = expr.isSingle table := by
  cases expr with
  | ident line named =>
    obtain ⟨name, init, role, reserved, id⟩ := named
    cases id <;> rfl
  | literal line value => cases value <;> rfl
  | index line form target arguments => cases form <;> rfl
  | rows line brackets elements => cases brackets <;> rfl
  | operation | field | dynamicField | lambda => rfl

namespace Route

theorem mismatches_use (ident : Ident) (line : SourceLine) (indexed arrayOnly : Bool) :
    (use ident line indexed arrayOnly).mismatches table = 0 := by
  unfold use
  split <;> rfl

theorem mismatches_define (ident : Ident) (line : SourceLine) (kind : OccurrenceKind) :
    (define ident line kind).mismatches table = 0 := by
  unfold define
  split <;> rfl

theorem mismatches_declare (declaration : Declaration) (line : SourceLine) (ident : Ident) :
    (declare declaration line ident).mismatches table = 0 := by
  unfold declare
  split <;> rfl

theorem mismatches_all {routes : List Route} (each : ∀ route ∈ routes, route.mismatches table = 0) :
    (all routes).mismatches table = 0 := by
  induction routes with
  | nil => rfl
  | cons route rest ih =>
    have first := each route (by simp)
    have others := ih fun other member => each other (by simp [member])
    simp only [all, mismatches, first, others]

theorem mismatches_checkArity (line : SourceLine) (targets : List Expr) (value : Expr) :
    (checkArity line targets.length value).mismatches table = (Stmt.assign line targets value).mismatches table := by
  unfold checkArity Stmt.mismatches
  by_cases several : targets.length ≤ 1
  · simp [several, mismatches, Nat.not_lt.mpr several]
  · simp [several, mismatches, Step.isMismatch, Expr.isSingle_valueSource, Nat.lt_of_not_le several]

end Route

mutual
theorem Expr.mismatches_route : ∀ expr : Expr, expr.route.mismatches table = 0
  | .ident line named => Route.mismatches_use table named line false false
  | .literal .. => rfl
  | .operation _ _ operands none => Expr.mismatches_routeList operands
  | .operation line _ operands (some result) => by
    simp only [Expr.route, Route.mismatches, Expr.mismatches_routeList operands, Route.mismatches_define]
  | .field _ object _ => Expr.mismatches_route object
  | .dynamicField _ object selector => by
    simp only [Expr.route, Route.mismatches, Expr.mismatches_route object, Expr.mismatches_route selector]
  | .index _ form target arguments => by
    have before := Expr.mismatches_routeList arguments
    have inner := Expr.mismatches_route target
    refine Nat.add_eq_zero_iff.mpr ⟨before, ?_⟩
    cases target with
    | ident line named => exact Route.mismatches_use table named line true _
    | literal | operation | field | dynamicField | index | rows | lambda => exact inner
  | .rows _ _ elements => Expr.mismatches_routeRows elements
  | .lambda line params body => by
    have bound : (Route.all (params.map (Route.define · line .parameter))).mismatches table = 0 := by
      apply Route.mismatches_all table

      intro route member
      obtain ⟨param, _, rfl⟩ := List.mem_map.mp member
      exact Route.mismatches_define table param line .parameter
    simp only [Expr.route, Route.mismatches, bound, Expr.mismatches_route body]

theorem Expr.mismatches_routeList : ∀ exprs : List Expr, (Expr.routeList exprs).mismatches table = 0
  | [] => rfl
  | expr :: rest => by
    simp only [Expr.routeList, Route.mismatches, Expr.mismatches_route expr, Expr.mismatches_routeList rest]

theorem Expr.mismatches_routeRows : ∀ rows : List (List Expr), (Expr.routeRows rows).mismatches table = 0
  | [] => rfl
  | row :: rest => by
    simp only [Expr.routeRows, Route.mismatches, Expr.mismatches_routeList row,
      Expr.mismatches_routeRows rest]
end

theorem Expr.mismatches_targetRoute : ∀ (expr : Expr) (kind : OccurrenceKind),
    (expr.targetRoute kind).mismatches table = 0
  | .ident line named, kind => Route.mismatches_define table named line kind
  | .index _ _ target arguments, _ => by
    simp only [Expr.targetRoute, Route.mismatches, Expr.mismatches_routeList,
      Expr.mismatches_targetRoute target]
  | .field _ object _, _ => Expr.mismatches_targetRoute object .partialDefinition
  | .dynamicField _ object selector, _ => by
    simp only [Expr.targetRoute, Route.mismatches, Expr.mismatches_route, Expr.mismatches_targetRoute object]
  | .literal line value, _ => Expr.mismatches_route table (.literal line value)
  | .operation line spelling operands result, _ =>
    Expr.mismatches_route table (.operation line spelling operands result)
  | .rows line brackets elements, _ => Expr.mismatches_route table (.rows line brackets elements)
  | .lambda line params body, _ => Expr.mismatches_route table (.lambda line params body)

theorem Ident.mismatches_paramRoutes (line : SourceLine) (params : List Ident) :
    (Route.all (params.map (Ident.paramRoute line))).mismatches table = 0 := by
  apply Route.mismatches_all table

  intro route member
  obtain ⟨param, _, rfl⟩ := List.mem_map.mp member
  unfold Ident.paramRoute
  cases param.init with
  | none => simp only [Route.mismatches, Route.mismatches_define]
  | some init => simp only [Route.mismatches, Expr.mismatches_route, Route.mismatches_define]

mutual
theorem Stmt.mismatches_route :
    ∀ statement : Stmt, statement.route.mismatches table = statement.mismatches table
  | .expression _ value => value.mismatches_route table
  | .assign line targets value => by
    have assigned : (Route.all (targets.map (Expr.targetRoute · .definition))).mismatches table = 0 := by
      apply Route.mismatches_all table

      intro route member
      obtain ⟨target, _, rfl⟩ := List.mem_map.mp member
      exact target.mismatches_targetRoute table .definition
    simp only [Stmt.route, Route.mismatches, Expr.mismatches_route, assigned, Route.mismatches_checkArity,
      Nat.zero_add]
  | .branch _ condition thenBody none => by
    simp only [Stmt.route, Route.mismatches, Expr.mismatches_route, Stmt.mismatches_block thenBody,
      Stmt.mismatches, Nat.zero_add, Nat.add_zero]
  | .branch _ condition thenBody (some elseBody) => by
    simp only [Stmt.route, Route.mismatches, Expr.mismatches_route, Stmt.mismatches_block thenBody,
      Stmt.mismatches_block elseBody, Stmt.mismatches, Nat.zero_add]
  | .forEach line loopName columns body => by
    simp only [Stmt.route, Route.mismatches, Expr.mismatches_route, Route.mismatches_define,
      Stmt.mismatches_block body, Stmt.mismatches, Nat.zero_add, Nat.add_zero]
  | .whileLoop _ condition body => by
    simp only [Stmt.route, Route.mismatches, Expr.mismatches_route, Stmt.mismatches_block body,
      Stmt.mismatches, Nat.zero_add, Nat.add_zero]
  | .attempt line body handler none => by
    simp only [Stmt.route, Route.mismatches, Stmt.mismatches_block body, Handler.mismatches_route handler,
      Stmt.mismatches, Nat.add_zero]
  | .attempt line body handler (some finallyBody) => by
    simp only [Stmt.route, Route.mismatches, Stmt.mismatches_block body, Handler.mismatches_route handler,
      Stmt.mismatches_block finallyBody, Stmt.mismatches]
  | .function line name params body => by
    simp only [Stmt.route, Route.mismatches, Ident.mismatches_paramRoutes, Stmt.mismatches_block body,
      Stmt.mismatches, Nat.zero_add]
  | .declare line declaration names => by
    apply Route.mismatches_all table

    intro route member
    obtain ⟨name, _, rfl⟩ := List.mem_map.mp member
    exact Route.mismatches_declare table declaration line name
  | .return _ none => rfl
  | .return _ (some value) => value.mismatches_route table
  | .word _ .break | .word _ .continue | .word _ .pass | .word _ .nothing | .comment .. => rfl

theorem Handler.mismatches_route : ∀ (handler : Handler) (line : SourceLine),
    (handler.route line).mismatches table = handler.mismatches table
  | .absent, _ => rfl
  | .present none body, line => by
    simp only [Handler.route, Route.mismatches, Stmt.mismatches_block body, Handler.mismatches, Nat.zero_add]
  | .present (some name) body, line => by
    simp only [Handler.route, Route.mismatches, Route.mismatches_define, Stmt.mismatches_block body,
      Handler.mismatches, Nat.zero_add]

theorem Stmt.mismatches_block : ∀ statements : List Stmt,
    (Route.block (Stmt.routes statements)).mismatches table = Stmt.mismatchesList table statements
  | [] => rfl
  | statement :: rest => by
    have others := Stmt.mismatches_block rest
    have first := Stmt.mismatches_route statement
    simp only [Route.block, Route.mismatches] at others
    match statement with
    | .function line name params [] =>
      simp only [Stmt.routes, Route.block, Route.mismatches, Ident.mismatches_paramRoutes,
        Stmt.mismatchesList, Stmt.mismatches, Nat.zero_add, others]
    | .function line name params (head :: tail) =>
      simp only [Stmt.routes, Route.block, Route.mismatches, first, others, Stmt.mismatchesList, Nat.zero_add]
    | .branch .. | .attempt .. | .return .. | .expression .. | .assign .. | .forEach .. | .whileLoop ..
    | .declare .. | .word .. | .comment .. =>
      simp only [Stmt.routes, Route.block, Route.mismatches, first, Stmt.mismatchesList, Nat.add_assoc,
        others]
end

theorem PendingAssignment.concern_diagnostic? {table : ScopeTable} {pending : PendingAssignment}
    {diagnostic : Diagnostic} (found : pending.diagnostic? table = some diagnostic) :
    diagnostic.concern = .arityMismatch := by
  unfold diagnostic? at found
  split at found
  · obtain rfl := Option.some.inj found
    rfl
  · split at found
    · obtain rfl := Option.some.inj found
      rfl
    · cases found

/-- The reports that the walk has gathered are those of the analysis. -/
theorem Findings.arityReports_analysis (findings : Findings) :
    findings.analysis.arityReports = findings.reports findings.analysis.table := by
  have none (table : ScopeTable) : table.ambiguousIndices.countP (·.concern = .arityMismatch) = 0 := by
    apply List.countP_eq_zero.mpr
    intro diagnostic member
    obtain ⟨occurrence, _, rfl⟩ := List.mem_map.mp member
    simp [Diagnostic.ambiguousIndex, Diagnostic.withHint, Diagnostic.warning, Diagnostic.plain]
  have kept (table : ScopeTable) (pending : List PendingAssignment) :
      (pending.filterMap (PendingAssignment.diagnostic? table)).countP (·.concern = .arityMismatch) =
        pending.countP fun pending => (pending.diagnostic? table).isSome := by
    rw [List.countP_filterMap]
    apply List.countP_congr
    intro pending _
    cases found : pending.diagnostic? table with
    | none => simp
    | some diagnostic => simp [PendingAssignment.concern_diagnostic? found]
  simp only [Analysis.arityReports, Findings.analysis]
  rw [(List.mergeSort_perm _ _).countP_eq, List.countP_append, List.countP_append, none, kept]
  rfl

namespace Program

variable (program : Program) (settings : Settings)

/-- Every visit of the walk to an assignment is a report on it. -/
theorem arityReports_visits : (program.resolve settings).analysis.arityReports =
    program.withIds.1.route.visits (program.resolve settings).analysis.table (walkLimit program.withIds.2)
      ScopeTable.script ⟨.empty, .start program.withIds.1.declaredFunctions⟩ := by
  have gathered : (program.resolve settings).analysis.arityReports =
      (program.withIds.1.findings (walkLimit program.withIds.2)).reports (program.resolve settings).analysis.table :=
    Findings.arityReports_analysis _
  rw [gathered, findings_route, Route.reports_walk]
  exact Nat.zero_add _

theorem lacks_start (ids : List IdentId) : View.start.Lacks ids :=
  fun _ none => none.elim

end Program

/-- Every assignment of several targets from a single value is reported, and each of them once exactly if every
loop around one of them makes nothing live that is not live before it. If such loops declare nothing, these are
the loops that define nothing. -/
theorem Program.arityReports_eq_iff (program : Program) (settings : Settings) :
    let analysis := (program.resolve settings).analysis
    let numbered := program.withIds.1
    let claimed := numbered.mismatches analysis.table
    claimed ≤ analysis.arityReports ∧
      (analysis.arityReports = claimed ↔ numbered.route.SettledAtOnce analysis.table
        (walkLimit program.withIds.2) ScopeTable.script 1 .start) ∧
      (numbered.route.EachLoop analysis.table (fun body => ∀ scope, body.bindings scope = []) →
        (analysis.arityReports = claimed ↔
          numbered.route.EachLoop analysis.table fun body => body.definitions = [])) := by
  intro analysis numbered claimed
  let limit := walkLimit program.withIds.2
  let start : Point := ⟨.empty, .start numbered.declaredFunctions⟩
  have enough : 3 ≤ limit := three_le_walkLimit program.withIds.2
  have counted : numbered.route.mismatches analysis.table = claimed :=
    Stmt.mismatches_block analysis.table numbered.statements
  have visited : analysis.arityReports = numbered.route.visits analysis.table limit ScopeTable.script start :=
    program.arityReports_visits settings
  obtain ⟨atLeast, once⟩ := numbered.route.visits_eq_iff (Nat.le_of_succ_le enough) ScopeTable.script start
  rw [← visited, counted] at atLeast once
  have passed : numbered.route.PassedOnce analysis.table limit ScopeTable.script start ↔
      numbered.route.SettledAtOnce analysis.table limit ScopeTable.script 1 .start := by
    rw [← Point.start_view numbered.declaredFunctions]
    exact numbered.route.passedOnce_iff (Nat.zero_lt_of_lt enough) ScopeTable.script 1 start program.covers_route
      (Point.start_valid _ _) (Point.start_opened _)
  have settled := once.trans passed
  refine ⟨atLeast, settled, fun undeclared => settled.trans ?_⟩
  exact numbered.route.settledAtOnce_iff enough numbered.tidy_route
    (Stmt.spans_block program.statements 0).loops
    undeclared ScopeTable.script 1 .start Nat.one_pos (lacks_start _)

/-- A loop that assigns two names from a single value; its body is walked twice. -/
def Program.reportedTwice : Program :=
  ⟨[.whileLoop 1 (.literal 1 (.logical true))
    [.assign 2 [.ident 2 (.named "a"), .ident 2 (.named "b")] (.literal 2 (.logical true))]]⟩

/-- One assignment may have two reports. -/
theorem arityReports_reportedTwice :
    (Program.reportedTwice.resolve {}).analysis.arityReports = 2 ∧
      Program.reportedTwice.withIds.1.mismatches (Program.reportedTwice.resolve {}).analysis.table = 1 := by
  have gathered : (Program.reportedTwice.resolve {}).analysis.arityReports =
      (Program.reportedTwice.withIds.1.findings (Program.walkLimit Program.reportedTwice.withIds.2)).reports _ :=
    Findings.arityReports_analysis _
  refine ⟨?_, rfl⟩
  rw [gathered]
  decide

end ArrayLift
