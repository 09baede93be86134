import ArrayLift.Proofs.Annotation.Forms
import ArrayLift.Proofs.Arity.Reports

/-! The check of assignments of several targets agrees with what annotation makes of their values: it has nothing
to report exactly if every such value is left as something that can give as many values as there are targets. -/
namespace ArrayLift

/-- The identities on a route. -/
def Route.ids : Route → List IdentId
  | .stay | .jump _ => []
  | .step action => action.id?.toList
  | .seq first second | .fork first second | .ensure first second | .finish first second => ids first ++ ids second
  | .attempt body | .loop body | .aside body => ids body
  | .function id _ _ body => id.toList ++ ids body

theorem Route.map_id_occurrences (route : Route) (scope next : ScopeId) :
    (route.occurrences scope next).map Occurrence.id = route.ids := by
  induction route generalizing scope next with
  | stay | jump _ => rfl
  | step action => cases action <;> rfl
  | seq first second ihFirst ihSecond | fork first second ihFirst ihSecond | ensure first second ihFirst ihSecond
  | finish first second ihFirst ihSecond => simp only [occurrences, ids, List.map_append, ihFirst, ihSecond]
  | attempt body ih | loop body ih | aside body ih => exact ih scope next
  | function id name line body ih => cases id <;> simp [occurrences, ids, ih]

/-- The graph knows what every occurrence denotes. -/
theorem DefUse.Graph.roleOf_known (graph : DefUse.Graph) (occurrence : Occurrence) :
    graph.roleOf occurrence ≠ .unknown := by
  unfold roleOf
  split
  · simp
  · split
    · split <;> simp
    · simp
  · simp

/-- Everything that is visited has a role in the end. -/
theorem Program.roleOf_visited (program : Program) (settings : Settings) {id : IdentId}
    (visited : id ∈ program.withIds.1.route.ids) :
    (program.resolve settings).analysis.table.roleOf id ≠ .unknown := by
  rw [← program.withIds.1.route.map_id_occurrences ScopeTable.script 1] at visited
  obtain ⟨occurrence, inside, rfl⟩ := List.mem_map.mp visited
  rw [program.resolve_roleOf settings inside]
  exact DefUse.Graph.roleOf_known _ occurrence

theorem Route.ids_use (ident : Ident) (line : SourceLine) (indexed arrayOnly : Bool) :
    (use ident line indexed arrayOnly).ids = ident.id.toList := by
  obtain ⟨name, init, role, reserved, id⟩ := ident
  cases id <;> rfl

theorem Expr.StartsFrom.visited {expr : Expr} {named : Ident} (starts : expr.StartsFrom named) :
    named.id.toList ⊆ expr.route.ids := by
  induction starts with
  | ident line named => simp only [Expr.route, Route.ids_use, List.Subset.refl]
  | field line name _ ih => exact ih
  | dynamicField line selector _ ih => exact List.subset_append_of_subset_left _ ih

theorem Expr.ids_target (line : SourceLine) (form : IndexForm) (target : Expr) (arguments : List Expr) :
    target.route.ids ⊆ (Expr.index line form target arguments).route.ids := by
  cases target with
  | ident line named =>
    simp only [Expr.route, Route.ids, Route.ids_use]
    exact List.subset_append_right _ _
  | operation line spelling operands result => cases result <;> exact List.subset_append_right _ _
  | literal | field | dynamicField | index | rows | lambda => exact List.subset_append_right _ _

/-- The names that a numbered expression starts from have identities. -/
theorem Expr.id_of_startsFrom_withIds : ∀ (expr : Expr) (next : Nat) {named : Ident},
    (expr.withIds next).1.StartsFrom named → ∃ id, named.id = some id
  | .ident line named, next, _, starts => by
    cases starts
    exact ⟨next, (named.numbered_withIds next).id⟩
  | .field _ object _, next, _, starts => by
    cases starts with
    | field _ _ inner => exact Expr.id_of_startsFrom_withIds object next inner
  | .dynamicField _ object _, next, _, starts => by
    cases starts with
    | dynamicField _ _ inner => exact Expr.id_of_startsFrom_withIds object next inner
  | .literal .., _, _, starts | .operation _ _ _ none, _, _, starts | .operation _ _ _ (some _), _, _, starts
  | .index .., _, _, starts | .rows .., _, _, starts | .lambda .., _, _, starts => by cases starts

theorem Expr.withIds_eq_index {expr target : Expr} {next : Nat} {line : SourceLine} {form : IndexForm}
    {arguments : List Expr} (same : (expr.withIds next).1 = .index line form target arguments) :
    ∃ inner : Expr, target = (inner.withIds next).1 := by
  cases expr with
  | index line before inner outer =>
    cases same
    exact ⟨inner, rfl⟩
  | operation line spelling operands result => cases result <;> cases same
  | ident | literal | field | dynamicField | rows | lambda => cases same

section
variable (table : ScopeTable) (words : ReservedWords)

/-- The names that an expression starts from have roles in the table. -/
def Expr.RootKnown (expr : Expr) : Prop :=
  ∀ named, expr.StartsFrom named → ∃ id, named.id = some id ∧ table.roleOf id ≠ .unknown

theorem ScopeTable.roleFor_known {id : IdentId} (known : table.roleOf id ≠ .unknown) (old : Role) :
    table.roleFor (some id) old = table.roleOf id := by
  cases role : table.roleOf id with
  | unknown => exact absurd role known
  | _ => simp only [roleFor, role]

theorem Ident.role_annotate (ident : Ident) :
    (ident.annotate table words).1.role = table.roleFor ident.id ident.role := by
  obtain ⟨name, init, role, reserved, id⟩ := ident
  cases init <;> rfl

/-- The role that annotation writes at the start of an expression is the one that the arity check looks up. -/
theorem Expr.calleeRole?_known : ∀ (expr : Expr) (place : Place), expr.RootKnown table →
    (expr.annotate table words place).1.calleeRole? = expr.callee?.map fun root => table.roleOf root.1
  | .ident line named, place, known => by
    obtain ⟨id, same, settled⟩ := known named (.ident line named)
    simp only [Expr.annotate, Expr.calleeRole?, Expr.callee?, Ident.role_annotate, same,
      table.roleFor_known settled, Option.map_some]
  | .field line object name, place, known =>
    Expr.calleeRole?_known object place.inner fun named starts => known named (.field line name starts)
  | .dynamicField line object selector, place, known =>
    Expr.calleeRole?_known object place.inner fun named starts => known named (.dynamicField line selector starts)
  | .literal .., _, _ | .operation _ _ _ none, _, _ | .operation _ _ _ (some _), _, _ | .index .., _, _
  | .rows .., _, _ | .lambda .., _, _ => rfl

end

/-- Does an expression, as resolution leaves it, give this count of values? -/
def Expr.Supplies (count : Nat) : Expr → Prop
  | .index _ (.call results) _ _ => results = count
  | .index _ .cellRef _ _ => True
  | .ident _ named => named.role = .function
  | _ => False

section
variable {table : ScopeTable} (words : ReservedWords)

theorem Expr.startsFrom_of_callee? {root : IdentId × String} : ∀ expr : Expr, expr.callee? = some root →
    ∃ named, expr.StartsFrom named ∧ named.id = some root.1
  | .ident line named, found => by
    obtain ⟨id, same, rfl⟩ := Option.map_eq_some_iff.mp found
    exact ⟨named, .ident line named, same⟩
  | .field line object name, found => by
    obtain ⟨named, starts, same⟩ := Expr.startsFrom_of_callee? object found
    exact ⟨named, .field line name starts, same⟩
  | .dynamicField line object selector, found => by
    obtain ⟨named, starts, same⟩ := Expr.startsFrom_of_callee? object found
    exact ⟨named, .dynamicField line selector starts, same⟩
  | .literal .., found | .operation .., found | .index .., found | .rows .., found | .lambda .., found => by
    cases found

theorem Expr.RootKnown.callee? {expr : Expr} (known : expr.RootKnown table) {root : IdentId × String}
    (found : expr.callee? = some root) : table.roleOf root.1 ≠ .unknown := by
  obtain ⟨named, starts, same⟩ := expr.startsFrom_of_callee? found
  obtain ⟨id, again, settled⟩ := known named starts
  obtain rfl : id = root.1 := Option.some.inj (again.symm.trans same)
  exact settled

/-- A call is read exactly where the arity check does not find a variable or a computed value. -/
theorem Place.isCall_annotate {target : Expr} (known : target.RootKnown table) (results : Nat) (place : Place) :
    (Place.value results).isCall (target.annotate table words place).1 =
      !(target.callee?.all fun root => table.roleOf root.1 = .variable) := by
  simp only [isCall, Expr.calleeRole?_known table words target place known]
  cases found : target.callee? with
  | none => rfl
  | some root =>
    have settled := known.callee? found
    cases role : table.roleOf root.1 <;> simp [role] at settled ⊢

/-- What is asked for a count of results supplies it exactly if the arity check does not take it for single. -/
theorem Expr.supplies_annotate {value : Expr} (direct : value.RootKnown table)
    (indexed : ∀ line form target arguments, value = .index line form target arguments → target.RootKnown table)
    (results : Nat) :
    (value.annotate table words (.value results)).1.Supplies results ↔ value.isSingle table = false := by
  cases value with
  | ident line named =>
    obtain ⟨id, same, settled⟩ := direct named (.ident line named)
    simp only [Expr.annotate, Supplies, isSingle, Ident.role_annotate, same, table.roleFor_known settled]
    cases role : table.roleOf id <;> simp [role] at settled ⊢
  | index line form target arguments =>
    have call := Place.isCall_annotate words (indexed line form target arguments rfl) results (.value 1)
    cases form with
    | cellRef => simp [Expr.annotate, IndexForm.decided, Supplies, isSingle]
    | apply | arrayRef | call =>
      simp only [Expr.annotate, Place.inner, IndexForm.decided, call, isSingle]
      cases target.callee?.all fun root => decide (table.roleOf root.1 = .variable) <;> simp [Supplies]
  | operation line spelling operands result => cases result <;> simp [Expr.annotate, Supplies, isSingle]
  | literal | field | dynamicField | rows | lambda => simp [Expr.annotate, Supplies, isSingle]

def Assignment.annotate (table : ScopeTable) (words : ReservedWords) (assignment : Assignment) : Assignment :=
  ⟨(Expr.annotateList table words assignment.targets .assigned).1,
    (assignment.value.annotate table words (.value (max 1 assignment.targets.length))).1⟩

mutual
theorem Stmt.assignments_annotate : ∀ statement : Stmt,
    (statement.annotate table words).1.assignments = statement.assignments.map (·.annotate table words)
  | .assign .. => rfl
  | .branch _ _ thenBody none => Stmt.assignmentsList_annotate thenBody
  | .branch _ _ thenBody (some elseBody) => by
    simp only [Stmt.annotate, Stmt.assignments, Stmt.assignmentsList_annotate thenBody,
      Stmt.assignmentsList_annotate elseBody, List.map_append]
  | .forEach _ _ _ body | .whileLoop _ _ body | .function _ _ _ body => Stmt.assignmentsList_annotate body
  | .attempt _ body handler none => by
    simp only [Stmt.annotate, Stmt.assignments, Stmt.assignmentsList_annotate body,
      Handler.assignments_annotate handler, List.map_append]
  | .attempt _ body handler (some finallyBody) => by
    simp only [Stmt.annotate, Stmt.assignments, Stmt.assignmentsList_annotate body,
      Handler.assignments_annotate handler, Stmt.assignmentsList_annotate finallyBody, List.map_append]
  | .expression .. | .declare .. | .return _ none | .return _ (some _) | .word .. | .comment .. => rfl

theorem Handler.assignments_annotate : ∀ handler : Handler,
    (handler.annotate table words).1.assignments = handler.assignments.map (·.annotate table words)
  | .absent => rfl
  | .present none body | .present (some _) body => Stmt.assignmentsList_annotate body

theorem Stmt.assignmentsList_annotate : ∀ statements : List Stmt,
    Stmt.assignmentsList (Stmt.annotateList table words statements).1 =
      (Stmt.assignmentsList statements).map (·.annotate table words)
  | [] => rfl
  | statement :: rest => by
    simp only [Stmt.annotateList, Stmt.assignmentsList, Stmt.assignments_annotate statement,
      Stmt.assignmentsList_annotate rest, List.map_append]
end

end

/-- The values of these assignments are numbered, and a route visits their identities. -/
def Route.Carries (route : Route) (assignments : List Assignment) : Prop :=
  ∀ assignment ∈ assignments,
    (∃ value next, assignment.value = (Expr.withIds value next).1) ∧ assignment.value.route.ids ⊆ route.ids

namespace Route.Carries

variable {route other : Route} {assignments others : List Assignment}

theorem none (route : Route) : route.Carries [] := List.forall_mem_nil _

theorem mono (carries : route.Carries assignments) (included : route.ids ⊆ other.ids) : other.Carries assignments :=
  fun assignment member =>
    ⟨(carries assignment member).1, List.Subset.trans (carries assignment member).2 included⟩

theorem left (carries : route.Carries assignments) (second : Route) : (Route.seq route second).Carries assignments :=
  carries.mono (List.subset_append_left _ _)

theorem right (carries : route.Carries assignments) (first : Route) : (Route.seq first route).Carries assignments :=
  carries.mono (List.subset_append_right _ _)

theorem both (one : route.Carries assignments) (two : other.Carries others) :
    (Route.seq route other).Carries (assignments ++ others) :=
  List.forall_mem_append.mpr ⟨one.left other, two.right route⟩

end Route.Carries

mutual
theorem Stmt.carries : ∀ (statement : Stmt) (next : Nat),
    (statement.withIds next).1.route.Carries (statement.withIds next).1.assignments
  | .assign _ _ value, _ =>
    List.forall_mem_singleton.mpr ⟨⟨value, _, rfl⟩, List.subset_append_left _ _⟩
  | .branch _ _ thenBody none, _ => ((Stmt.carriesList thenBody _).left .stay).right _
  | .branch _ _ thenBody (some elseBody), _ =>
    ((Stmt.carriesList thenBody _).both (Stmt.carriesList elseBody _)).right _
  | .forEach _ _ _ body, _ => (((Stmt.carriesList body _).right _).left .stay).right _
  | .whileLoop _ _ body, _ => ((Stmt.carriesList body _).right _).left _
  | .attempt _ body handler none, _ =>
    ((Stmt.carriesList body _).both (Handler.carries handler _ _)).left .stay
  | .attempt _ body handler (some finallyBody), _ =>
    ((Stmt.carriesList body _).both (Handler.carries handler _ _)).both (Stmt.carriesList finallyBody _)
  | .function _ _ _ body, _ =>
    ((Stmt.carriesList body _).right _).mono (List.subset_append_right _ _)
  | .expression .., _ | .declare .., _ | .return _ (some _), _ | .return _ none, _ | .word .., _
  | .comment .., _ => .none _

theorem Handler.carries : ∀ (handler : Handler) (next : Nat) (line : SourceLine),
    ((handler.withIds next).1.route line).Carries (handler.withIds next).1.assignments
  | .absent, _, _ => .none _
  | .present none body, _, _ => (Stmt.carriesList body _).right _
  | .present (some _) body, _, _ => (Stmt.carriesList body _).right _

theorem Stmt.carriesList : ∀ (statements : List Stmt) (next : Nat),
    (Route.block (Stmt.routes (Stmt.withIdsList statements next).1)).Carries
      (Stmt.assignmentsList (Stmt.withIdsList statements next).1)
  | [], _ => .none _
  | statement :: rest, next => by
    have first := Stmt.carries statement next
    have others := Stmt.carriesList rest (statement.withIds next).2
    match statement with
    | .function line name params [] =>
      refine others.mono fun id visited => ?_
      simp only [Route.block, Route.ids, List.mem_append] at visited
      simp only [Stmt.withIdsList, Stmt.withIds, Stmt.routes, Route.block, Route.ids, List.mem_append]
      tauto
    | .function line name params (head :: tail) =>
      exact (first.both others).right .stay
    | .branch _ _ _ none | .branch _ _ _ (some _) | .attempt _ _ _ none | .attempt _ _ _ (some _)
    | .return _ none | .return _ (some _) | .expression .. | .assign .. | .forEach .. | .whileLoop ..
    | .declare .. | .word .. | .comment .. =>
      exact (first.both others).mono (List.Perm.of_eq (List.append_assoc _ _ _).symm).subset
end

/-- An assignment to several targets takes them from something that gives several values. -/
def Assignment.Matches (table : ScopeTable) (assignment : Assignment) : Prop :=
  1 < assignment.targets.length → assignment.value.isSingle table = false

section
variable (table : ScopeTable)

mutual
theorem Stmt.mismatches_eq_zero_iff : ∀ statement : Stmt,
    statement.mismatches table = 0 ↔ ∀ assignment ∈ statement.assignments, assignment.Matches table
  | .assign _ targets value => by
    simp [Stmt.mismatches, Stmt.assignments, Assignment.Matches]
  | .branch _ _ thenBody none => Stmt.mismatchesList_eq_zero_iff thenBody
  | .branch _ _ thenBody (some elseBody) => by
    simp only [Stmt.mismatches, Stmt.assignments, Nat.add_eq_zero_iff, List.forall_mem_append,
      Stmt.mismatchesList_eq_zero_iff thenBody, Stmt.mismatchesList_eq_zero_iff elseBody]
  | .forEach _ _ _ body | .whileLoop _ _ body | .function _ _ _ body => Stmt.mismatchesList_eq_zero_iff body
  | .attempt _ body handler none => by
    simp only [Stmt.mismatches, Stmt.assignments, Nat.add_eq_zero_iff, List.forall_mem_append,
      Stmt.mismatchesList_eq_zero_iff body, Handler.mismatches_eq_zero_iff handler]
  | .attempt _ body handler (some finallyBody) => by
    simp only [Stmt.mismatches, Stmt.assignments, Nat.add_eq_zero_iff, List.forall_mem_append,
      Stmt.mismatchesList_eq_zero_iff body, Handler.mismatches_eq_zero_iff handler,
      Stmt.mismatchesList_eq_zero_iff finallyBody]
  | .expression .. | .declare .. | .return .. | .word .. | .comment .. => by
    simp [Stmt.mismatches, Stmt.assignments]

theorem Handler.mismatches_eq_zero_iff : ∀ handler : Handler,
    handler.mismatches table = 0 ↔ ∀ assignment ∈ handler.assignments, assignment.Matches table
  | .absent => by simp [Handler.mismatches, Handler.assignments]
  | .present _ body => Stmt.mismatchesList_eq_zero_iff body

theorem Stmt.mismatchesList_eq_zero_iff : ∀ statements : List Stmt,
    Stmt.mismatchesList table statements = 0 ↔
      ∀ assignment ∈ Stmt.assignmentsList statements, assignment.Matches table
  | [] => by simp [Stmt.mismatchesList, Stmt.assignmentsList]
  | statement :: rest => by
    simp only [Stmt.mismatchesList, Stmt.assignmentsList, Nat.add_eq_zero_iff, List.forall_mem_append,
      Stmt.mismatches_eq_zero_iff statement, Stmt.mismatchesList_eq_zero_iff rest]
end

end

namespace Program

variable (program : Program) (settings : Settings)

/-- There is a report exactly if there is something to report. -/
theorem arityReports_eq_zero_iff :
    (program.resolve settings).analysis.arityReports = 0 ↔
      program.withIds.1.mismatches (program.resolve settings).analysis.table = 0 := by
  let table := (program.resolve settings).analysis.table
  let route := program.withIds.1.route
  have counted : route.mismatches table = program.withIds.1.mismatches table :=
    Stmt.mismatches_block table program.withIds.1.statements
  have enough : 2 ≤ walkLimit program.withIds.2 := Nat.le_of_succ_le (three_le_walkLimit program.withIds.2)
  rw [program.arityReports_visits settings, ← counted]
  -- A check in a loop may be visited more than once, but no check is missed, so that zero means none.
  constructor
  · intro unvisited
    let start : Point := ⟨.empty, .start program.withIds.1.declaredFunctions⟩
    have atLeast : route.mismatches table ≤ route.visits table _ ScopeTable.script start :=
      (route.visits_eq_iff enough ScopeTable.script start).1
    exact Nat.le_zero.mp (unvisited ▸ atLeast)
  · intro none
    exact route.visits_of_no_mismatch none ScopeTable.script _

/-- Annotation leaves the value of an assignment as something that supplies its targets exactly if the check finds
nothing wrong. -/
theorem supplies_iff_matches {assignment : Assignment} (member : assignment ∈ program.withIds.1.assignments)
    (several : 1 < assignment.targets.length) :
    let table := (program.resolve settings).analysis.table
    (assignment.annotate table settings.reserved).value.Supplies assignment.targets.length ↔
      assignment.value.isSingle table = false := by
  intro table
  obtain ⟨⟨value, next, numbered⟩, visited⟩ := Stmt.carriesList program.statements 0 assignment member
  have known {expr : Expr} (within : expr.route.ids ⊆ assignment.value.route.ids)
      (named : ∀ named, expr.StartsFrom named → ∃ id, named.id = some id) : expr.RootKnown table := by
    intro root starts
    obtain ⟨id, same⟩ := named root starts
    have here : id ∈ expr.route.ids := starts.visited (by simp [same])
    exact ⟨id, same, program.roleOf_visited settings (visited (within here))⟩
  have asked : max 1 assignment.targets.length = assignment.targets.length := Nat.max_eq_right (Nat.le_of_lt several)
  simp only [Assignment.annotate, asked]
  apply Expr.supplies_annotate settings.reserved
  · refine known (List.Subset.refl _) fun named starts => ?_
    rw [numbered] at starts
    exact value.id_of_startsFrom_withIds next starts
  · intro line form target arguments same
    have inside : target.route.ids ⊆ assignment.value.route.ids := same ▸ Expr.ids_target line form target arguments
    obtain ⟨inner, again⟩ := Expr.withIds_eq_index (numbered.symm.trans same)
    refine known inside fun named starts => ?_
    rw [again] at starts
    exact inner.id_of_startsFrom_withIds next starts

end Program

/-- Resolution reports no wrong count of values exactly if it leaves the value of every assignment of several
targets as a call for as many results, an index in braces, or the name of a function. -/
theorem Program.no_arityMismatch_iff_supplies (program : Program) (settings : Settings) :
    let resolution := program.resolve settings
    (∀ diagnostic ∈ resolution.diagnostics, diagnostic.concern ≠ .arityMismatch) ↔
      ∀ assignment ∈ resolution.program.assignments, 2 ≤ assignment.targets.length →
        assignment.value.Supplies assignment.targets.length := by
  intro resolution
  let table := resolution.analysis.table
  have silent : (∀ diagnostic ∈ resolution.diagnostics, diagnostic.concern ≠ .arityMismatch) ↔
      resolution.analysis.arityReports = 0 := by
    simp [Analysis.arityReports, Resolution.diagnostics, List.countP_eq_zero]
  have annotated : resolution.program.assignments =
      program.withIds.1.assignments.map (·.annotate table settings.reserved) :=
    Stmt.assignmentsList_annotate settings.reserved program.withIds.1.statements
  rw [silent, program.arityReports_eq_zero_iff settings, annotated, List.forall_mem_map]
  refine (Stmt.mismatchesList_eq_zero_iff table program.withIds.1.statements).trans ?_
  refine forall₂_congr fun assignment member => ?_
  have kept : (assignment.annotate table settings.reserved).targets.length = assignment.targets.length :=
    Expr.length_annotateList table settings.reserved assignment.targets .assigned
  rw [kept]
  refine forall_congr' fun several => ?_
  exact (program.supplies_iff_matches settings member several).symm

end ArrayLift
