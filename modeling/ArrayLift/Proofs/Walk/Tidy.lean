import ArrayLift.Proofs.Walk.Census

/-! What cannot stand on the route through an expression: it opens no function, declares no name and has no loop.
So nothing is declared aside either, on no route through a program. -/
namespace ArrayLift

namespace Route

/-- A route that opens no function, declares no name and has no loop. -/
def Simple : Route → Prop
  | .stay | .jump _ => True
  | .step (.declare ..) => False
  | .step _ => True
  | .seq first second | .fork first second | .ensure first second | .finish first second =>
    first.Simple ∧ second.Simple
  | .attempt body | .aside body => body.Simple
  | .loop _ | .function .. => False

/-- A route on which everything aside is simple. -/
def Tidy : Route → Prop
  | .stay | .jump _ | .step _ => True
  | .seq first second | .fork first second | .ensure first second | .finish first second =>
    first.Tidy ∧ second.Tidy
  | .attempt body | .loop body | .function _ _ _ body => body.Tidy
  | .aside body => body.Simple

theorem Simple.functionIds {route : Route} (simple : route.Simple) : route.functionIds = [] := by
  induction route with
  | stay | step _ | jump _ => rfl
  | seq first second ihFirst ihSecond | fork first second ihFirst ihSecond | ensure first second ihFirst ihSecond
  | finish first second ihFirst ihSecond =>
    simp only [Route.functionIds, ihFirst simple.1, ihSecond simple.2, List.append_nil]
  | attempt body ih | aside body ih => exact ih simple
  | loop | function => exact simple.elim

theorem Simple.loopDefinitions {route : Route} (simple : route.Simple) : route.loopDefinitions = [] := by
  induction route with
  | stay | step _ | jump _ | aside _ _ => rfl
  | seq first second ihFirst ihSecond | fork first second ihFirst ihSecond | ensure first second ihFirst ihSecond
  | finish first second ihFirst ihSecond =>
    simp only [Route.loopDefinitions, ihFirst simple.1, ihSecond simple.2, List.append_nil]
  | attempt body ih => exact ih simple
  | loop | function => exact simple.elim

theorem Simple.tidy {route : Route} (simple : route.Simple) : route.Tidy := by
  induction route with
  | stay | step _ | jump _ => trivial
  | seq first second ihFirst ihSecond | fork first second ihFirst ihSecond | ensure first second ihFirst ihSecond
  | finish first second ihFirst ihSecond =>
    exact ⟨ihFirst simple.1, ihSecond simple.2⟩
  | attempt body ih => exact ih simple
  | aside body _ => exact simple
  | loop | function => exact simple.elim

theorem simple_all {routes : List Route} (each : ∀ route ∈ routes, route.Simple) : (all routes).Simple := by
  induction routes with
  | nil => trivial
  | cons route rest ih => exact ⟨each route (by simp), ih fun other member => each other (by simp [member])⟩

theorem tidy_all {routes : List Route} (each : ∀ route ∈ routes, route.Tidy) : (all routes).Tidy := by
  induction routes with
  | nil => trivial
  | cons route rest ih => exact ⟨each route (by simp), ih fun other member => each other (by simp [member])⟩

theorem simple_use (ident : Ident) (line : SourceLine) (indexed arrayOnly : Bool) :
    (use ident line indexed arrayOnly).Simple := by
  unfold use
  split <;> trivial

theorem simple_define (ident : Ident) (line : SourceLine) (kind : OccurrenceKind) :
    (define ident line kind).Simple := by
  unfold define
  split <;> trivial

theorem tidy_declare (declaration : Declaration) (line : SourceLine) (ident : Ident) :
    (declare declaration line ident).Tidy := by
  unfold declare
  split <;> trivial

theorem simple_checkArity (line : SourceLine) (targets : Nat) (value : Expr) :
    (checkArity line targets value).Simple := by
  unfold checkArity
  split <;> trivial

end Route

mutual
theorem Expr.simple_route : ∀ expr : Expr, expr.route.Simple
  | .ident line named => Route.simple_use named line false false
  | .literal .. => trivial
  | .operation _ _ operands none => Expr.simple_routeList operands
  | .operation line _ operands (some result) =>
    ⟨Expr.simple_routeList operands, Route.simple_define result line .definition⟩
  | .field _ object _ => Expr.simple_route object
  | .dynamicField _ object selector => ⟨Expr.simple_route object, Expr.simple_route selector⟩
  | .index _ form target arguments => by
    have indexed := Expr.simple_route target
    refine ⟨Expr.simple_routeList arguments, ?_⟩
    cases target with
    | ident line named => exact Route.simple_use named line true _
    | literal | operation | field | dynamicField | index | rows | lambda => exact indexed
  | .rows _ _ elements => Expr.simple_routeRows elements
  | .lambda line params body => by
    refine ⟨Route.simple_all fun route member => ?_, Expr.simple_route body⟩
    obtain ⟨param, _, rfl⟩ := List.mem_map.mp member
    exact Route.simple_define param line .parameter

theorem Expr.simple_routeList : ∀ exprs : List Expr, (Expr.routeList exprs).Simple
  | [] => trivial
  | expr :: rest => ⟨Expr.simple_route expr, Expr.simple_routeList rest⟩

theorem Expr.simple_routeRows : ∀ rows : List (List Expr), (Expr.routeRows rows).Simple
  | [] => trivial
  | row :: rest => ⟨Expr.simple_routeList row, Expr.simple_routeRows rest⟩
end

theorem Expr.simple_targetRoute : ∀ (expr : Expr) (kind : OccurrenceKind), (expr.targetRoute kind).Simple
  | .ident line named, kind => Route.simple_define named line kind
  | .index _ _ target arguments, _ =>
    ⟨Expr.simple_routeList arguments, Expr.simple_targetRoute target .partialDefinition⟩
  | .field _ object _, _ => Expr.simple_targetRoute object .partialDefinition
  | .dynamicField _ object selector, _ =>
    ⟨Expr.simple_route selector, Expr.simple_targetRoute object .partialDefinition⟩
  | .literal line value, _ => Expr.simple_route (.literal line value)
  | .operation line spelling operands result, _ =>
    Expr.simple_route (.operation line spelling operands result)
  | .rows line brackets elements, _ => Expr.simple_route (.rows line brackets elements)
  | .lambda line params body, _ => Expr.simple_route (.lambda line params body)

theorem Ident.simple_paramRoute (line : SourceLine) (param : Ident) : (param.paramRoute line).Simple := by
  unfold Ident.paramRoute
  cases param.init with
  | none => exact ⟨trivial, Route.simple_define param line .parameter⟩
  | some init => exact ⟨init.simple_route, Route.simple_define param line .parameter⟩

theorem Ident.tidy_paramRoutes (line : SourceLine) (params : List Ident) :
    (Route.all (params.map (Ident.paramRoute line))).Tidy := by
  apply Route.tidy_all
  intro route member
  obtain ⟨param, _, rfl⟩ := List.mem_map.mp member
  exact (param.simple_paramRoute line).tidy

mutual
theorem Stmt.tidy_route : ∀ statement : Stmt, statement.route.Tidy
  | .expression _ value => value.simple_route.tidy
  | .assign line targets value => by
    refine ⟨value.simple_route.tidy, Route.tidy_all fun route member => ?_,
      (Route.simple_checkArity line targets.length value).tidy⟩
    obtain ⟨target, _, rfl⟩ := List.mem_map.mp member
    exact (target.simple_targetRoute .definition).tidy
  | .branch _ condition thenBody none => ⟨condition.simple_route.tidy, Stmt.tidy_routes thenBody, trivial⟩
  | .branch _ condition thenBody (some elseBody) =>
    ⟨condition.simple_route.tidy, Stmt.tidy_routes thenBody, Stmt.tidy_routes elseBody⟩
  | .forEach line loopName columns body =>
    ⟨columns.simple_route.tidy, ⟨(Route.simple_define loopName line .definition).tidy, Stmt.tidy_routes body⟩, trivial⟩
  | .whileLoop _ condition body =>
    ⟨⟨condition.simple_route.tidy, Stmt.tidy_routes body⟩, condition.simple_route.tidy⟩
  | .attempt line body handler none => ⟨⟨Stmt.tidy_routes body, Handler.tidy_route handler line⟩, trivial⟩
  | .attempt line body handler (some finallyBody) =>
    ⟨⟨Stmt.tidy_routes body, Handler.tidy_route handler line⟩, Stmt.tidy_routes finallyBody⟩
  | .function line name params body => ⟨Ident.tidy_paramRoutes line params, Stmt.tidy_routes body⟩
  | .declare line declaration names => by
    apply Route.tidy_all
    intro route member
    obtain ⟨name, _, rfl⟩ := List.mem_map.mp member
    exact Route.tidy_declare declaration line name
  | .return _ none => trivial
  | .return _ (some value) => ⟨value.simple_route.tidy, trivial⟩
  | .word _ .break | .word _ .continue | .word _ .pass | .word _ .nothing | .comment .. => trivial

theorem Handler.tidy_route : ∀ (handler : Handler) (line : SourceLine), (handler.route line).Tidy
  | .absent, _ => trivial
  | .present none body, _ => ⟨trivial, trivial, Stmt.tidy_routes body⟩
  | .present (some name) body, line =>
    ⟨trivial, (Route.simple_define name line .definition).tidy, Stmt.tidy_routes body⟩

theorem Stmt.tidy_routes : ∀ statements : List Stmt, (Route.block (Stmt.routes statements)).Tidy
  | [] => ⟨trivial, trivial⟩
  | statement :: rest => by
    obtain ⟨own, after⟩ := Stmt.tidy_routes rest
    have first := Stmt.tidy_route statement
    match statement with
    | .function line name params [] => exact ⟨trivial, ⟨Ident.tidy_paramRoutes line params, own⟩, after⟩
    | .function line name params (head :: tail) => exact ⟨trivial, first, own, after⟩
    | .branch .. | .attempt .. | .return .. | .expression .. | .assign .. | .forEach .. | .whileLoop ..
    | .declare .. | .word .. | .comment .. => exact ⟨⟨first, own⟩, after⟩
end

end ArrayLift
