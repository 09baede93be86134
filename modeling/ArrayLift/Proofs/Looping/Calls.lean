import ArrayLift.Proofs.Walk.Tidy

/-! The loops that the walk over a program comes to. A loop in the body of another one counts anew on every walk over
that body, and so do the loops of a function that is declared there. -/
namespace ArrayLift

/-- A loop that the walk has come to: its scope, what one walk over its body does, and the point before the first of
these walks. -/
structure LoopCall where
  scope : ScopeId
  body : Point → Point
  start : Point

namespace Point

/-- The point at which the next walk over the body of a loop starts. -/
def pass (body : Point → Point) (entry : Flow) (point : Point) : Point :=
  (body point).withFlow (entry.merge (body point).flow)

/-- What the walks over the body of a loop come to, one after the other. -/
def eachWalk {α : Type} (body : Point → Point) (inside : Point → List α) (entry : Flow) : Nat → Point → List α
  | 0, _ => []
  | walks + 1, point => inside point ++
      if (point.pass body entry).flow.same point.flow then []
      else eachWalk body inside entry walks (point.pass body entry)

/-- What is come to inside a loop is come to on a walk that starts at a point like the first one. -/
theorem exists_of_mem_eachWalk {α : Type} {body : Point → Point} {inside : Point → List α} {entry : Flow}
    (holds : Point → Prop) (kept : ∀ point, holds point → holds (point.pass body entry)) {item : α} :
    ∀ (walks : Nat) {point : Point}, holds point → item ∈ eachWalk body inside entry walks point →
      ∃ start, holds start ∧ item ∈ inside start
  | 0, _, _, member => by cases member
  | walks + 1, point, here, member => by
    rcases List.mem_append.mp member with now | later
    · exact ⟨point, here, now⟩
    · split at later
      · cases later
      · exact exists_of_mem_eachWalk holds kept walks (kept point here) later

end Point

mutual
/-- The loops that the walk over a statement comes to. -/
def Stmt.loopCalls (limit : Nat) : Stmt → ScopeId → Point → List LoopCall
  | .branch _ condition thenBody elseBody, scope, point =>
    let point := condition.walk scope point
    let thenEnd := Stmt.walkList limit thenBody scope none point
    Stmt.loopCallsList limit thenBody scope none point ++ match elseBody with
      | some elseBody => Stmt.loopCallsList limit elseBody scope none (thenEnd.withFlow point.flow)
      | none => []
  | .forEach line loopName columns body, scope, point =>
    let start := columns.walk scope point
    let pass (point : Point) := Stmt.walkList limit body scope none (point.define scope loopName line .definition)
    ⟨scope, pass, start⟩ :: Point.eachWalk pass
      (fun point => Stmt.loopCallsList limit body scope none (point.define scope loopName line .definition))
      start.flow limit start
  | .whileLoop _ condition body, scope, point =>
    let pass (point : Point) := Stmt.walkList limit body scope none (condition.walk scope point)
    ⟨scope, pass, point⟩ :: Point.eachWalk pass
      (fun point => Stmt.loopCallsList limit body scope none (condition.walk scope point)) point.flow limit point
  | .attempt line body handler finallyBody, scope, point =>
    let caught := (Stmt.walkList limit body scope none point).join point.flow
    Stmt.loopCallsList limit body scope none point ++ Handler.loopCalls limit handler line scope caught ++
      match finallyBody with
      | some finallyBody =>
        Stmt.loopCallsList limit finallyBody scope none (Handler.walk limit handler line scope caught)
      | none => []
  | .function line name params body, scope, point =>
    let (inner, entered) := point.enterFunction scope name params line
    Stmt.loopCallsList limit body inner none entered
  | .expression .., _, _ | .assign .., _, _ | .declare .., _, _ | .return .., _, _ | .word .., _, _
  | .comment .., _, _ => []

def Handler.loopCalls (limit : Nat) : Handler → SourceLine → ScopeId → Point → List LoopCall
  | .absent, _, _, _ => []
  | .present name body, line, scope, point =>
    let caught := match name with
      | some name => point.define scope name line .definition
      | none => point
    Stmt.loopCallsList limit body scope none caught

def Stmt.loopCallsList (limit : Nat) : List Stmt → ScopeId → Suspended → Point → List LoopCall
  | [], _, _, _ => []
  | statement :: rest, scope, suspended, point =>
    match statement with
    | .function line name params [] =>
      let outer := suspended.outer scope
      let point := suspended.resume point
      let (inner, entered) := point.enterFunction outer name params line
      Stmt.loopCallsList limit rest inner (some (outer, point.flow)) entered
    | .function .. =>
      let outer := suspended.outer scope
      let point := suspended.resume point
      Stmt.loopCalls limit statement outer point ++
        Stmt.loopCallsList limit rest outer none (Stmt.walk limit statement outer point)
    | _ =>
      Stmt.loopCalls limit statement scope point ++
        Stmt.loopCallsList limit rest scope suspended (Stmt.walk limit statement scope point)
end

/-- The loops that the walk over a program comes to. -/
def Program.loopCalls (program : Program) (limit : Nat) : List LoopCall :=
  Stmt.loopCallsList limit program.statements ScopeTable.script none ⟨.empty, .start program.declaredFunctions⟩

/-- The loops that a walk along a route comes to. -/
def Route.loopCalls (limit : Nat) : Route → ScopeId → Point → List LoopCall
  | .stay, _, _ | .jump _, _, _ | .step _, _, _ => []
  | .seq first second, scope, point | .ensure first second, scope, point | .finish first second, scope, point =>
    loopCalls limit first scope point ++ loopCalls limit second scope (first.walk limit scope point)
  | .fork left right, scope, point =>
    loopCalls limit left scope point ++
      loopCalls limit right scope ((left.walk limit scope point).withFlow point.flow)
  | .attempt body, scope, point | .aside body, scope, point => loopCalls limit body scope point
  | .loop body, scope, point => ⟨scope, body.walk limit scope, point⟩ ::
      Point.eachWalk (body.walk limit scope) (loopCalls limit body scope) point.flow limit point
  | .function id name line body, scope, point =>
    let (inner, entered) := point.enterFunction scope (.bare name id) [] line
    loopCalls limit body inner entered

namespace Route

variable (limit : Nat) (scope : ScopeId) (point : Point)

theorem loopCalls_seq (first second : Route) : (seq first second).loopCalls limit scope point =
    first.loopCalls limit scope point ++ second.loopCalls limit scope (first.walk limit scope point) := rfl

theorem loopCalls_finish (first second : Route) : (finish first second).loopCalls limit scope point =
    first.loopCalls limit scope point ++ second.loopCalls limit scope (first.walk limit scope point) := rfl

theorem loopCalls_loop (body : Route) : (loop body).loopCalls limit scope point =
    ⟨scope, body.walk limit scope, point⟩ ::
      Point.eachWalk (body.walk limit scope) (body.loopCalls limit scope) point.flow limit point := rfl

/-- There are none on the route through an expression. -/
theorem Simple.loopCalls {route : Route} (simple : route.Simple) : route.loopCalls limit scope point = [] := by
  induction route generalizing point with
  | stay | step _ | jump _ => rfl
  | seq first second ihFirst ihSecond | fork first second ihFirst ihSecond | ensure first second ihFirst ihSecond
  | finish first second ihFirst ihSecond =>
    simp only [Route.loopCalls, ihFirst _ simple.1, ihSecond _ simple.2, List.append_nil]
  | attempt body ih | aside body ih => exact ih point simple
  | loop | function => exact simple.elim

theorem loopCalls_all {routes : List Route}
    (each : ∀ route ∈ routes, ∀ point, route.loopCalls limit scope point = []) :
    (all routes).loopCalls limit scope point = [] := by
  induction routes generalizing point with
  | nil => rfl
  | cons route rest ih =>
    obtain ⟨first, others⟩ := List.forall_mem_cons.mp each
    simp only [all, loopCalls_seq, first, ih _ others, List.append_nil]

/-- The loops of a function are those of its body. -/
theorem loopCalls_function (name : Ident) (params : List Ident) (line : SourceLine) (body : Route) :
    (Route.function name.id name.name line (.seq (.all (params.map (Ident.paramRoute line))) body)).loopCalls
        limit scope point =
      body.loopCalls limit (point.enterFunction scope name params line).1
        (point.enterFunction scope name params line).2 := by
  obtain ⟨text, init, role, reserved, id⟩ := name
  have none (inner : ScopeId) (entered : Point) : (all (params.map (Ident.paramRoute line))).loopCalls limit inner
      entered = [] :=
    loopCalls_all limit inner entered <| List.forall_mem_map.mpr fun param _ point =>
      (param.simple_paramRoute line).loopCalls limit inner point
  have bound (inner : ScopeId) (entered : Point) := Route.walk_all limit inner entered params
    (Ident.paramRoute line) (Point.bindParam inner line)
    (fun param _ point => Ident.bindParam_route limit inner line param point)
  simp only [Route.loopCalls, none, List.nil_append, bound]
  rfl

end Route

section
variable (limit : Nat)

mutual
/-- The walk over a statement comes to the loops on its route. -/
theorem Stmt.loopCalls_route : ∀ (statement : Stmt) (scope : ScopeId) (point : Point),
    statement.route.loopCalls limit scope point = statement.loopCalls limit scope point
  | .expression _ value, scope, point => value.simple_route.loopCalls limit scope point
  | .assign line targets value, scope, point => by
    have assigned (point : Point) : (Route.all (targets.map (Expr.targetRoute · .definition))).loopCalls limit scope
        point = [] :=
      Route.loopCalls_all limit scope point <| List.forall_mem_map.mpr fun target _ point =>
        (target.simple_targetRoute .definition).loopCalls limit scope point
    simp only [Stmt.route, Route.loopCalls, value.simple_route.loopCalls, assigned,
      (Route.simple_checkArity line targets.length value).loopCalls, List.append_nil, Stmt.loopCalls]
  | .branch _ condition thenBody none, scope, point => by
    simp only [Stmt.route, Route.loopCalls, condition.simple_route.loopCalls, Expr.walk_route,
      Stmt.loopCalls_block thenBody, List.nil_append, List.append_nil, Stmt.loopCalls]
  | .branch _ condition thenBody (some elseBody), scope, point => by
    simp only [Stmt.route, Route.loopCalls, condition.simple_route.loopCalls, Expr.walk_route, Stmt.walk_block,
      Stmt.loopCalls_block thenBody, Stmt.loopCalls_block elseBody, List.nil_append, Stmt.loopCalls]
  | .forEach line loopName columns body, scope, point => by
    have pass : Route.walk limit (.seq (.define loopName line .definition) (.block (Stmt.routes body))) scope =
        fun point => Stmt.walkList limit body scope none (point.define scope loopName line .definition) := by
      funext point
      simp only [Route.walk, Route.walk_define, Stmt.walk_block]
    have inside : Route.loopCalls limit (.seq (.define loopName line .definition) (.block (Stmt.routes body))) scope =
        fun point => Stmt.loopCallsList limit body scope none (point.define scope loopName line .definition) := by
      funext point
      simp only [Route.loopCalls, (Route.simple_define loopName line .definition).loopCalls, List.nil_append,
        Route.walk_define, Stmt.loopCalls_block body]
    simp only [Stmt.route, Route.loopCalls_seq, Route.loopCalls_finish, Route.loopCalls_loop, pass, inside,
      columns.simple_route.loopCalls, Expr.walk_route, List.nil_append, Stmt.loopCalls]
    exact List.append_nil _
  | .whileLoop _ condition body, scope, point => by
    have pass : Route.walk limit (.seq condition.route (.block (Stmt.routes body))) scope =
        fun point => Stmt.walkList limit body scope none (condition.walk scope point) := by
      funext point
      simp only [Route.walk, Expr.walk_route, Stmt.walk_block]
    have inside : Route.loopCalls limit (.seq condition.route (.block (Stmt.routes body))) scope =
        fun point => Stmt.loopCallsList limit body scope none (condition.walk scope point) := by
      funext point
      simp only [Route.loopCalls, condition.simple_route.loopCalls, List.nil_append, Expr.walk_route,
        Stmt.loopCalls_block body]
    simp only [Stmt.route, Route.loopCalls_finish, Route.loopCalls_loop, pass, inside,
      condition.simple_route.loopCalls, List.append_nil, Stmt.loopCalls]
  | .attempt line body handler none, scope, point => by
    simp only [Stmt.route, Route.loopCalls, Route.walk, Stmt.walk_block, Stmt.loopCalls_block body,
      Handler.loopCalls_route handler, List.append_nil, Stmt.loopCalls]
  | .attempt line body handler (some finallyBody), scope, point => by
    simp only [Stmt.route, Route.loopCalls, Route.walk, Stmt.walk_block, Stmt.loopCalls_block body,
      Handler.loopCalls_route handler, Handler.walk_route, Stmt.loopCalls_block finallyBody, Stmt.loopCalls]
  | .function line name params body, scope, point => by
    simp only [Stmt.route, Route.loopCalls_function, Stmt.loopCalls_block body, Stmt.loopCalls]
  | .declare line declaration names, scope, point => by
    refine Route.loopCalls_all limit scope point <| List.forall_mem_map.mpr fun name _ point => ?_
    unfold Route.declare
    split <;> rfl
  | .return _ none, _, _ => rfl
  | .return _ (some value), scope, point => by
    simp only [Stmt.route, Route.loopCalls, value.simple_route.loopCalls, List.append_nil, Stmt.loopCalls]
  | .word _ .break, _, _ | .word _ .continue, _, _ | .word _ .pass, _, _ | .word _ .nothing, _, _
  | .comment .., _, _ => rfl

theorem Handler.loopCalls_route : ∀ (handler : Handler) (line : SourceLine) (scope : ScopeId) (point : Point),
    (handler.route line).loopCalls limit scope point = handler.loopCalls limit line scope point
  | .absent, _, _, _ => rfl
  | .present none body, line, scope, point => by
    simp only [Handler.route, Route.loopCalls, Route.walk, Stmt.loopCalls_block body, List.nil_append,
      Handler.loopCalls]
    rfl
  | .present (some name) body, line, scope, point => by
    simp only [Handler.route, Route.loopCalls, Route.walk, (Route.simple_define name line .definition).loopCalls,
      Route.walk_define, Stmt.loopCalls_block body, List.nil_append, Handler.loopCalls]
    rfl

/-- The two routes of a list hold the loops of its statements, also when a function has interrupted it. -/
theorem Stmt.loopCalls_routes : ∀ (statements : List Stmt) (scope : ScopeId) (suspended : Suspended) (point : Point),
    (Stmt.routes statements).1.loopCalls limit scope point ++
        (Stmt.routes statements).2.loopCalls limit (suspended.outer scope)
          (suspended.resume ((Stmt.routes statements).1.walk limit scope point)) =
      Stmt.loopCallsList limit statements scope suspended point
  | [], _, _, _ => rfl
  | statement :: rest, scope, suspended, point => by
    have others := Stmt.loopCalls_routes rest
    have first := Stmt.loopCalls_route statement
    match statement with
    | .function line name params [] =>
      have opened := Point.walk_function limit (suspended.outer scope) (suspended.resume point) name params
        line (Stmt.routes rest).1
      simp only [Stmt.routes, Route.loopCalls_seq, Route.walk_stay, Route.loopCalls_function, opened,
        Stmt.loopCallsList]
      exact others _ (some (suspended.outer scope, (suspended.resume point).flow)) _
    | .function line name params (head :: tail) =>
      simp only [Stmt.routes, Route.loopCalls, Route.walk, Stmt.walk_route, Stmt.loopCallsList, first,
        List.nil_append]
      exact congrArg _ (others _ none _)
    | .expression .. | .assign .. | .branch .. | .forEach .. | .whileLoop .. | .attempt .. | .declare ..
    | .return .. | .word .. | .comment .. =>
      simp only [Stmt.routes, Route.loopCalls, Route.walk, Stmt.walk_route, Stmt.loopCallsList, first,
        List.append_assoc]
      exact congrArg _ (others scope suspended _)

theorem Stmt.loopCalls_block (statements : List Stmt) (scope : ScopeId) (point : Point) :
    (Route.block (Stmt.routes statements)).loopCalls limit scope point =
      Stmt.loopCallsList limit statements scope none point :=
  Stmt.loopCalls_routes statements scope none point
end

end

theorem Program.loopCalls_route (program : Program) (limit : Nat) : program.loopCalls limit =
    program.route.loopCalls limit ScopeTable.script ⟨.empty, .start program.declaredFunctions⟩ :=
  (Stmt.loopCalls_block limit program.statements _ _).symm

end ArrayLift
