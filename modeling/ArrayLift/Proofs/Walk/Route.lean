import ArrayLift.Resolution.Walk

/-! The route of the walk over a syntax tree: steps at identifiers, put together by sequence, branching
and repetition. The walk depends on the tree through its route alone, so what is proved of the walk is
proved by induction on routes. -/
namespace ArrayLift

/-- What the walk does at one place of the tree. -/
inductive Step where
  | use (id : IdentId) (name : String) (line : SourceLine) (indexed arrayOnly : Bool)
  | define (id : IdentId) (name : String) (line : SourceLine) (kind : OccurrenceKind)
  | declare (declaration : Declaration) (id : IdentId) (name : String) (line : SourceLine)
  /-- Compare the count of targets with the source of their values. -/
  | checkArity (line : SourceLine) (targets : Nat) (source : ValueSource)

/-- How the execution of a piece of a program ends. -/
inductive Exit where
  | completed
  | broken
  | continued
  | returned
  /-- An error stopped it after some of its steps. -/
  | abandoned
  deriving DecidableEq, Repr

/-- The shape of a piece of a program as far as definitions and uses are concerned. -/
inductive Route where
  | stay
  | step (step : Step)
  | seq (first second : Route)
  /-- One of two ways; the walk takes the left one first. -/
  | fork (left right : Route)
  /-- The body may be left at any point, and the route goes on behind it. -/
  | attempt (body : Route)
  /-- The second part follows the first however that ends. -/
  | ensure (first second : Route)
  /-- The second part follows the first unless that is broken off; a break ends here. -/
  | finish (first second : Route)
  /-- Any number of times. -/
  | loop (body : Route)
  /-- What is defined here is forgotten behind it. -/
  | aside (body : Route)
  /-- A function: a scope of its own, entered by its parameters. -/
  | function (id : Option IdentId) (name : String) (line : SourceLine) (body : Route)
  /-- The end of an iteration, a loop or a function. -/
  | jump (exit : Exit)

/-- An identifier of which only the name and the identity are known. -/
def Ident.bare (name : String) (id : Option IdentId) : Ident :=
  .mk name none .unknown false id

/-- Check the count of targets against a source of values. -/
def Point.checkSource (point : Point) (line : SourceLine) (targets : Nat) (source : ValueSource) : Point :=
  match source with
  | .several => point
  | .single description =>
    { point with findings := { point.findings with
        diagnostics := point.findings.diagnostics ++ [.arityMismatch targets description line] } }
  | .named root =>
    { point with findings := { point.findings with
        pending := point.findings.pending ++ [⟨line, targets, root⟩] } }

def Step.walk (scope : ScopeId) (point : Point) : Step → Point
  | .use id name line indexed arrayOnly => point.use scope (.bare name (some id)) line indexed arrayOnly
  | .define id name line kind => point.define scope (.bare name (some id)) line kind
  | .declare declaration id name line => point.declare scope declaration (.bare name (some id)) line
  | .checkArity line targets source => point.checkSource line targets source

namespace Route

/-- Follow a route. The limit bounds the passes over one loop. -/
def walk (limit : Nat) : Route → ScopeId → Point → Point
  | .stay, _, point => point
  | .step action, scope, point => action.walk scope point
  | .seq first second, scope, point => walk limit second scope (walk limit first scope point)
  | .fork left right, scope, point =>
    let leftEnd := walk limit left scope point
    (walk limit right scope (leftEnd.withFlow point.flow)).join leftEnd.flow
  | .attempt body, scope, point => (walk limit body scope point).join point.flow
  | .ensure first second, scope, point => walk limit second scope (walk limit first scope point)
  | .finish first second, scope, point => walk limit second scope (walk limit first scope point)
  | .loop body, scope, point => Point.walkLoop (walk limit body scope) point.flow limit point
  | .aside body, scope, point => (walk limit body scope point).withFlow point.flow
  | .function id name line body, scope, point =>
    let (inner, entered) := point.enterFunction scope (.bare name id) [] line
    (walk limit body inner entered).withFlow point.flow
  | .jump _, _, point => point

/-- Several routes one after the other. -/
def all : List Route → Route
  | [] => .stay
  | route :: rest => .seq route (all rest)

/-- Statements up to a function, and from there on. -/
def block (parts : Route × Route) : Route :=
  .seq parts.1 parts.2

def use (ident : Ident) (line : SourceLine) (indexed arrayOnly : Bool) : Route :=
  match ident.id with
  | none => .stay
  | some id => .step (.use id ident.name line indexed arrayOnly)

def define (ident : Ident) (line : SourceLine) (kind : OccurrenceKind) : Route :=
  match ident.id with
  | none => .stay
  | some id => .step (.define id ident.name line kind)

def declare (declaration : Declaration) (line : SourceLine) (ident : Ident) : Route :=
  match ident.id with
  | none => .stay
  | some id => .step (.declare declaration id ident.name line)

def checkArity (line : SourceLine) (targets : Nat) (value : Expr) : Route :=
  if targets ≤ 1 then .stay else .step (.checkArity line targets value.valueSource)

end Route

mutual
/-- The route through an expression: arguments before the indexed name, operands before the result
name, and a lambda aside. -/
def Expr.route : Expr → Route
  | .ident line named => .use named line false false
  | .literal .. => .stay
  | .operation _ _ operands none => Expr.routeList operands
  | .operation line _ operands (some result) =>
    .seq (Expr.routeList operands) (.define result line .definition)
  | .field _ object _ => Expr.route object
  | .dynamicField _ object selector => .seq (Expr.route object) (Expr.route selector)
  | .index _ form target arguments =>
    .seq (Expr.routeList arguments) <| match target with
      | .ident line named => .use named line true (form = .cellRef || Expr.anyArrayIndex arguments)
      | _ => Expr.route target
  | .rows _ _ elements => Expr.routeRows elements
  | .lambda line params body =>
    .aside (.seq (.all (params.map (Route.define · line .parameter))) (Expr.route body))

def Expr.routeList : List Expr → Route
  | [] => .stay
  | expr :: rest => .seq (Expr.route expr) (Expr.routeList rest)

def Expr.routeRows : List (List Expr) → Route
  | [] => .stay
  | row :: rest => .seq (Expr.routeList row) (Expr.routeRows rest)
end

/-- The route through an assignment target: arguments and selectors before the name, which is defined
in part if it is indexed or has a field assigned. -/
def Expr.targetRoute : Expr → OccurrenceKind → Route
  | .ident line named, kind => .define named line kind
  | .index _ _ target arguments, _ =>
    .seq (Expr.routeList arguments) (Expr.targetRoute target .partialDefinition)
  | .field _ object _, _ => Expr.targetRoute object .partialDefinition
  | .dynamicField _ object selector, _ =>
    .seq selector.route (Expr.targetRoute object .partialDefinition)
  | other, _ => other.route

/-- The route through a parameter, its default value first. -/
def Ident.paramRoute (line : SourceLine) (param : Ident) : Route :=
  .seq (match param.init with
    | some init => init.route
    | none => .stay) (.define param line .parameter)

mutual
/-- The route through a statement: a value before its targets, a condition before its branches and
once more behind its loop, and the columns before the name of a loop. -/
def Stmt.route : Stmt → Route
  | .expression _ value => value.route
  | .assign line targets value =>
    .seq value.route <|
      .seq (.all (targets.map (Expr.targetRoute · .definition))) (.checkArity line targets.length value)
  | .branch _ condition thenBody none =>
    .seq condition.route (.fork (.block (Stmt.routes thenBody)) .stay)
  | .branch _ condition thenBody (some elseBody) =>
    .seq condition.route (.fork (.block (Stmt.routes thenBody)) (.block (Stmt.routes elseBody)))
  | .forEach line loopName columns body =>
    .seq columns.route
      (.finish (.loop (.seq (.define loopName line .definition) (.block (Stmt.routes body)))) .stay)
  | .whileLoop _ condition body =>
    .finish (.loop (.seq condition.route (.block (Stmt.routes body)))) condition.route
  | .attempt line body handler none =>
    .ensure (.seq (.attempt (.block (Stmt.routes body))) (Handler.route handler line)) .stay
  | .attempt line body handler (some finallyBody) =>
    .ensure (.seq (.attempt (.block (Stmt.routes body))) (Handler.route handler line))
      (.block (Stmt.routes finallyBody))
  | .function line name params body =>
    .function name.id name.name line
      (.seq (.all (params.map (Ident.paramRoute line))) (.block (Stmt.routes body)))
  | .declare line declaration names => .all (names.map (Route.declare declaration line))
  | .return _ none => .jump .returned
  | .return _ (some value) => .seq value.route (.jump .returned)
  | .word _ .break => .jump .broken
  | .word _ .continue => .jump .continued
  | .word _ .pass => .stay
  | .word _ .nothing => .stay
  | .comment .. => .stay

/-- The route through what takes an error up; it may be passed by. -/
def Handler.route : Handler → SourceLine → Route
  | .absent, _ => .stay
  | .present name body, line =>
    .fork .stay <| .seq (match name with
      | some name => .define name line .definition
      | none => .stay) (.block (Stmt.routes body))

/-- The routes through a list of statements: up to the next function, and from there on. A function
without a body of its own takes what stands between it and the next one. -/
def Stmt.routes : List Stmt → Route × Route
  | [] => (.stay, .stay)
  | statement :: rest =>
    let (own, after) := Stmt.routes rest
    match statement with
    | .function line name params [] =>
      (.stay, .seq (.function name.id name.name line
        (.seq (.all (params.map (Ident.paramRoute line))) own)) after)
    | .function .. => (.stay, .seq (Stmt.route statement) (.seq own after))
    | _ => (.seq (Stmt.route statement) own, after)
end

def Program.route (program : Program) : Route :=
  .block (Stmt.routes program.statements)

namespace Route

variable (limit : Nat) (scope : ScopeId) (point : Point)

theorem walk_stay : stay.walk limit scope point = point := rfl

theorem walk_seq (first second : Route) :
    (seq first second).walk limit scope point = second.walk limit scope (first.walk limit scope point) := rfl

theorem walk_finish (first second : Route) :
    (finish first second).walk limit scope point = second.walk limit scope (first.walk limit scope point) := rfl

theorem walk_loop (body : Route) :
    (loop body).walk limit scope point = Point.walkLoop (body.walk limit scope) point.flow limit point := rfl

theorem walk_use (ident : Ident) (line : SourceLine) (indexed arrayOnly : Bool) :
    (use ident line indexed arrayOnly).walk limit scope point = point.use scope ident line indexed arrayOnly := by
  obtain ⟨name, init, role, reserved, id⟩ := ident
  cases id <;> rfl

theorem walk_define (ident : Ident) (line : SourceLine) (kind : OccurrenceKind) :
    (define ident line kind).walk limit scope point = point.define scope ident line kind := by
  obtain ⟨name, init, role, reserved, id⟩ := ident
  cases id <;> rfl

theorem walk_declare (declaration : Declaration) (line : SourceLine) (ident : Ident) :
    (declare declaration line ident).walk limit scope point = point.declare scope declaration ident line := by
  obtain ⟨name, init, role, reserved, id⟩ := ident
  cases id <;> rfl

theorem walk_checkArity (line : SourceLine) (targets : Nat) (value : Expr) :
    (checkArity line targets value).walk limit scope point = point.checkArity line targets value := by
  unfold checkArity Point.checkArity
  split
  · rfl
  · cases value.valueSource <;> simp only [walk, Step.walk, Point.checkSource]

/-- Routes one after the other are followed as a fold over them. -/
theorem walk_all {α : Type} (items : List α) (route : α → Route) (visit : Point → α → Point)
    (same : ∀ item ∈ items, ∀ point, (route item).walk limit scope point = visit point item) :
    (all (items.map route)).walk limit scope point = items.foldl visit point := by
  induction items generalizing point with
  | nil => rfl
  | cons item rest ih =>
    have first := same item (by simp) point
    have others : ∀ item ∈ rest, ∀ point, (route item).walk limit scope point = visit point item :=
      fun item member => same item (by simp [member])
    simp only [List.map_cons, all, walk, List.foldl_cons, first]
    exact ih (visit point item) others

end Route

mutual
theorem Expr.walk_route (limit : Nat) (scope : ScopeId) :
    ∀ (expr : Expr) (point : Point), expr.route.walk limit scope point = expr.walk scope point
  | .ident line named, point => Route.walk_use limit scope point named line false false
  | .literal .., _ => rfl
  | .operation _ _ operands none, point => Expr.walkList_route limit scope operands point
  | .operation line _ operands (some result), point => by
    simp only [Expr.route, Route.walk, Expr.walk, Expr.walkList_route limit scope operands, Route.walk_define]
  | .field _ object _, point => Expr.walk_route limit scope object point
  | .dynamicField _ object selector, point => by
    simp only [Expr.route, Route.walk, Expr.walk, Expr.walk_route limit scope object,
      Expr.walk_route limit scope selector]
  | .index _ form target arguments, point => by
    have indexed := Expr.walk_route limit scope target
    cases target <;> simp only [Expr.route, Route.walk, Expr.walk,
      Expr.walkList_route limit scope arguments, Route.walk_use, indexed] <;> exact indexed _
  | .rows _ _ elements, point => Expr.walkRows_route limit scope elements point
  | .lambda line params body, point => by
    have defined := Route.walk_all limit scope point params (Route.define · line .parameter)
      (fun inner param => inner.define scope param line .parameter)
      (fun param _ inner => Route.walk_define limit scope inner param line .parameter)
    simp only [Expr.route, Route.walk, Expr.walk, defined, Expr.walk_route limit scope body]

theorem Expr.walkList_route (limit : Nat) (scope : ScopeId) :
    ∀ (exprs : List Expr) (point : Point),
      (Expr.routeList exprs).walk limit scope point = Expr.walkList scope exprs point
  | [], _ => rfl
  | expr :: rest, point => by
    simp only [Expr.routeList, Route.walk, Expr.walkList, Expr.walk_route limit scope expr,
      Expr.walkList_route limit scope rest]

theorem Expr.walkRows_route (limit : Nat) (scope : ScopeId) :
    ∀ (rows : List (List Expr)) (point : Point),
      (Expr.routeRows rows).walk limit scope point = Expr.walkRows scope rows point
  | [], _ => rfl
  | row :: rest, point => by
    simp only [Expr.routeRows, Route.walk, Expr.walkRows, Expr.walkList_route limit scope row,
      Expr.walkRows_route limit scope rest]
end

theorem Expr.walkTarget_route (limit : Nat) (scope : ScopeId) :
    ∀ (expr : Expr) (kind : OccurrenceKind) (point : Point),
      (expr.targetRoute kind).walk limit scope point = expr.walkTarget scope kind point
  | .ident line named, kind, point => Route.walk_define limit scope point named line kind
  | .literal line value, _, point => Expr.walk_route limit scope (.literal line value) point
  | .operation line spelling operands result, _, point =>
    Expr.walk_route limit scope (.operation line spelling operands result) point
  | .field _ object _, _, point => Expr.walkTarget_route limit scope object .partialDefinition point
  | .dynamicField _ object selector, _, point => by
    simp only [Expr.targetRoute, Route.walk, Expr.walkTarget, Expr.walk_route limit scope selector,
      Expr.walkTarget_route limit scope object]
  | .index _ _ target arguments, _, point => by
    simp only [Expr.targetRoute, Route.walk, Expr.walkTarget, Expr.walkList_route limit scope arguments,
      Expr.walkTarget_route limit scope target]
  | .rows line brackets elements, _, point =>
    Expr.walk_route limit scope (.rows line brackets elements) point
  | .lambda line params body, _, point => Expr.walk_route limit scope (.lambda line params body) point

theorem Ident.bindParam_route (limit : Nat) (scope : ScopeId) (line : SourceLine) (param : Ident)
    (point : Point) :
    (param.paramRoute line).walk limit scope point = Point.bindParam scope line point param := by
  unfold Ident.paramRoute Point.bindParam
  cases param.init with
  | none => exact Route.walk_define limit scope point param line .parameter
  | some init => simp only [Route.walk, Expr.walk_route, Route.walk_define]

/-- The function that a statement opens, whatever is walked inside. -/
theorem Point.walk_function (limit : Nat) (scope : ScopeId) (point : Point) (name : Ident)
    (params : List Ident) (line : SourceLine) (body : Route) :
    (Route.function name.id name.name line (.seq (.all (params.map (Ident.paramRoute line))) body)).walk
        limit scope point =
      (body.walk limit (point.enterFunction scope name params line).1
        (point.enterFunction scope name params line).2).withFlow point.flow := by
  obtain ⟨text, init, role, reserved, id⟩ := name
  have bound (inner : ScopeId) (entered : Point) := Route.walk_all limit inner entered params
    (Ident.paramRoute line) (Point.bindParam inner line)
    (fun param _ point => Ident.bindParam_route limit inner line param point)
  simp only [Route.walk, bound]
  rfl

mutual
theorem Stmt.walk_route (limit : Nat) :
    ∀ (statement : Stmt) (scope : ScopeId) (point : Point),
      statement.route.walk limit scope point = statement.walk limit scope point
  | .expression _ value, scope, point => Expr.walk_route limit scope value point
  | .assign line targets value, scope, point => by
    have assigned (point : Point) := Route.walk_all limit scope point targets (Expr.targetRoute · .definition)
      (fun point target => target.walkTarget scope .definition point)
      (fun target _ point => Expr.walkTarget_route limit scope target .definition point)
    simp only [Stmt.route, Route.walk, Stmt.walk, Expr.walk_route, assigned, Route.walk_checkArity]
  | .branch _ condition thenBody none, scope, point => by
    simp only [Stmt.route, Route.walk, Stmt.walk, Expr.walk_route, Stmt.walk_block limit thenBody]
  | .branch _ condition thenBody (some elseBody), scope, point => by
    simp only [Stmt.route, Route.walk, Stmt.walk, Expr.walk_route, Stmt.walk_block limit thenBody,
      Stmt.walk_block limit elseBody]
  | .forEach line loopName columns body, scope, point => by
    have pass : Route.walk limit (.seq (.define loopName line .definition) (.block (Stmt.routes body))) scope =
        fun point => Stmt.walkList limit body scope none (point.define scope loopName line .definition) := by
      funext point
      simp only [Route.walk, Route.walk_define, Stmt.walk_block limit body]
    simp only [Stmt.route, Route.walk_seq, Route.walk_finish, Route.walk_stay, Route.walk_loop, pass,
      Stmt.walk, Expr.walk_route]
  | .whileLoop _ condition body, scope, point => by
    have pass : Route.walk limit (.seq condition.route (.block (Stmt.routes body))) scope =
        fun point => Stmt.walkList limit body scope none (condition.walk scope point) := by
      funext point
      simp only [Route.walk, Expr.walk_route, Stmt.walk_block limit body]
    simp only [Stmt.route, Route.walk_finish, Route.walk_loop, pass, Stmt.walk,
      Expr.walk_route]
  | .attempt line body handler none, scope, point => by
    simp only [Stmt.route, Route.walk, Stmt.walk, Stmt.walk_block limit body,
      Handler.walk_route limit handler]
  | .attempt line body handler (some finallyBody), scope, point => by
    simp only [Stmt.route, Route.walk, Stmt.walk, Stmt.walk_block limit body,
      Handler.walk_route limit handler, Stmt.walk_block limit finallyBody]
  | .function line name params body, scope, point => by
    simp only [Stmt.route, Point.walk_function, Stmt.walk, Stmt.walk_block limit body]
  | .declare line declaration names, scope, point =>
    Route.walk_all limit scope point names (Route.declare declaration line)
      (fun point name => point.declare scope declaration name line)
      (fun name _ point => Route.walk_declare limit scope point declaration line name)
  | .return _ none, _, _ => rfl
  | .return _ (some value), scope, point => Expr.walk_route limit scope value point
  | .word _ .break, _, _ => rfl
  | .word _ .continue, _, _ => rfl
  | .word _ .pass, _, _ => rfl
  | .word _ .nothing, _, _ => rfl
  | .comment .., _, _ => rfl

theorem Handler.walk_route (limit : Nat) :
    ∀ (handler : Handler) (line : SourceLine) (scope : ScopeId) (point : Point),
      (handler.route line).walk limit scope point = handler.walk limit line scope point
  | .absent, _, _, _ => rfl
  | .present none body, line, scope, point => by
    simp only [Handler.route, Route.walk, Handler.walk, Stmt.walk_block limit body]
    rfl
  | .present (some name) body, line, scope, point => by
    simp only [Handler.route, Route.walk, Handler.walk, Stmt.walk_block limit body, Route.walk_define]
    rfl

/-- The two routes of a list stand for its walk, also when a function has interrupted it. -/
theorem Stmt.walk_routes (limit : Nat) :
    ∀ (statements : List Stmt) (scope : ScopeId) (suspended : Suspended) (point : Point),
      (Stmt.routes statements).2.walk limit (suspended.outer scope)
          (suspended.resume ((Stmt.routes statements).1.walk limit scope point)) =
        Stmt.walkList limit statements scope suspended point
  | [], _, _, _ => rfl
  | statement :: rest, scope, suspended, point => by
    have others := Stmt.walk_routes limit rest
    have first := Stmt.walk_route limit statement
    match statement with
    | .function line name params [] =>
      have opened := Point.walk_function limit (suspended.outer scope) (suspended.resume point) name params
        line (Stmt.routes rest).1
      simp only [Stmt.routes, Route.walk_seq, Route.walk_stay, opened, Stmt.walkList]
      exact others _ (some (suspended.outer scope, (suspended.resume point).flow)) _
    | .function line name params (head :: tail) =>
      simp only [Stmt.routes, Route.walk, Stmt.walkList, first]
      exact others _ none _
    | .expression .. | .assign .. | .branch .. | .forEach .. | .whileLoop .. | .attempt .. | .declare ..
    | .return .. | .word .. | .comment .. =>
      simp only [Stmt.routes, Route.walk, Stmt.walkList, first]
      exact others scope suspended _

theorem Stmt.walk_block (limit : Nat) (statements : List Stmt) (scope : ScopeId) (point : Point) :
    (Route.block (Stmt.routes statements)).walk limit scope point = Stmt.walkList limit statements scope none point :=
  Stmt.walk_routes limit statements scope none point
end

end ArrayLift
