import ArrayLift.Proofs.Isolation.Shift
import ArrayLift.Proofs.Walk.Census

/-! The route through a tree whose identities are moved up is the route through the tree, moved up. -/
namespace ArrayLift

section
variable (distance : Nat)

def ValueSource.shifted : ValueSource → ValueSource
  | .several => .several
  | .single description => .single description
  | .named root => .named (root.map fun root => (root.1 + distance, root.2))

def Step.shifted : Step → Step
  | .use id name _ indexed arrayOnly => .use (id + distance) name 0 indexed arrayOnly
  | .define id name _ kind => .define (id + distance) name 0 kind
  | .declare declaration id name _ => .declare declaration (id + distance) name 0
  | .checkArity _ targets source => .checkArity 0 targets (source.shifted distance)

namespace Route

def shifted : Route → Route
  | .stay => .stay
  | .step action => .step (action.shifted distance)
  | .seq first second => .seq (shifted first) (shifted second)
  | .fork left right => .fork (shifted left) (shifted right)
  | .attempt body => .attempt (shifted body)
  | .ensure first second => .ensure (shifted first) (shifted second)
  | .finish first second => .finish (shifted first) (shifted second)
  | .loop body => .loop (shifted body)
  | .aside body => .aside (shifted body)
  | .function id name _ body => .function (id.map (· + distance)) name 0 (shifted body)
  | .jump exit => .jump exit

theorem use_shifted (ident : Ident) (line : SourceLine) (indexed arrayOnly : Bool) :
    use (ident.shifted distance) 0 indexed arrayOnly = (use ident line indexed arrayOnly).shifted distance := by
  obtain ⟨name, init, role, reserved, id⟩ := ident
  cases init <;> cases id <;> rfl

theorem define_shifted (ident : Ident) (line : SourceLine) (kind : OccurrenceKind) :
    define (ident.shifted distance) 0 kind = (define ident line kind).shifted distance := by
  obtain ⟨name, init, role, reserved, id⟩ := ident
  cases init <;> cases id <;> rfl

theorem declare_shifted (declaration : Declaration) (line : SourceLine) (ident : Ident) :
    declare declaration 0 (ident.shifted distance) = (declare declaration line ident).shifted distance := by
  obtain ⟨name, init, role, reserved, id⟩ := ident
  cases init <;> cases id <;> rfl

theorem all_shiftedList {route moved : Ident → Route}
    (same : ∀ ident, moved (ident.shifted distance) = (route ident).shifted distance) (idents : List Ident) :
    all ((Ident.shiftedList distance idents).map moved) = (all (idents.map route)).shifted distance := by
  induction idents with
  | nil => rfl
  | cons ident rest ih => exact congrArg₂ seq (same ident) ih

end Route

mutual
theorem Expr.hasArrayIndex_shifted : ∀ expr : Expr, (expr.shifted distance).hasArrayIndex = expr.hasArrayIndex
  | .ident .. | .literal .. | .field .. | .dynamicField .. | .index .. | .rows .. | .lambda .. => rfl
  | .operation line spelling operands none | .operation line spelling operands (some _) => by
    have any := Expr.anyArrayIndex_shiftedList operands
    have empty : (Expr.shiftedList distance operands).isEmpty = operands.isEmpty := by cases operands <;> rfl
    simp only [Expr.shifted, Expr.hasArrayIndex, any, empty]

theorem Expr.anyArrayIndex_shiftedList : ∀ exprs : List Expr,
    Expr.anyArrayIndex (Expr.shiftedList distance exprs) = Expr.anyArrayIndex exprs
  | [] => rfl
  | expr :: rest => congrArg₂ (· || ·) (Expr.hasArrayIndex_shifted expr) (Expr.anyArrayIndex_shiftedList rest)
end

mutual
theorem Expr.route_shifted : ∀ expr : Expr, (expr.shifted distance).route = expr.route.shifted distance
  | .ident line named => Route.use_shifted distance named line false false
  | .literal .. => rfl
  | .operation _ _ operands none => Expr.routeList_shifted operands
  | .operation line _ operands (some result) =>
    congrArg₂ Route.seq (Expr.routeList_shifted operands) (Route.define_shifted distance result line .definition)
  | .field _ object _ => Expr.route_shifted object
  | .dynamicField _ object selector =>
    congrArg₂ Route.seq (Expr.route_shifted object) (Expr.route_shifted selector)
  | .index _ form target arguments => by
    have inner := Expr.route_shifted target
    refine congrArg₂ Route.seq (Expr.routeList_shifted arguments) ?_
    cases target with
    | ident line named =>
      simp only [Expr.shifted, Expr.anyArrayIndex_shiftedList]
      exact Route.use_shifted distance named line true _
    | operation line spelling operands result => cases result <;> exact inner
    | literal | field | dynamicField | index | rows | lambda => exact inner
  | .rows _ _ elements => Expr.routeRows_shifted elements
  | .lambda line params body =>
    congrArg Route.aside (congrArg₂ Route.seq
      (Route.all_shiftedList distance (fun param => Route.define_shifted distance param line .parameter) params)
      (Expr.route_shifted body))

theorem Expr.routeList_shifted : ∀ exprs : List Expr,
    Expr.routeList (Expr.shiftedList distance exprs) = (Expr.routeList exprs).shifted distance
  | [] => rfl
  | expr :: rest => congrArg₂ Route.seq (Expr.route_shifted expr) (Expr.routeList_shifted rest)

theorem Expr.routeRows_shifted : ∀ rows : List (List Expr),
    Expr.routeRows (Expr.shiftedRows distance rows) = (Expr.routeRows rows).shifted distance
  | [] => rfl
  | row :: rest => congrArg₂ Route.seq (Expr.routeList_shifted row) (Expr.routeRows_shifted rest)
end

theorem Expr.targetRoute_shifted : ∀ (expr : Expr) (kind : OccurrenceKind),
    (expr.shifted distance).targetRoute kind = (expr.targetRoute kind).shifted distance
  | .ident line named, kind => Route.define_shifted distance named line kind
  | .index _ _ target arguments, _ =>
    congrArg₂ Route.seq (Expr.routeList_shifted distance arguments)
      (Expr.targetRoute_shifted target .partialDefinition)
  | .field _ object _, _ => Expr.targetRoute_shifted object .partialDefinition
  | .dynamicField _ object selector, _ =>
    congrArg₂ Route.seq (selector.route_shifted distance) (Expr.targetRoute_shifted object .partialDefinition)
  | .literal line value, _ => Expr.route_shifted distance (.literal line value)
  | .operation line spelling operands none, _ =>
    Expr.route_shifted distance (.operation line spelling operands none)
  | .operation line spelling operands (some result), _ =>
    Expr.route_shifted distance (.operation line spelling operands (some result))
  | .rows line brackets elements, _ => Expr.route_shifted distance (.rows line brackets elements)
  | .lambda line params body, _ => Expr.route_shifted distance (.lambda line params body)

theorem Expr.targetRoutes_shiftedList (targets : List Expr) :
    Route.all ((Expr.shiftedList distance targets).map (Expr.targetRoute · .definition)) =
      (Route.all (targets.map (Expr.targetRoute · .definition))).shifted distance := by
  induction targets with
  | nil => rfl
  | cons target rest ih => exact congrArg₂ Route.seq (target.targetRoute_shifted distance .definition) ih

theorem Expr.callee?_shifted : ∀ expr : Expr,
    (expr.shifted distance).callee? = expr.callee?.map fun root => (root.1 + distance, root.2)
  | .ident _ (.mk _ none _ _ id) | .ident _ (.mk _ (some _) _ _ id) => by cases id <;> rfl
  | .field _ object _ | .dynamicField _ object _ => Expr.callee?_shifted object
  | .operation _ _ _ none | .operation _ _ _ (some _) => rfl
  | .literal .. | .index .. | .rows .. | .lambda .. => rfl

theorem Expr.valueSource_shifted : ∀ expr : Expr,
    (expr.shifted distance).valueSource = expr.valueSource.shifted distance
  | .ident _ (.mk _ none _ _ id) | .ident _ (.mk _ (some _) _ _ id) => by cases id <;> rfl
  | .index _ .cellRef _ _ => rfl
  | .index _ .apply target _ | .index _ .arrayRef target _ | .index _ (.call _) target _ =>
    congrArg ValueSource.named (target.callee?_shifted distance)
  | .operation _ _ _ none | .operation _ _ _ (some _) => rfl
  | .literal _ (.number _) | .literal _ (.text _) | .literal _ (.logical _) => rfl
  | .rows _ .matrix _ | .rows _ .cell _ => rfl
  | .field .. | .dynamicField .. | .lambda .. => rfl

theorem Route.checkArity_shifted (line : SourceLine) (targets : Nat) (value : Expr) :
    checkArity 0 targets (value.shifted distance) = (checkArity line targets value).shifted distance := by
  unfold checkArity
  split
  · rfl
  · rw [value.valueSource_shifted]
    rfl

theorem Ident.paramRoute_shifted (line : SourceLine) (param : Ident) :
    (param.shifted distance).paramRoute 0 = (param.paramRoute line).shifted distance := by
  obtain ⟨name, init, role, reserved, id⟩ := param
  cases init with
  | none => cases id <;> rfl
  | some init =>
    refine congrArg₂ Route.seq (init.route_shifted distance) ?_
    cases id <;> rfl

theorem Ident.id_shifted (ident : Ident) : (ident.shifted distance).id = ident.id.map (· + distance) := by
  obtain ⟨name, init, role, reserved, id⟩ := ident
  cases init <;> rfl

theorem Ident.name_shifted (ident : Ident) : (ident.shifted distance).name = ident.name := by
  obtain ⟨name, init, role, reserved, id⟩ := ident
  cases init <;> rfl

theorem Ident.paramRoutes_shifted (line : SourceLine) (params : List Ident) :
    Route.all ((Ident.shiftedList distance params).map (Ident.paramRoute 0)) =
      (Route.all (params.map (Ident.paramRoute line))).shifted distance :=
  Route.all_shiftedList distance (Ident.paramRoute_shifted distance line) params

mutual
theorem Stmt.route_shifted : ∀ statement : Stmt, (statement.shifted distance).route = statement.route.shifted distance
  | .expression _ value => value.route_shifted distance
  | .assign line targets value => by
    simp only [Stmt.shifted, Stmt.route, Route.shifted, Expr.route_shifted, Expr.targetRoutes_shiftedList,
      Expr.length_shiftedList, Route.checkArity_shifted distance line]
  | .branch _ condition thenBody none => by
    simp only [Stmt.shifted, Stmt.route, Route.shifted, Expr.route_shifted, Stmt.block_shifted thenBody]
  | .branch _ condition thenBody (some elseBody) => by
    simp only [Stmt.shifted, Stmt.route, Route.shifted, Expr.route_shifted, Stmt.block_shifted thenBody,
      Stmt.block_shifted elseBody]
  | .forEach line loopName columns body => by
    simp only [Stmt.shifted, Stmt.route, Route.shifted, Expr.route_shifted, Route.define_shifted distance loopName line,
      Stmt.block_shifted body]
  | .whileLoop _ condition body => by
    simp only [Stmt.shifted, Stmt.route, Route.shifted, Expr.route_shifted, Stmt.block_shifted body]
  | .attempt line body handler none => by
    simp only [Stmt.shifted, Stmt.route, Route.shifted, Stmt.block_shifted body, Handler.route_shifted handler line]
  | .attempt line body handler (some finallyBody) => by
    simp only [Stmt.shifted, Stmt.route, Route.shifted, Stmt.block_shifted body, Handler.route_shifted handler line,
      Stmt.block_shifted finallyBody]
  | .function line name params body => by
    simp only [Stmt.shifted, Stmt.route, Route.shifted, Ident.id_shifted, Ident.name_shifted,
      Ident.paramRoutes_shifted distance line, Stmt.block_shifted body]
  | .declare line declaration names =>
    Route.all_shiftedList distance (Route.declare_shifted distance declaration line) names
  | .return _ none => rfl
  | .return _ (some value) => congrArg (Route.seq · _) (value.route_shifted distance)
  | .word _ .break | .word _ .continue | .word _ .pass | .word _ .nothing | .comment .. => rfl

theorem Handler.route_shifted : ∀ (handler : Handler) (line : SourceLine),
    (handler.shifted distance).route 0 = (handler.route line).shifted distance
  | .absent, _ => rfl
  | .present none body, _ => by
    simp only [Handler.shifted, Handler.route, Route.shifted, Stmt.block_shifted body]
  | .present (some name) body, line => by
    simp only [Handler.shifted, Handler.route, Route.shifted, Route.define_shifted distance name line,
      Stmt.block_shifted body]

theorem Stmt.routes_shifted : ∀ statements : List Stmt,
    Stmt.routes (Stmt.shiftedList distance statements) =
      ((Stmt.routes statements).1.shifted distance, (Stmt.routes statements).2.shifted distance)
  | [] => rfl
  | statement :: rest => by
    have others := Stmt.routes_shifted rest
    have first := Stmt.route_shifted statement
    match statement with
    | .function line name params [] =>
      simp only [Stmt.shiftedList, Stmt.shifted, Stmt.routes, Route.shifted, Ident.id_shifted, Ident.name_shifted,
        Ident.paramRoutes_shifted distance line, others]
    | .function line name params (head :: tail) =>
      exact congrArg₂ (fun first others => (Route.stay, Route.seq first (Route.seq others.1 others.2))) first others
    | .branch _ _ _ none | .branch _ _ _ (some _) | .attempt _ _ _ none | .attempt _ _ _ (some _)
    | .return _ none | .return _ (some _) | .expression .. | .assign .. | .forEach .. | .whileLoop ..
    | .declare .. | .word .. | .comment .. =>
      exact congrArg₂ (fun first others => (Route.seq first others.1, others.2)) first others

theorem Stmt.block_shifted : ∀ statements : List Stmt,
    Route.block (Stmt.routes (Stmt.shiftedList distance statements)) =
      (Route.block (Stmt.routes statements)).shifted distance := by
  intro statements
  rw [Stmt.routes_shifted statements]
  rfl
end

end
end ArrayLift
