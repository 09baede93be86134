import ArrayLift.Proofs.Walk.Route
import ArrayLift.Resolution.Analysis
import ArrayLift.Resolution.Annotation
import Mathlib.Logic.Basic

/-! What annotation leaves alone: the route of the walk, the names of the functions and the identities of a
numbered tree. So an annotated tree is walked and numbered like the tree it comes from. -/
namespace ArrayLift

variable (table : ScopeTable) (words : ReservedWords)

theorem Ident.id_annotate : ∀ ident : Ident, (ident.annotate table words).1.id = ident.id
  | .mk _ none _ _ _ | .mk _ (some _) _ _ _ => rfl

theorem Ident.name_annotate : ∀ ident : Ident, (ident.annotate table words).1.name = ident.name
  | .mk _ none _ _ _ | .mk _ (some _) _ _ _ => rfl

theorem Route.use_annotate (ident : Ident) (line : SourceLine) (indexed arrayOnly : Bool) :
    use (ident.annotate table words).1 line indexed arrayOnly = use ident line indexed arrayOnly := by
  simp only [use, Ident.id_annotate, Ident.name_annotate]

theorem Route.define_annotate (ident : Ident) (line : SourceLine) (kind : OccurrenceKind) :
    define (ident.annotate table words).1 line kind = define ident line kind := by
  simp only [define, Ident.id_annotate, Ident.name_annotate]

theorem Route.declare_annotate (declaration : Declaration) (line : SourceLine) (ident : Ident) :
    declare declaration line (ident.annotate table words).1 = declare declaration line ident := by
  simp only [declare, Ident.id_annotate, Ident.name_annotate]

/-- Routes at identifiers that do not depend on annotations, one after the other. -/
theorem Route.all_annotateList (route : Ident → Route)
    (same : ∀ ident, route (ident.annotate table words).1 = route ident) (idents : List Ident) :
    all ((Ident.annotateList table words idents).1.map route) = all (idents.map route) := by
  induction idents with
  | nil => rfl
  | cons ident rest ih => exact congrArg₂ seq (same ident) ih

theorem IndexForm.decided_cellRef (form : IndexForm) (place : Place) (target : Expr) :
    form.decided place target = .cellRef ↔ form = .cellRef := by
  cases form <;> cases place <;> simp [decided] <;> split <;> simp

theorem Expr.length_annotateList (exprs : List Expr) (place : Place) :
    (Expr.annotateList table words exprs place).1.length = exprs.length := by
  induction exprs with
  | nil => rfl
  | cons expr rest ih => exact congrArg (· + 1) ih

mutual
theorem Expr.hasArrayIndex_annotate : ∀ (expr : Expr) (place : Place),
    (expr.annotate table words place).1.hasArrayIndex = expr.hasArrayIndex
  | .ident .., _ | .literal .., _ | .field .., _ | .dynamicField .., _ | .index .., _ | .rows .., _
  | .lambda .., _ => rfl
  | .operation line spelling operands none, place | .operation line spelling operands (some _), place => by
    have any := Expr.anyArrayIndex_annotateList operands (.value 1)
    have empty : (Expr.annotateList table words operands (.value 1)).1.isEmpty = operands.isEmpty := by
      cases operands <;> rfl
    simp only [Expr.annotate, Expr.hasArrayIndex, any, empty]

theorem Expr.anyArrayIndex_annotateList : ∀ (exprs : List Expr) (place : Place),
    Expr.anyArrayIndex (Expr.annotateList table words exprs place).1 = Expr.anyArrayIndex exprs
  | [], _ => rfl
  | expr :: rest, place =>
    congrArg₂ (· || ·) (Expr.hasArrayIndex_annotate expr place) (Expr.anyArrayIndex_annotateList rest place)
end

mutual
theorem Expr.route_annotate :
    ∀ (expr : Expr) (place : Place), (expr.annotate table words place).1.route = expr.route
  | .ident line named, _ => Route.use_annotate table words named line false false
  | .literal .., _ => rfl
  | .operation _ _ operands none, _ => Expr.routeList_annotateList operands (.value 1)
  | .operation line _ operands (some result), _ =>
    congrArg₂ Route.seq (Expr.routeList_annotateList operands (.value 1))
      (Route.define_annotate table words result line .definition)
  | .field _ object _, place => Expr.route_annotate object place.inner
  | .dynamicField _ object selector, place =>
    congrArg₂ Route.seq (Expr.route_annotate object place.inner) (Expr.route_annotate selector (.value 1))
  | .index _ form target arguments, place => by
    have before := Expr.routeList_annotateList arguments (.value 1)
    have inner := Expr.route_annotate target place.inner
    refine congrArg₂ Route.seq before ?_
    cases target with
    | ident line named =>
      simp only [Expr.annotate, Route.use_annotate, IndexForm.decided_cellRef,
        Expr.anyArrayIndex_annotateList]
    | operation line spelling operands result => cases result <;> exact inner
    | literal | field | dynamicField | index | rows | lambda => exact inner
  | .rows _ _ elements, _ => Expr.routeRows_annotateRows elements
  | .lambda line params body, _ =>
    congrArg Route.aside (congrArg₂ Route.seq
      (Route.all_annotateList table words _
        (fun param => Route.define_annotate table words param line .parameter) params)
      (Expr.route_annotate body (.value 1)))

theorem Expr.routeList_annotateList : ∀ (exprs : List Expr) (place : Place),
    Expr.routeList (Expr.annotateList table words exprs place).1 = Expr.routeList exprs
  | [], _ => rfl
  | expr :: rest, place =>
    congrArg₂ Route.seq (Expr.route_annotate expr place) (Expr.routeList_annotateList rest place)

theorem Expr.routeRows_annotateRows : ∀ rows : List (List Expr),
    Expr.routeRows (Expr.annotateRows table words rows).1 = Expr.routeRows rows
  | [] => rfl
  | row :: rest =>
    congrArg₂ Route.seq (Expr.routeList_annotateList row (.value 1)) (Expr.routeRows_annotateRows rest)
end

theorem Expr.targetRoute_annotate : ∀ (expr : Expr) (place : Place) (kind : OccurrenceKind),
    (expr.annotate table words place).1.targetRoute kind = expr.targetRoute kind
  | .ident line named, _, kind => Route.define_annotate table words named line kind
  | .index _ _ target arguments, place, _ =>
    congrArg₂ Route.seq (Expr.routeList_annotateList table words arguments (.value 1))
      (Expr.targetRoute_annotate target place.inner .partialDefinition)
  | .field _ object _, place, _ => Expr.targetRoute_annotate object place.inner .partialDefinition
  | .dynamicField _ object selector, place, _ =>
    congrArg₂ Route.seq (selector.route_annotate table words (.value 1))
      (Expr.targetRoute_annotate object place.inner .partialDefinition)
  | .literal line value, place, _ => Expr.route_annotate table words (.literal line value) place
  | .operation line spelling operands none, place, _ =>
    Expr.route_annotate table words (.operation line spelling operands none) place
  | .operation line spelling operands (some result), place, _ =>
    Expr.route_annotate table words (.operation line spelling operands (some result)) place
  | .rows line brackets elements, place, _ =>
    Expr.route_annotate table words (.rows line brackets elements) place
  | .lambda line params body, place, _ => Expr.route_annotate table words (.lambda line params body) place

theorem Expr.callee?_annotate : ∀ (expr : Expr) (place : Place),
    (expr.annotate table words place).1.callee? = expr.callee?
  | .ident _ (.mk _ none _ _ _), _ | .ident _ (.mk _ (some _) _ _ _), _ => rfl
  | .field _ object _, place | .dynamicField _ object _, place => Expr.callee?_annotate object place.inner
  | .literal .., _ | .operation _ _ _ none, _ | .operation _ _ _ (some _), _ | .index .., _ | .rows .., _
  | .lambda .., _ => rfl

theorem Expr.valueSource_index {form : IndexForm} (paren : form ≠ .cellRef) (line : SourceLine)
    (target : Expr) (arguments : List Expr) :
    (Expr.index line form target arguments).valueSource = .named target.callee? := by
  cases form with
  | cellRef => exact absurd rfl paren
  | apply | arrayRef | call => rfl

theorem Expr.valueSource_annotate (expr : Expr) (place : Place) :
    (expr.annotate table words place).1.valueSource = expr.valueSource := by
  cases expr with
  | ident line named => simp only [Expr.annotate, valueSource, Ident.id_annotate, Ident.name_annotate]
  | index line form target arguments =>
    have same := target.callee?_annotate table words place.inner
    by_cases cell : form = .cellRef
    · simp [Expr.annotate, valueSource, cell, IndexForm.decided]
    · have kept := mt (form.decided_cellRef place (target.annotate table words place.inner).1).mp cell
      simp only [Expr.annotate, Expr.valueSource_index cell, Expr.valueSource_index kept, same]
  | operation line spelling operands result => cases result <;> rfl
  | literal line value => rfl
  | rows line brackets elements => cases brackets <;> rfl
  | field | dynamicField | lambda => rfl

theorem Ident.paramRoute_annotate (line : SourceLine) : ∀ param : Ident,
    (param.annotate table words).1.paramRoute line = param.paramRoute line
  | .mk _ none _ _ _ => rfl
  | .mk _ (some init) _ _ _ => congrArg (Route.seq · _) (init.route_annotate table words (.value 1))


/-- The routes through the targets of an assignment. -/
theorem Expr.targetRoutes_annotateList (targets : List Expr) :
    (Expr.annotateList table words targets .assigned).1.map (Expr.targetRoute · .definition) =
      targets.map (Expr.targetRoute · .definition) := by
  induction targets with
  | nil => rfl
  | cons target rest ih =>
    exact congrArg₂ List.cons (target.targetRoute_annotate table words .assigned .definition) ih

theorem Route.checkArity_annotate (line : SourceLine) (targets : List Expr) (value : Expr)
    (place : Place) :
    checkArity line (Expr.annotateList table words targets .assigned).1.length (value.annotate table words place).1 =
      checkArity line targets.length value := by
  simp only [checkArity, Expr.length_annotateList, Expr.valueSource_annotate]

mutual
theorem Stmt.route_annotate : ∀ statement : Stmt, (statement.annotate table words).1.route = statement.route
  | .expression _ value => value.route_annotate table words (.value 1)
  | .assign line targets value => by
    simp only [Stmt.annotate, Stmt.route, Expr.route_annotate, Expr.targetRoutes_annotateList,
      Route.checkArity_annotate]
  | .branch _ condition thenBody none => by
    simp only [Stmt.annotate, Stmt.route, Expr.route_annotate, Stmt.routes_annotateList thenBody]
  | .branch _ condition thenBody (some elseBody) => by
    simp only [Stmt.annotate, Stmt.route, Expr.route_annotate, Stmt.routes_annotateList thenBody,
      Stmt.routes_annotateList elseBody]
  | .forEach line loopName columns body => by
    simp only [Stmt.annotate, Stmt.route, Expr.route_annotate, Route.define_annotate,
      Stmt.routes_annotateList body]
  | .whileLoop _ condition body => by
    simp only [Stmt.annotate, Stmt.route, Expr.route_annotate, Stmt.routes_annotateList body]
  | .attempt line body handler none => by
    simp only [Stmt.annotate, Stmt.route, Stmt.routes_annotateList body, Handler.route_annotate handler]
  | .attempt line body handler (some finallyBody) => by
    simp only [Stmt.annotate, Stmt.route, Stmt.routes_annotateList body, Handler.route_annotate handler,
      Stmt.routes_annotateList finallyBody]
  | .function line name params body => by
    have bound := Route.all_annotateList table words _ (Ident.paramRoute_annotate table words line) params
    simp only [Stmt.annotate, Stmt.route, Ident.id_annotate, Ident.name_annotate, bound,
      Stmt.routes_annotateList body]
  | .declare line declaration names =>
    Route.all_annotateList table words _ (Route.declare_annotate table words declaration line) names
  | .return _ none => rfl
  | .return _ (some value) => congrArg (Route.seq · _) (value.route_annotate table words (.value 1))
  | .word _ .break | .word _ .continue | .word _ .pass | .word _ .nothing | .comment .. => rfl

theorem Handler.route_annotate : ∀ (handler : Handler) (line : SourceLine),
    (handler.annotate table words).1.route line = handler.route line
  | .absent, _ => rfl
  | .present none body, _ => by
    simp only [Handler.annotate, Ident.annotateOption, Handler.route, Stmt.routes_annotateList body]
  | .present (some name) body, line => by
    simp only [Handler.annotate, Ident.annotateOption, Handler.route, Route.define_annotate,
      Stmt.routes_annotateList body]

theorem Stmt.routes_annotateList : ∀ statements : List Stmt,
    Stmt.routes (Stmt.annotateList table words statements).1 = Stmt.routes statements
  | [] => rfl
  | statement :: rest => by
    have others := Stmt.routes_annotateList rest
    have first := Stmt.route_annotate statement
    match statement with
    | .function line name params [] =>
      have bound := Route.all_annotateList table words _ (Ident.paramRoute_annotate table words line) params
      simp only [Stmt.annotateList, Stmt.annotate, Stmt.routes, Ident.id_annotate, Ident.name_annotate,
        bound, others]
    | .function line name params (head :: tail) =>
      exact congrArg₂ (fun first others => (Route.stay, Route.seq first (Route.seq others.1 others.2))) first others
    | .branch _ _ _ none | .branch _ _ _ (some _) | .attempt _ _ _ none | .attempt _ _ _ (some _)
    | .return _ none | .return _ (some _) | .expression .. | .assign .. | .forEach .. | .whileLoop ..
    | .declare .. | .word .. | .comment .. =>
      exact congrArg₂ (fun first others => (Route.seq first others.1, others.2)) first others
end

mutual
theorem Stmt.declaredFunctions_annotate : ∀ statement : Stmt,
    (statement.annotate table words).1.declaredFunctions = statement.declaredFunctions
  | .branch _ _ thenBody none => Stmt.declaredFunctions_annotateList thenBody
  | .branch _ _ thenBody (some elseBody) =>
    congrArg₂ (· ++ ·) (Stmt.declaredFunctions_annotateList thenBody) (Stmt.declaredFunctions_annotateList elseBody)
  | .forEach _ _ _ body | .whileLoop _ _ body => Stmt.declaredFunctions_annotateList body
  | .attempt _ body handler none =>
    congrArg₂ (· ++ ·) (Stmt.declaredFunctions_annotateList body) (Handler.declaredFunctions_annotate handler)
  | .attempt _ body handler (some finallyBody) =>
    congrArg₂ (· ++ ·)
      (congrArg₂ (· ++ ·) (Stmt.declaredFunctions_annotateList body) (Handler.declaredFunctions_annotate handler))
      (Stmt.declaredFunctions_annotateList finallyBody)
  | .function _ name _ body =>
    congrArg₂ List.cons (name.name_annotate table words) (Stmt.declaredFunctions_annotateList body)
  | .expression .. | .assign .. | .declare .. | .return _ none | .return _ (some _) | .word ..
  | .comment .. => rfl

theorem Handler.declaredFunctions_annotate : ∀ handler : Handler,
    (handler.annotate table words).1.declaredFunctions = handler.declaredFunctions
  | .absent => rfl
  | .present none body | .present (some _) body => Stmt.declaredFunctions_annotateList body

theorem Stmt.declaredFunctions_annotateList : ∀ statements : List Stmt,
    Stmt.declaredFunctionsList (Stmt.annotateList table words statements).1 = Stmt.declaredFunctionsList statements
  | [] => rfl
  | statement :: rest =>
    congrArg₂ (· ++ ·) (Stmt.declaredFunctions_annotate statement) (Stmt.declaredFunctions_annotateList rest)
end

/-- The walk over an annotated program finds what it finds without the annotations. -/
theorem Program.findings_annotate (program : Program) (limit : Nat) :
    (program.annotate table words).1.findings limit = program.findings limit := by
  have declared : (program.annotate table words).1.declaredFunctions = program.declaredFunctions :=
    Stmt.declaredFunctions_annotateList table words program.statements
  have route : (program.annotate table words).1.route = program.route :=
    congrArg Route.block (Stmt.routes_annotateList table words program.statements)
  have walked (program : Program) (point : Point) :
      Stmt.walkList limit program.statements ScopeTable.script none point =
        program.route.walk limit ScopeTable.script point :=
    (Stmt.walk_block limit program.statements ScopeTable.script point).symm
  simp only [Program.findings, walked, declared, route]

/-- Numbering two parts one after the other gives back what each one gives back. -/
theorem numbered_pair {One Other Whole : Type} {first : One → Nat → One × Nat}
    {second : Other → Nat → Other × Nat} (build : One → Other → Whole) {one : One} {other : Other}
    {next middle last : Nat} (start : first one next = (one, middle))
    (behind : second other middle = (other, last)) :
    (build (first one next).1 (second other (first one next).2).1, (second other (first one next).2).2) =
      (build one other, last) := by
  rw [start, behind]

mutual
theorem Ident.withIds_annotate : ∀ (ident : Ident) (next : Nat),
    ((ident.withIds next).1.annotate table words).1.withIds next =
      (((ident.withIds next).1.annotate table words).1, (ident.withIds next).2)
  | .mk _ none _ _ _, _ => rfl
  | .mk name (some init) _ _ _, next =>
    congrArg (fun result => (Ident.mk name (some result.1) _ _ (some next), result.2))
      (Expr.withIds_annotate init (.value 1) (next + 1))

theorem Expr.withIds_annotate : ∀ (expr : Expr) (place : Place) (next : Nat),
    ((expr.withIds next).1.annotate table words place).1.withIds next =
      (((expr.withIds next).1.annotate table words place).1, (expr.withIds next).2)
  | .ident line named, _, next =>
    congrArg (fun result => (Expr.ident line result.1, result.2)) (Ident.withIds_annotate named next)
  | .literal .., _, _ => rfl
  | .operation line spelling operands none, _, next =>
    congrArg (fun result => (Expr.operation line spelling result.1 none, result.2))
      (Expr.withIdsList_annotate operands (.value 1) next)
  | .operation line spelling operands (some result), _, next =>
    numbered_pair (fun operands result => Expr.operation line spelling operands (some result))
      (Expr.withIdsList_annotate operands (.value 1) next) (Ident.withIds_annotate result _)
  | .field line object name, place, next =>
    congrArg (fun result => (Expr.field line result.1 name, result.2)) (Expr.withIds_annotate object place.inner next)
  | .dynamicField line object selector, place, next =>
    numbered_pair (Expr.dynamicField line) (Expr.withIds_annotate object place.inner next)
      (Expr.withIds_annotate selector (.value 1) _)
  | .index line _ target arguments, place, next =>
    numbered_pair (Expr.index line _) (Expr.withIds_annotate target place.inner next)
      (Expr.withIdsList_annotate arguments (.value 1) _)
  | .rows line brackets rows, _, next =>
    congrArg (fun result => (Expr.rows line brackets result.1, result.2)) (Expr.withIdsRows_annotate rows next)
  | .lambda line params body, _, next =>
    numbered_pair (Expr.lambda line) (Ident.withIdsList_annotate params next) (Expr.withIds_annotate body (.value 1) _)

theorem Expr.withIdsList_annotate : ∀ (exprs : List Expr) (place : Place) (next : Nat),
    Expr.withIdsList (Expr.annotateList table words (Expr.withIdsList exprs next).1 place).1 next =
      ((Expr.annotateList table words (Expr.withIdsList exprs next).1 place).1, (Expr.withIdsList exprs next).2)
  | [], _, _ => rfl
  | expr :: rest, place, next =>
    numbered_pair List.cons (Expr.withIds_annotate expr place next) (Expr.withIdsList_annotate rest place _)

theorem Expr.withIdsRows_annotate : ∀ (rows : List (List Expr)) (next : Nat),
    Expr.withIdsRows (Expr.annotateRows table words (Expr.withIdsRows rows next).1).1 next =
      ((Expr.annotateRows table words (Expr.withIdsRows rows next).1).1, (Expr.withIdsRows rows next).2)
  | [], _ => rfl
  | row :: rest, next =>
    numbered_pair List.cons (Expr.withIdsList_annotate row (.value 1) next) (Expr.withIdsRows_annotate rest _)

theorem Ident.withIdsList_annotate : ∀ (idents : List Ident) (next : Nat),
    Ident.withIdsList (Ident.annotateList table words (Ident.withIdsList idents next).1).1 next =
      ((Ident.annotateList table words (Ident.withIdsList idents next).1).1, (Ident.withIdsList idents next).2)
  | [], _ => rfl
  | ident :: rest, next =>
    numbered_pair List.cons (Ident.withIds_annotate ident next) (Ident.withIdsList_annotate rest _)
end

/-- Numbering three parts one after the other gives back what each one gives back. -/
theorem numbered_triple {One Other Third Whole : Type} {first : One → Nat → One × Nat}
    {second : Other → Nat → Other × Nat} {last : Third → Nat → Third × Nat}
    (build : One → Other → Third → Whole) {one : One} {other : Other} {third : Third}
    {next middle late final : Nat} (start : first one next = (one, middle))
    (behind : second other middle = (other, late)) (finish : last third late = (third, final)) :
    (build (first one next).1 (second other (first one next).2).1 (last third (second other (first one next).2).2).1,
      (last third (second other (first one next).2).2).2) = (build one other third, final) := by
  rw [start, behind, finish]

theorem Ident.withIdsOption_annotate : ∀ (ident : Option Ident) (next : Nat),
    Ident.withIdsOption (Ident.annotateOption table words (Ident.withIdsOption ident next).1).1 next =
      ((Ident.annotateOption table words (Ident.withIdsOption ident next).1).1, (Ident.withIdsOption ident next).2)
  | none, _ => rfl
  | some ident, next =>
    congrArg (fun result => (some result.1, result.2)) (ident.withIds_annotate table words next)

mutual
theorem Stmt.withIds_annotate : ∀ (statement : Stmt) (next : Nat),
    ((statement.withIds next).1.annotate table words).1.withIds next =
      (((statement.withIds next).1.annotate table words).1, (statement.withIds next).2)
  | .expression line value, next =>
    congrArg (fun result => (Stmt.expression line result.1, result.2)) (value.withIds_annotate table words _ next)
  | .assign line targets value, next =>
    numbered_pair (Stmt.assign line) (Expr.withIdsList_annotate table words targets .assigned next)
      (value.withIds_annotate table words _ _)
  | .branch line condition thenBody none, next =>
    numbered_pair (Stmt.branch line · · none) (condition.withIds_annotate table words (.value 1) next)
      (Stmt.withIdsList_annotate thenBody _)
  | .branch line condition thenBody (some elseBody), next =>
    numbered_triple (fun condition thenBody elseBody => Stmt.branch line condition thenBody (some elseBody))
      (condition.withIds_annotate table words (.value 1) next) (Stmt.withIdsList_annotate thenBody _)
      (Stmt.withIdsList_annotate elseBody _)
  | .forEach line loopName columns body, next =>
    numbered_triple (Stmt.forEach line) (loopName.withIds_annotate table words next)
      (columns.withIds_annotate table words (.value 1) _) (Stmt.withIdsList_annotate body _)
  | .whileLoop line condition body, next =>
    numbered_pair (Stmt.whileLoop line) (condition.withIds_annotate table words (.value 1) next)
      (Stmt.withIdsList_annotate body _)
  | .attempt line body handler none, next =>
    numbered_pair (Stmt.attempt line · · none) (Stmt.withIdsList_annotate body next)
      (Handler.withIds_annotate handler _)
  | .attempt line body handler (some finallyBody), next =>
    numbered_triple (fun body handler finallyBody => Stmt.attempt line body handler (some finallyBody))
      (Stmt.withIdsList_annotate body next) (Handler.withIds_annotate handler _)
      (Stmt.withIdsList_annotate finallyBody _)
  | .function line name params body, next =>
    numbered_triple (Stmt.function line) (name.withIds_annotate table words next)
      (Ident.withIdsList_annotate table words params _) (Stmt.withIdsList_annotate body _)
  | .declare line declaration names, next =>
    congrArg (fun result => (Stmt.declare line declaration result.1, result.2))
      (Ident.withIdsList_annotate table words names next)
  | .return _ none, _ | .word .., _ | .comment .., _ => rfl
  | .return line (some value), next =>
    congrArg (fun result => (Stmt.return line (some result.1), result.2))
      (value.withIds_annotate table words (.value 1) next)

theorem Handler.withIds_annotate : ∀ (handler : Handler) (next : Nat),
    ((handler.withIds next).1.annotate table words).1.withIds next =
      (((handler.withIds next).1.annotate table words).1, (handler.withIds next).2)
  | .absent, _ => rfl
  | .present name body, next =>
    numbered_pair Handler.present (Ident.withIdsOption_annotate table words name next)
      (Stmt.withIdsList_annotate body _)

theorem Stmt.withIdsList_annotate : ∀ (statements : List Stmt) (next : Nat),
    Stmt.withIdsList (Stmt.annotateList table words (Stmt.withIdsList statements next).1).1 next =
      ((Stmt.annotateList table words (Stmt.withIdsList statements next).1).1, (Stmt.withIdsList statements next).2)
  | [], _ => rfl
  | statement :: rest, next =>
    numbered_pair List.cons (Stmt.withIds_annotate statement next) (Stmt.withIdsList_annotate rest _)
end

/-- An annotated tree that is numbered again keeps its numbers. -/
theorem Program.withIds_annotate (program : Program) :
    (program.withIds.1.annotate table words).1.withIds =
      ((program.withIds.1.annotate table words).1, program.withIds.2) :=
  congrArg (fun result => (Program.mk result.1, result.2)) (Stmt.withIdsList_annotate table words program.statements 0)

end ArrayLift
