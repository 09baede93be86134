import ArrayLift.Proofs.Walk.Numbered

/-! What the steps on the route through a program define: a name gets a value, a part of it changes, or a
parameter is bound. No step defines a name by declaring it or by naming a function after it. -/
namespace ArrayLift

/-- Does an occurrence of this kind give a value to its name? -/
def OccurrenceKind.isSource : OccurrenceKind → Bool
  | .definition | .partialDefinition | .parameter => true
  | .use | .declaration | .functionName => false

def Step.Sound : Step → Prop
  | .define _ _ _ kind => kind.isSource = true
  | .use .. | .declare .. | .checkArity .. => True

namespace Route

def Sound : Route → Prop
  | .stay | .jump _ => True
  | .step action => action.Sound
  | .seq first second | .fork first second | .ensure first second | .finish first second =>
    first.Sound ∧ second.Sound
  | .attempt body | .loop body | .aside body | .function _ _ _ body => body.Sound

theorem Sound.place {route : Route} (sound : route.Sound) {scope next : ScopeId} {place : ScopeId × Step}
    (member : place ∈ route.places scope next) : place.2.Sound := by
  induction route generalizing scope next with
  | stay | jump _ => cases member
  | step action =>
    obtain rfl := List.mem_singleton.mp member
    exact sound
  | seq first second ihFirst ihSecond | fork first second ihFirst ihSecond | ensure first second ihFirst ihSecond
  | finish first second ihFirst ihSecond =>
    rcases List.mem_append.mp member with inFirst | inSecond
    · exact ihFirst sound.1 inFirst
    · exact ihSecond sound.2 inSecond
  | attempt body ih | loop body ih | aside body ih | function id name line body ih => exact ih sound member

theorem sound_all {routes : List Route} (each : ∀ route ∈ routes, route.Sound) : (all routes).Sound := by
  induction routes with
  | nil => trivial
  | cons route rest ih => exact ⟨each route (by simp), ih fun other member => each other (by simp [member])⟩

theorem sound_use (ident : Ident) (line : SourceLine) (indexed arrayOnly : Bool) :
    (use ident line indexed arrayOnly).Sound := by
  unfold use
  split <;> trivial

theorem sound_define (ident : Ident) (line : SourceLine) {kind : OccurrenceKind} (source : kind.isSource = true) :
    (define ident line kind).Sound := by
  unfold define
  split
  · trivial
  · exact source

theorem sound_declare (declaration : Declaration) (line : SourceLine) (ident : Ident) :
    (declare declaration line ident).Sound := by
  unfold declare
  split <;> trivial

theorem sound_checkArity (line : SourceLine) (targets : Nat) (value : Expr) :
    (checkArity line targets value).Sound := by
  unfold checkArity
  split <;> trivial

end Route

mutual
theorem Expr.sound_route : ∀ expr : Expr, expr.route.Sound
  | .ident line named => Route.sound_use named line false false
  | .literal .. => trivial
  | .operation _ _ operands none => Expr.sound_routeList operands
  | .operation line _ operands (some result) => ⟨Expr.sound_routeList operands, Route.sound_define result line rfl⟩
  | .field _ object _ => Expr.sound_route object
  | .dynamicField _ object selector => ⟨Expr.sound_route object, Expr.sound_route selector⟩
  | .index _ form target arguments => by
    have indexed := Expr.sound_route target
    refine ⟨Expr.sound_routeList arguments, ?_⟩
    cases target with
    | ident line named => exact Route.sound_use named line true _
    | literal | operation | field | dynamicField | index | rows | lambda => exact indexed
  | .rows _ _ elements => Expr.sound_routeRows elements
  | .lambda line params body => by
    refine ⟨Route.sound_all fun route member => ?_, Expr.sound_route body⟩
    obtain ⟨param, _, rfl⟩ := List.mem_map.mp member
    exact Route.sound_define param line rfl

theorem Expr.sound_routeList : ∀ exprs : List Expr, (Expr.routeList exprs).Sound
  | [] => trivial
  | expr :: rest => ⟨Expr.sound_route expr, Expr.sound_routeList rest⟩

theorem Expr.sound_routeRows : ∀ rows : List (List Expr), (Expr.routeRows rows).Sound
  | [] => trivial
  | row :: rest => ⟨Expr.sound_routeList row, Expr.sound_routeRows rest⟩
end

theorem Expr.sound_targetRoute : ∀ (expr : Expr) {kind : OccurrenceKind}, kind.isSource = true →
    (expr.targetRoute kind).Sound
  | .ident line named, _, source => Route.sound_define named line source
  | .index _ _ target arguments, _, _ => ⟨Expr.sound_routeList arguments, Expr.sound_targetRoute target rfl⟩
  | .field _ object _, _, _ => Expr.sound_targetRoute object rfl
  | .dynamicField _ object selector, _, _ => ⟨Expr.sound_route selector, Expr.sound_targetRoute object rfl⟩
  | .literal line value, _, _ => Expr.sound_route (.literal line value)
  | .operation line spelling operands result, _, _ => Expr.sound_route (.operation line spelling operands result)
  | .rows line brackets elements, _, _ => Expr.sound_route (.rows line brackets elements)
  | .lambda line params body, _, _ => Expr.sound_route (.lambda line params body)

theorem Ident.sound_paramRoutes (line : SourceLine) (params : List Ident) :
    (Route.all (params.map (Ident.paramRoute line))).Sound := by
  apply Route.sound_all
  intro route member
  obtain ⟨param, _, rfl⟩ := List.mem_map.mp member
  unfold Ident.paramRoute
  cases param.init with
  | none => exact ⟨trivial, Route.sound_define param line rfl⟩
  | some init => exact ⟨init.sound_route, Route.sound_define param line rfl⟩

mutual
theorem Stmt.sound_route : ∀ statement : Stmt, statement.route.Sound
  | .expression _ value => value.sound_route
  | .assign line targets value => by
    refine ⟨value.sound_route, Route.sound_all fun route member => ?_, Route.sound_checkArity line _ value⟩
    obtain ⟨target, _, rfl⟩ := List.mem_map.mp member
    exact target.sound_targetRoute rfl
  | .branch _ condition thenBody none => ⟨condition.sound_route, Stmt.sound_routes thenBody, trivial⟩
  | .branch _ condition thenBody (some elseBody) =>
    ⟨condition.sound_route, Stmt.sound_routes thenBody, Stmt.sound_routes elseBody⟩
  | .forEach line loopName columns body =>
    ⟨columns.sound_route, ⟨Route.sound_define loopName line rfl, Stmt.sound_routes body⟩, trivial⟩
  | .whileLoop _ condition body => ⟨⟨condition.sound_route, Stmt.sound_routes body⟩, condition.sound_route⟩
  | .attempt line body handler none => ⟨⟨Stmt.sound_routes body, Handler.sound_route handler line⟩, trivial⟩
  | .attempt line body handler (some finallyBody) =>
    ⟨⟨Stmt.sound_routes body, Handler.sound_route handler line⟩, Stmt.sound_routes finallyBody⟩
  | .function line name params body => ⟨Ident.sound_paramRoutes line params, Stmt.sound_routes body⟩
  | .declare line declaration names => by
    apply Route.sound_all
    intro route member
    obtain ⟨name, _, rfl⟩ := List.mem_map.mp member
    exact Route.sound_declare declaration line name
  | .return _ none => trivial
  | .return _ (some value) => ⟨value.sound_route, trivial⟩
  | .word _ .break | .word _ .continue | .word _ .pass | .word _ .nothing | .comment .. => trivial

theorem Handler.sound_route : ∀ (handler : Handler) (line : SourceLine), (handler.route line).Sound
  | .absent, _ => trivial
  | .present none body, _ => ⟨trivial, trivial, Stmt.sound_routes body⟩
  | .present (some name) body, line => ⟨trivial, Route.sound_define name line rfl, Stmt.sound_routes body⟩

theorem Stmt.sound_routes : ∀ statements : List Stmt, (Route.block (Stmt.routes statements)).Sound
  | [] => ⟨trivial, trivial⟩
  | statement :: rest => by
    obtain ⟨own, after⟩ := Stmt.sound_routes rest
    have first := Stmt.sound_route statement
    match statement with
    | .function line name params [] => exact ⟨trivial, ⟨Ident.sound_paramRoutes line params, own⟩, after⟩
    | .function line name params (head :: tail) => exact ⟨trivial, first, own, after⟩
    | .branch .. | .attempt .. | .return .. | .expression .. | .assign .. | .forEach .. | .whileLoop ..
    | .declare .. | .word .. | .comment .. => exact ⟨⟨first, own⟩, after⟩
end

theorem Program.sound_route (program : Program) : program.route.Sound := Stmt.sound_routes program.statements

end ArrayLift
