import ArrayLift.Proofs.Annotation.Mentions

/-! The names of a program that are indexed or called where a value is read. The spine of an assigned target is not
read, but its arguments and selectors are; default values are read where the walk comes to them. On the route through
the program these are the uses of names that an index follows. -/
namespace ArrayLift

/-- A name with the arguments behind it. -/
structure Access where
  ident : Ident
  /-- The line of the name. -/
  line : SourceLine
  form : IndexForm
  arguments : List Expr

namespace Access

/-- Does the walk take the access for one that only arrays accept? -/
def arrayOnly (access : Access) : Bool :=
  access.form = .cellRef || Expr.anyArrayIndex access.arguments

/-- What the walk does at an access of a numbered name. -/
def step? (access : Access) : Option Step :=
  access.ident.id.map fun id => .use id access.ident.name access.line true access.arrayOnly

end Access

/-- The access that an index makes if its target is a name. -/
def Expr.accessed (form : IndexForm) (arguments : List Expr) : Expr → List Access
  | .ident line named => [⟨named, line, form, arguments⟩]
  | _ => []

mutual
/-- The accesses in an expression that is read. -/
def Expr.accesses : Expr → List Access
  | .ident .. | .literal .. => []
  | .operation _ _ operands _ => Expr.accessesList operands
  | .field _ object _ => Expr.accesses object
  | .dynamicField _ object selector => Expr.accesses object ++ Expr.accesses selector
  | .index _ form target arguments =>
    target.accessed form arguments ++ Expr.accesses target ++ Expr.accessesList arguments
  | .rows _ _ elements => Expr.accessesRows elements
  | .lambda _ _ body => Expr.accesses body

def Expr.accessesList : List Expr → List Access
  | [] => []
  | expr :: rest => Expr.accesses expr ++ Expr.accessesList rest

def Expr.accessesRows : List (List Expr) → List Access
  | [] => []
  | row :: rest => Expr.accessesList row ++ Expr.accessesRows rest
end

/-- The accesses in an assigned target. -/
def Expr.targetAccesses : Expr → List Access
  | .ident .. => []
  | .index _ _ target arguments => targetAccesses target ++ Expr.accessesList arguments
  | .field _ object _ => targetAccesses object
  | .dynamicField _ object selector => targetAccesses object ++ selector.accesses
  | other => other.accesses

/-- The accesses in the default value of a parameter of a function. -/
def Ident.paramAccesses (param : Ident) : List Access :=
  match param.init with
  | none => []
  | some init => init.accesses

mutual
def Stmt.accesses : Stmt → List Access
  | .expression _ value => value.accesses
  | .assign _ targets value => targets.flatMap Expr.targetAccesses ++ value.accesses
  | .branch _ condition thenBody none => condition.accesses ++ Stmt.accessesList thenBody
  | .branch _ condition thenBody (some elseBody) =>
    condition.accesses ++ Stmt.accessesList thenBody ++ Stmt.accessesList elseBody
  | .forEach _ _ columns body => columns.accesses ++ Stmt.accessesList body
  | .whileLoop _ condition body => condition.accesses ++ Stmt.accessesList body
  | .attempt _ body handler none => Stmt.accessesList body ++ Handler.accesses handler
  | .attempt _ body handler (some finallyBody) =>
    Stmt.accessesList body ++ Handler.accesses handler ++ Stmt.accessesList finallyBody
  | .function _ _ params body => params.flatMap Ident.paramAccesses ++ Stmt.accessesList body
  | .return _ (some value) => value.accesses
  | .return _ none | .declare .. | .word .. | .comment .. => []

def Handler.accesses : Handler → List Access
  | .absent => []
  | .present _ body => Stmt.accessesList body

def Stmt.accessesList : List Stmt → List Access
  | [] => []
  | statement :: rest => Stmt.accesses statement ++ Stmt.accessesList rest
end

def Program.accesses (program : Program) : List Access :=
  Stmt.accessesList program.statements

/-! Every access is a mention of its own. -/

/-- The names that are accessed are among those that are mentioned, in the same order. -/
def Access.Within (accesses : List Access) (mentions : List Mention) : Prop :=
  (accesses.map Access.ident).Sublist (mentions.map Mention.ident)

namespace Access.Within

variable {one other : List Access} {first second mentions : List Mention}

theorem nil (mentions : List Mention) : Within [] mentions :=
  List.nil_sublist _

theorem append (left : Within one first) (right : Within other second) : Within (one ++ other) (first ++ second) := by
  simp only [Within, List.map_append] at *
  exact left.append right

theorem behind (within : Within one mentions) (before : List Mention) : Within one (before ++ mentions) :=
  (nil before).append within

theorem before (within : Within one mentions) (behind : List Mention) : Within one (mentions ++ behind) := by
  have both := within.append (nil behind)
  rwa [List.append_nil] at both

end Access.Within

/-- An indexed name is mentioned itself. -/
theorem Expr.within_accessed {target : Expr} (within : Access.Within target.accesses target.mentions) (form : IndexForm)
    (arguments : List Expr) : Access.Within (target.accessed form arguments ++ target.accesses) target.mentions := by
  cases target with
  | ident line named =>
    obtain ⟨name, init, role, reserved, id⟩ := named
    cases init with
    | none => exact List.Sublist.refl _
    | some init => exact (List.nil_sublist _).cons_cons _
  | literal | operation | field | dynamicField | index | rows | lambda => exact within

mutual
theorem Expr.within_accesses : ∀ expr : Expr, Access.Within expr.accesses expr.mentions
  | .ident .. | .literal .. => .nil _
  | .operation _ _ operands none => Expr.within_accessesList operands
  | .operation _ _ operands (some _) => (Expr.within_accessesList operands).before _
  | .field _ object _ => Expr.within_accesses object
  | .dynamicField _ object selector => (Expr.within_accesses object).append (Expr.within_accesses selector)
  | .index _ form target arguments =>
    (Expr.within_accessed (Expr.within_accesses target) form arguments).append (Expr.within_accessesList arguments)
  | .rows _ _ elements => Expr.within_accessesRows elements
  | .lambda _ _ body => (Expr.within_accesses body).behind _

theorem Expr.within_accessesList : ∀ exprs : List Expr,
    Access.Within (Expr.accessesList exprs) (Expr.mentionsList exprs)
  | [] => .nil _
  | expr :: rest => (Expr.within_accesses expr).append (Expr.within_accessesList rest)

theorem Expr.within_accessesRows : ∀ rows : List (List Expr),
    Access.Within (Expr.accessesRows rows) (Expr.mentionsRows rows)
  | [] => .nil _
  | row :: rest => (Expr.within_accessesList row).append (Expr.within_accessesRows rest)
end

theorem Expr.within_targetAccesses : ∀ target : Expr, Access.Within target.targetAccesses target.mentions
  | .ident .. => .nil _
  | .index _ _ target arguments => (Expr.within_targetAccesses target).append (Expr.within_accessesList arguments)
  | .field _ object _ => Expr.within_targetAccesses object
  | .dynamicField _ object selector => (Expr.within_targetAccesses object).append selector.within_accesses
  | .literal line value => (Expr.literal line value).within_accesses
  | .operation line spelling operands result => (Expr.operation line spelling operands result).within_accesses
  | .rows line brackets elements => (Expr.rows line brackets elements).within_accesses
  | .lambda line params body => (Expr.lambda line params body).within_accesses

theorem Expr.within_targets (targets : List Expr) :
    Access.Within (targets.flatMap Expr.targetAccesses) (Expr.mentionsList targets) := by
  induction targets with
  | nil => exact .nil _
  | cons target rest ih => exact target.within_targetAccesses.append ih

theorem Ident.within_paramAccesses (params : List Ident) :
    Access.Within (params.flatMap Ident.paramAccesses) (params.flatMap Ident.paramMentions) := by
  induction params with
  | nil => exact .nil _
  | cons param rest ih =>
    refine Access.Within.append ?_ ih
    unfold paramAccesses paramMentions
    cases param.init with
    | none => exact .nil _
    | some init => exact init.within_accesses.behind [_]

mutual
theorem Stmt.within_accesses : ∀ statement : Stmt, Access.Within statement.accesses statement.mentions
  | .expression _ value => value.within_accesses
  | .assign _ targets value => (Expr.within_targets targets).append value.within_accesses
  | .branch _ condition thenBody none => condition.within_accesses.append (Stmt.within_accessesList thenBody)
  | .branch _ condition thenBody (some elseBody) =>
    (condition.within_accesses.append (Stmt.within_accessesList thenBody)).append (Stmt.within_accessesList elseBody)
  | .forEach _ _ columns body => (columns.within_accesses.behind _).append (Stmt.within_accessesList body)
  | .whileLoop _ condition body => condition.within_accesses.append (Stmt.within_accessesList body)
  | .attempt _ body handler none => (Stmt.within_accessesList body).append (Handler.within_accesses handler)
  | .attempt _ body handler (some finallyBody) =>
    ((Stmt.within_accessesList body).append (Handler.within_accesses handler)).append
      (Stmt.within_accessesList finallyBody)
  | .function _ _ params body =>
    ((Ident.within_paramAccesses params).behind _).append (Stmt.within_accessesList body)
  | .return _ (some value) => value.within_accesses
  | .return _ none | .declare .. | .word .. | .comment .. => .nil _

theorem Handler.within_accesses : ∀ handler : Handler, Access.Within handler.accesses handler.mentions
  | .absent => .nil _
  | .present none body => Stmt.within_accessesList body
  | .present (some _) body => (Stmt.within_accessesList body).behind _

theorem Stmt.within_accessesList : ∀ statements : List Stmt,
    Access.Within (Stmt.accessesList statements) (Stmt.mentionsList statements)
  | [] => .nil _
  | statement :: rest => (Stmt.within_accesses statement).append (Stmt.within_accessesList rest)
end

/-! Accesses on the route. -/

namespace Route

/-- The step stands on the route, in whatever scope. -/
def HasStep (action : Step) : Route → Prop
  | .stay | .jump _ => False
  | .step own => own = action
  | .seq first second | .fork first second | .ensure first second | .finish first second =>
    HasStep action first ∨ HasStep action second
  | .attempt body | .loop body | .aside body | .function _ _ _ body => HasStep action body

attribute [local simp] HasStep

theorem hasStep_iff_place (action : Step) (route : Route) (scope next : ScopeId) :
    route.HasStep action ↔ ∃ place ∈ route.places scope next, place.2 = action := by
  induction route generalizing scope next with
  | stay | jump _ => simp [places]
  | step own => simp [places]
  | seq first second ihFirst ihSecond | fork first second ihFirst ihSecond | ensure first second ihFirst ihSecond
  | finish first second ihFirst ihSecond =>
    simp only [HasStep, places, List.mem_append, or_and_right, exists_or]
    exact or_congr (ihFirst scope next) (ihSecond scope _)
  | attempt body ih | loop body ih | aside body ih => exact ih scope next
  | function id name line body ih => exact ih next (next + 1)

/-- The uses on the route that an index follows are those of the accesses. -/
def Indexes (route : Route) (accesses : List Access) : Prop :=
  ∀ id name line arrayOnly, route.HasStep (.use id name line true arrayOnly) ↔
    ∃ access ∈ accesses, access.step? = some (.use id name line true arrayOnly)

namespace Indexes

variable {first second : Route} {one other : List Access}

theorem none {route : Route} (free : ∀ id name line arrayOnly, ¬route.HasStep (.use id name line true arrayOnly)) :
    route.Indexes [] := by
  intro id name line arrayOnly
  simp [free]

theorem stay : Route.stay.Indexes [] :=
  .none fun _ _ _ _ => not_false

theorem jump (exit : Exit) : (Route.jump exit).Indexes [] :=
  .none fun _ _ _ _ => not_false

theorem seq (left : first.Indexes one) (right : second.Indexes other) :
    (Route.seq first second).Indexes (one ++ other) := by
  intro id name line arrayOnly
  simp only [HasStep, left id name line arrayOnly, right id name line arrayOnly, List.mem_append, or_and_right,
    exists_or]

theorem fork (left : first.Indexes one) (right : second.Indexes other) :
    (Route.fork first second).Indexes (one ++ other) :=
  left.seq right

theorem finish (left : first.Indexes one) (right : second.Indexes other) :
    (Route.finish first second).Indexes (one ++ other) :=
  left.seq right

theorem ensure (left : first.Indexes one) (right : second.Indexes other) :
    (Route.ensure first second).Indexes (one ++ other) :=
  left.seq right

theorem attempt (indexes : first.Indexes one) : (Route.attempt first).Indexes one := indexes

theorem loop (indexes : first.Indexes one) : (Route.loop first).Indexes one := indexes

/-- The walk may come to the accesses in another order. -/
theorem swap (left : first.Indexes one) (right : second.Indexes other) :
    (Route.seq second first).Indexes (one ++ other) := by
  intro id name line arrayOnly
  exact Or.comm.trans (left.seq right id name line arrayOnly)

theorem before (indexes : first.Indexes one) (free : second.Indexes []) : (Route.seq first second).Indexes one := by
  have both := indexes.seq free
  rwa [List.append_nil] at both

theorem behind (free : first.Indexes []) (indexes : second.Indexes one) : (Route.seq first second).Indexes one :=
  free.seq indexes

theorem use (ident : Ident) (line : SourceLine) (arrayOnly : Bool) :
    (Route.use ident line false arrayOnly).Indexes [] := by
  unfold Route.use
  split <;> exact .none (by simp)

theorem define (ident : Ident) (line : SourceLine) (kind : OccurrenceKind) :
    (Route.define ident line kind).Indexes [] := by
  unfold Route.define
  split <;> exact .none (by simp)

theorem declare (declaration : Declaration) (line : SourceLine) (ident : Ident) :
    (Route.declare declaration line ident).Indexes [] := by
  unfold Route.declare
  split <;> exact .none (by simp)

theorem checkArity (line : SourceLine) (targets : Nat) (value : Expr) :
    (Route.checkArity line targets value).Indexes [] := by
  unfold Route.checkArity
  split <;> exact .none (by simp)

theorem access (access : Access) : (Route.use access.ident access.line true access.arrayOnly).Indexes [access] := by
  intro id name line arrayOnly
  unfold Route.use
  split <;> simp_all [HasStep, Access.step?]

theorem all {α : Type} (items : List α) {route : α → Route} {accesses : α → List Access}
    (each : ∀ item, (route item).Indexes (accesses item)) :
    (Route.all (items.map route)).Indexes (items.flatMap accesses) := by
  induction items with
  | nil => exact .stay
  | cons item rest ih => exact (each item).seq ih

theorem all_none {α : Type} (items : List α) {route : α → Route} (each : ∀ item, (route item).Indexes []) :
    (Route.all (items.map route)).Indexes [] := by
  induction items with
  | nil => exact .stay
  | cons item rest ih => exact (each item).behind ih

end Indexes
end Route

mutual
theorem Expr.indexes_route : ∀ expr : Expr, expr.route.Indexes expr.accesses
  | .ident line named => .use named line false
  | .literal .. => .stay
  | .operation _ _ operands none => Expr.indexes_routeList operands
  | .operation line _ operands (some result) =>
    (Expr.indexes_routeList operands).before (.define result line .definition)
  | .field _ object _ => Expr.indexes_route object
  | .dynamicField _ object selector => (Expr.indexes_route object).seq (Expr.indexes_route selector)
  | .index line form target arguments => by
    have inner := Expr.indexes_route target
    refine Route.Indexes.swap ?_ (Expr.indexes_routeList arguments)
    -- A name that is indexed is an access; everything else is walked as it is.
    cases target with
    | ident line named => exact .access ⟨named, line, form, arguments⟩
    | operation line spelling operands result => cases result <;> exact inner
    | literal | field | dynamicField | index | rows | lambda => exact inner
  | .rows _ _ elements => Expr.indexes_routeRows elements
  | .lambda line params body =>
    .behind (.all_none params fun param => .define param line .parameter) (Expr.indexes_route body)

theorem Expr.indexes_routeList : ∀ exprs : List Expr, (Expr.routeList exprs).Indexes (Expr.accessesList exprs)
  | [] => .stay
  | expr :: rest => (Expr.indexes_route expr).seq (Expr.indexes_routeList rest)

theorem Expr.indexes_routeRows : ∀ rows : List (List Expr), (Expr.routeRows rows).Indexes (Expr.accessesRows rows)
  | [] => .stay
  | row :: rest => (Expr.indexes_routeList row).seq (Expr.indexes_routeRows rest)
end

theorem Expr.indexes_targetRoute : ∀ (target : Expr) (kind : OccurrenceKind),
    (target.targetRoute kind).Indexes target.targetAccesses
  | .ident line named, kind => .define named line kind
  | .index _ _ target arguments, _ =>
    (Expr.indexes_targetRoute target .partialDefinition).swap (Expr.indexes_routeList arguments)
  | .field _ object _, _ => Expr.indexes_targetRoute object .partialDefinition
  | .dynamicField _ object selector, _ =>
    (Expr.indexes_targetRoute object .partialDefinition).swap selector.indexes_route
  | .literal line value, _ => (Expr.literal line value).indexes_route
  | .operation line spelling operands result, _ => (Expr.operation line spelling operands result).indexes_route
  | .rows line brackets elements, _ => (Expr.rows line brackets elements).indexes_route
  | .lambda line params body, _ => (Expr.lambda line params body).indexes_route

theorem Ident.indexes_paramRoute (line : SourceLine) (param : Ident) :
    (param.paramRoute line).Indexes param.paramAccesses := by
  refine Route.Indexes.before ?_ (.define param line .parameter)
  unfold paramAccesses
  cases param.init with
  | none => exact .stay
  | some init => exact init.indexes_route

mutual
theorem Stmt.indexes_route : ∀ statement : Stmt, statement.route.Indexes statement.accesses
  | .expression _ value => value.indexes_route
  | .assign line targets value => by
    have assigned := Route.Indexes.all targets fun target => target.indexes_targetRoute .definition
    exact (assigned.before (.checkArity line targets.length value)).swap value.indexes_route
  | .branch _ condition thenBody none => by
    have inside := (Stmt.indexes_block thenBody).fork .stay
    rw [List.append_nil] at inside
    exact condition.indexes_route.seq inside
  | .branch _ condition thenBody (some elseBody) => by
    rw [Stmt.accesses, List.append_assoc]
    exact condition.indexes_route.seq ((Stmt.indexes_block thenBody).fork (Stmt.indexes_block elseBody))
  | .forEach line loopName columns body => by
    have pass := Route.Indexes.behind (.define loopName line .definition) (Stmt.indexes_block body)
    have inside := pass.loop.finish .stay
    rw [List.append_nil] at inside
    exact columns.indexes_route.seq inside
  | .whileLoop _ condition body => by
    have tested := condition.indexes_route
    have inside := tested.seq (Stmt.indexes_block body)
    -- The condition stands on the route twice.
    intro id name line arrayOnly
    refine Iff.trans ?_ (inside id name line arrayOnly)
    exact or_iff_left_of_imp Or.inl
  | .attempt line body handler none => by
    have inside := (Stmt.indexes_block body).attempt.seq (Handler.indexes_route handler line)
    have both := inside.ensure .stay
    rwa [List.append_nil] at both
  | .attempt line body handler (some finallyBody) =>
    ((Stmt.indexes_block body).attempt.seq (Handler.indexes_route handler line)).ensure (Stmt.indexes_block finallyBody)
  | .function line name params body =>
    (Route.Indexes.all params (Ident.indexes_paramRoute line)).seq (Stmt.indexes_block body)
  | .declare line declaration names => .all_none names (.declare declaration line)
  | .return _ (some value) => value.indexes_route.before (.jump .returned)
  | .return _ none => .jump .returned
  | .word _ .break => .jump .broken
  | .word _ .continue => .jump .continued
  | .word _ .pass | .word _ .nothing | .comment .. => .stay

theorem Handler.indexes_route : ∀ (handler : Handler) (line : SourceLine), (handler.route line).Indexes handler.accesses
  | .absent, _ => .stay
  | .present none body, _ => Route.Indexes.stay.fork (Route.Indexes.stay.behind (Stmt.indexes_block body))
  | .present (some name) body, line => by
    have caught := Route.Indexes.behind (.define name line .definition) (Stmt.indexes_block body)
    exact Route.Indexes.stay.fork caught

theorem Stmt.indexes_block : ∀ statements : List Stmt,
    (Route.block (Stmt.routes statements)).Indexes (Stmt.accessesList statements)
  | [] => Route.Indexes.stay.behind .stay
  | statement :: rest => by
    have both := (Stmt.indexes_route statement).seq (Stmt.indexes_block rest)
    intro id name line arrayOnly
    refine Iff.trans ?_ (both id name line arrayOnly)
    match statement with
    | .function _ _ params [] =>
      simp only [Stmt.routes, Stmt.route, Route.block, Route.HasStep, false_or, or_false, or_assoc]
    | .function _ _ params (head :: tail) =>
      simp only [Stmt.routes, Route.block, Route.HasStep, false_or]
    | .branch _ _ _ none | .branch _ _ _ (some _) | .attempt _ _ _ none | .attempt _ _ _ (some _)
    | .return _ none | .return _ (some _) | .expression .. | .assign .. | .forEach .. | .whileLoop ..
    | .declare .. | .word .. | .comment .. =>
      exact or_assoc
end

end ArrayLift
