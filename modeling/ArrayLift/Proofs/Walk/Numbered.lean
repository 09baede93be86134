import ArrayLift.Proofs.Walk.Tidy

/-! Numbering gives the identifiers of every piece of a program a range of identities of their own, in one
order; the route through the piece visits them within that range. -/
namespace ArrayLift

section
variable {ident : Ident} {first last : Nat} (id : ident.id = some first) (later : first < last)
include id later

theorem Route.spans_use (line : SourceLine) (indexed arrayOnly : Bool) :
    (Route.use ident line indexed arrayOnly).Spans first last := by
  simp only [Route.use, id]
  apply Spans.step later
  intro scope occurrence member
  cases member
  rfl

theorem Route.spans_define (line : SourceLine) (kind : OccurrenceKind) :
    (Route.define ident line kind).Spans first last := by
  simp only [Route.define, id]
  apply Spans.step later
  intro scope occurrence member
  cases member
  rfl

theorem Route.spans_declare (declaration : Declaration) (line : SourceLine) :
    (Route.declare declaration line ident).Spans first last := by
  simp only [Route.declare, id]
  apply Spans.step later
  intro scope occurrence member
  cases member
  rfl

end

/-- An identifier with its identity, before those of its default value. -/
structure Ident.Numbered (ident : Ident) (first last : Nat) : Prop where
  id : ident.id = some first
  later : first < last
  init : ∀ init ∈ ident.init, init.route.Spans (first + 1) last

/-- The default value of a parameter is visited first, although its identities come later. -/
theorem Ident.Numbered.param {ident : Ident} {first last : Nat} (numbered : ident.Numbered first last)
    (line : SourceLine) : (ident.paramRoute line).Spans first last := by
  have name : (Route.define ident line .parameter).Spans first (first + 1) :=
    Route.spans_define numbered.id (Nat.lt_succ_self first) line .parameter
  unfold Ident.paramRoute
  cases known : ident.init with
  | none => exact (Route.Spans.stay (Nat.le_refl first)).seq (name.widen (Nat.le_refl first) numbered.later)
  | some init => exact (numbered.init init known).seq_swap name

mutual
theorem Ident.numbered_withIds : ∀ (ident : Ident) (next : Nat),
    (ident.withIds next).1.Numbered next (ident.withIds next).2
  | .mk name none role reserved id, next =>
    ⟨rfl, Nat.lt_succ_self next, fun init member => by cases member⟩
  | .mk name (some init) role reserved id, next => by
    have inside := (Expr.spans_route init (next + 1)).1
    refine ⟨rfl, inside.ordered, fun other member => ?_⟩
    cases member
    exact inside

/-- The routes through an expression, as a value and as a target, stay within its identities. -/
theorem Expr.spans_route : ∀ (expr : Expr) (next : Nat),
    (expr.withIds next).1.route.Spans next (expr.withIds next).2 ∧
      ∀ kind, ((expr.withIds next).1.targetRoute kind).Spans next (expr.withIds next).2
  | .ident line named, next => by
    have numbered := Ident.numbered_withIds named next
    exact ⟨Route.spans_use numbered.id numbered.later line false false,
      Route.spans_define numbered.id numbered.later line⟩
  | .literal line value, next => by
    have here := Route.Spans.stay (Nat.le_refl next)
    exact ⟨here, fun _ => here⟩
  | .operation line spelling operands none, next => by
    have inside := Expr.spans_routeList operands next
    exact ⟨inside, fun _ => inside⟩
  | .operation line spelling operands (some result), next => by
    have inside := Expr.spans_routeList operands next
    have numbered := Ident.numbered_withIds result (Expr.withIdsList operands next).2
    have both := inside.seq (Route.spans_define numbered.id numbered.later line .definition)
    exact ⟨both, fun _ => both⟩
  | .field line object name, next => by
    have inside := Expr.spans_route object next
    exact ⟨inside.1, fun _ => inside.2 .partialDefinition⟩
  | .dynamicField line object selector, next => by
    have inside := Expr.spans_route object next
    have selected := (Expr.spans_route selector (object.withIds next).2).1
    exact ⟨inside.1.seq selected, fun _ => selected.seq_swap (inside.2 .partialDefinition)⟩
  | .index line form target arguments, next => by
    have inside := Expr.spans_route target next
    have given := Expr.spans_routeList arguments (target.withIds next).2
    refine ⟨?_, fun _ => given.seq_swap (inside.2 .partialDefinition)⟩
    apply given.seq_swap
    cases target with
    | ident line named =>
      have numbered := Ident.numbered_withIds named next
      exact Route.spans_use numbered.id numbered.later line true _
    | operation line spelling operands result => cases result <;> exact inside.1
    | literal | field | dynamicField | index | rows | lambda => exact inside.1
  | .rows line brackets elements, next => by
    have inside := Expr.spans_routeRows elements next
    exact ⟨inside, fun _ => inside⟩
  | .lambda line params body, next => by
    have bound := Ident.spans_routes params next (Route.define · line .parameter)
      fun ident _ _ numbered => Route.spans_define numbered.id numbered.later line .parameter
    have inside := (Expr.spans_route body (Ident.withIdsList params next).2).1
    have both := (bound.seq inside).aside
    exact ⟨both, fun _ => both⟩

theorem Expr.spans_routeList : ∀ (exprs : List Expr) (next : Nat),
    (Expr.routeList (Expr.withIdsList exprs next).1).Spans next (Expr.withIdsList exprs next).2
  | [], next => .stay (Nat.le_refl next)
  | expr :: rest, next =>
    (Expr.spans_route expr next).1.seq (Expr.spans_routeList rest (expr.withIds next).2)

theorem Expr.spans_routeRows : ∀ (rows : List (List Expr)) (next : Nat),
    (Expr.routeRows (Expr.withIdsRows rows next).1).Spans next (Expr.withIdsRows rows next).2
  | [], next => .stay (Nat.le_refl next)
  | row :: rest, next =>
    (Expr.spans_routeList row next).seq (Expr.spans_routeRows rest (Expr.withIdsList row next).2)

/-- Identifiers one after the other, each visited within its own identities. -/
theorem Ident.spans_routes : ∀ (idents : List Ident) (next : Nat) (route : Ident → Route),
    (∀ ident first last, ident.Numbered first last → (route ident).Spans first last) →
    (Route.all ((Ident.withIdsList idents next).1.map route)).Spans next (Ident.withIdsList idents next).2
  | [], next, _, _ => .stay (Nat.le_refl next)
  | ident :: rest, next, route, each =>
    (each _ next _ (Ident.numbered_withIds ident next)).seq
      (Ident.spans_routes rest (ident.withIds next).2 route each)
end

theorem Expr.spans_targets : ∀ (targets : List Expr) (next : Nat) (kind : OccurrenceKind),
    (Route.all ((Expr.withIdsList targets next).1.map (Expr.targetRoute · kind))).Spans next
      (Expr.withIdsList targets next).2
  | [], next, _ => .stay (Nat.le_refl next)
  | target :: rest, next, kind =>
    ((Expr.spans_route target next).2 kind).seq (Expr.spans_targets rest (target.withIds next).2 kind)

theorem Route.spans_checkArity (line : SourceLine) (targets : Nat) (value : Expr) (next : Nat) :
    (Route.checkArity line targets value).Spans next next := by
  unfold Route.checkArity
  split
  · exact .stay (Nat.le_refl next)
  · refine ⟨Nat.le_refl next, ?_, ?_, by simp [functionIds], by simp [functionIds], trivial, by simp [places]⟩ <;>
      simp [occurrences, Step.occurrence?]

mutual
theorem Stmt.spans_route : ∀ (statement : Stmt) (next : Nat),
    (statement.withIds next).1.route.Spans next (statement.withIds next).2
  | .expression line value, next => (Expr.spans_route value next).1
  | .assign line targets value, next => by
    have assigned := Expr.spans_targets targets next .definition
    have source := (Expr.spans_route value (Expr.withIdsList targets next).2).1
    exact source.seq_swap (assigned.seq (Route.spans_checkArity line _ _ _))
  | .branch line condition thenBody none, next => by
    have tested := (Expr.spans_route condition next).1
    have positive := Stmt.spans_block thenBody (condition.withIds next).2
    exact tested.seq (positive.fork (.stay (Nat.le_refl _)))
  | .branch line condition thenBody (some elseBody), next => by
    have tested := (Expr.spans_route condition next).1
    have positive := Stmt.spans_block thenBody (condition.withIds next).2
    have negative := Stmt.spans_block elseBody (Stmt.withIdsList thenBody (condition.withIds next).2).2
    exact tested.seq (positive.fork negative)
  | .forEach line loopName columns body, next => by
    have numbered := Ident.numbered_withIds loopName next
    have name := Route.spans_define numbered.id numbered.later line .definition
    have iterand := (Expr.spans_route columns (loopName.withIds next).2).1
    have inside := Stmt.spans_block body (columns.withIds (loopName.withIds next).2).2
    exact name.each (Route.simple_define _ _ _).functionIds (Expr.simple_route _).functionIds iterand inside
  | .whileLoop line condition body, next => by
    have tested := (Expr.spans_route condition next).1
    have inside := Stmt.spans_block body (condition.withIds next).2
    have simple := Expr.simple_route (condition.withIds next).1
    exact tested.again simple.functionIds simple.loopDefinitions inside
  | .attempt line body handler none, next => by
    have inside := Stmt.spans_block body next
    have handled := Handler.spans_route handler (Stmt.withIdsList body next).2 line
    exact (inside.attempt.seq handled).ensure (.stay (Nat.le_refl _))
  | .attempt line body handler (some finallyBody), next => by
    have inside := Stmt.spans_block body next
    have handled := Handler.spans_route handler (Stmt.withIdsList body next).2 line
    have behind := Stmt.spans_block finallyBody (handler.withIds (Stmt.withIdsList body next).2).2
    exact (inside.attempt.seq handled).ensure behind
  | .function line name params body, next => by
    have numbered := Ident.numbered_withIds name next
    have bound := Ident.spans_routes params (name.withIds next).2 (Ident.paramRoute line)
      fun ident _ _ numbered => numbered.param line
    have inside := Stmt.spans_block body (Ident.withIdsList params (name.withIds next).2).2
    have opened := (bound.seq inside).function (name.withIds next).1.name line numbered.later
    rw [← numbered.id] at opened
    exact opened
  | .declare line declaration names, next =>
    Ident.spans_routes names next (Route.declare declaration line)
      fun ident _ _ numbered => Route.spans_declare numbered.id numbered.later declaration line
  | .return _ none, next => .jump .returned (Nat.le_refl next)
  | .return _ (some value), next =>
    (Expr.spans_route value next).1.seq (.jump .returned (Nat.le_refl _))
  | .word _ .break, next => .jump .broken (Nat.le_refl next)
  | .word _ .continue, next => .jump .continued (Nat.le_refl next)
  | .word _ .pass, next => .stay (Nat.le_refl next)
  | .word _ .nothing, next => .stay (Nat.le_refl next)
  | .comment .., next => .stay (Nat.le_refl next)

theorem Handler.spans_route : ∀ (handler : Handler) (next : Nat) (line : SourceLine),
    ((handler.withIds next).1.route line).Spans next (handler.withIds next).2
  | .absent, next, _ => .stay (Nat.le_refl next)
  | .present none body, next, line => by
    have inside := Stmt.spans_block body next
    exact (Route.Spans.stay (Nat.le_refl next)).fork ((Route.Spans.stay (Nat.le_refl next)).seq inside)
  | .present (some name) body, next, line => by
    have numbered := Ident.numbered_withIds name next
    have caught := Route.spans_define numbered.id numbered.later line .definition
    have inside := Stmt.spans_block body (name.withIds next).2
    exact (Route.Spans.stay (Nat.le_refl next)).fork (caught.seq inside)

/-- The two routes of a list divide its identities between them. -/
theorem Stmt.spans_routes : ∀ (statements : List Stmt) (next : Nat), ∃ middle,
    (Stmt.routes (Stmt.withIdsList statements next).1).1.Spans next middle ∧
      (Stmt.routes (Stmt.withIdsList statements next).1).2.Spans middle (Stmt.withIdsList statements next).2
  | [], next => ⟨next, .stay (Nat.le_refl next), .stay (Nat.le_refl next)⟩
  | statement :: rest, next => by
    obtain ⟨middle, own, after⟩ := Stmt.spans_routes rest (statement.withIds next).2
    have first := Stmt.spans_route statement next
    match statement with
    | .function line name params [] =>
      have numbered := Ident.numbered_withIds name next
      have bound := Ident.spans_routes params (name.withIds next).2 (Ident.paramRoute line)
        fun ident _ _ numbered => numbered.param line
      have opened := (bound.seq own).function (name.withIds next).1.name line numbered.later
      rw [← numbered.id] at opened
      exact ⟨next, .stay (Nat.le_refl next), opened.seq after⟩
    | .function line name params (head :: tail) =>
      exact ⟨next, .stay (Nat.le_refl next), first.seq (own.seq after)⟩
    | .branch _ _ _ none | .branch _ _ _ (some _) | .attempt _ _ _ none | .attempt _ _ _ (some _)
    | .return _ none | .return _ (some _) | .expression .. | .assign .. | .forEach .. | .whileLoop ..
    | .declare .. | .word .. | .comment .. => exact ⟨middle, first.seq own, after⟩

theorem Stmt.spans_block (statements : List Stmt) (next : Nat) :
    (Route.block (Stmt.routes (Stmt.withIdsList statements next).1)).Spans next
      (Stmt.withIdsList statements next).2 := by
  obtain ⟨middle, own, after⟩ := Stmt.spans_routes statements next
  exact own.seq after
end

end ArrayLift
