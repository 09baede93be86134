import ArrayLift.Proofs.Annotation.Idempotence
import ArrayLift.Proofs.Annotation.Mentions
import ArrayLift.Proofs.Arity.Agreement

/-! Numbering, the walk and annotation traverse the tree each on its own. Numbering and annotation come to every
identifier. The walk comes to all but those in default values that are not of a parameter of a function, so these
are the ones that the table does not know in the end. -/
namespace ArrayLift

/-- A step comes to an identifier of this identity and name. -/
def Step.Passes (id : IdentId) (name : String) : Step → Prop
  | .use own called .. | .define own called .. | .declare _ own called _ => own = id ∧ called = name
  | .checkArity .. => False

/-- A route comes to it. -/
def Route.Passes (id : IdentId) (name : String) : Route → Prop
  | .stay | .jump _ => False
  | .step action => action.Passes id name
  | .seq first second | .fork first second | .ensure first second | .finish first second =>
    Passes id name first ∨ Passes id name second
  | .attempt body | .loop body | .aside body => Passes id name body
  | .function own called _ body => (own = some id ∧ called = name) ∨ Passes id name body

attribute [local simp] Step.Passes Route.Passes

/-- The walk comes to a mention of this identity and name. -/
def Marked (id : IdentId) (name : String) (mentions : List Mention) : Prop :=
  ∃ mention ∈ mentions, mention.walked ∧ mention.ident.id = some id ∧ mention.ident.name = name

section
variable {id : IdentId} {name : String}

theorem Route.passes_iff_occurrence (route : Route) (scope next : ScopeId) :
    route.Passes id name ↔
      ∃ occurrence ∈ route.occurrences scope next, occurrence.id = id ∧ occurrence.name = name := by
  induction route generalizing scope next with
  | stay | jump _ => simp [occurrences]
  | step action => cases action <;> simp [occurrences, Step.occurrence?]
  | seq first second ihFirst ihSecond | fork first second ihFirst ihSecond | ensure first second ihFirst ihSecond
  | finish first second ihFirst ihSecond =>
    simp only [Passes, occurrences, List.mem_append, or_and_right, exists_or]
    exact or_congr (ihFirst scope next) (ihSecond scope _)
  | attempt body ih | loop body ih | aside body ih => exact ih scope next
  | function own called line body ih =>
    simp only [Passes, occurrences, List.mem_append, or_and_right, exists_or]
    refine or_congr ?_ (ih next (next + 1))
    cases own <;> simp

theorem Route.passes_use (ident : Ident) (line : SourceLine) (indexed arrayOnly : Bool) :
    (use ident line indexed arrayOnly).Passes id name ↔ ident.id = some id ∧ ident.name = name := by
  unfold use
  cases ident.id <;> simp

theorem Route.passes_define (ident : Ident) (line : SourceLine) (kind : OccurrenceKind) :
    (define ident line kind).Passes id name ↔ ident.id = some id ∧ ident.name = name := by
  unfold define
  cases ident.id <;> simp

theorem Route.passes_declare (declaration : Declaration) (line : SourceLine) (ident : Ident) :
    (declare declaration line ident).Passes id name ↔ ident.id = some id ∧ ident.name = name := by
  unfold declare
  cases ident.id <;> simp

theorem Route.not_passes_checkArity (line : SourceLine) (targets : Nat) (value : Expr) :
    ¬(checkArity line targets value).Passes id name := by
  unfold checkArity
  split <;> simp

theorem Marked.nil : ¬Marked id name [] := by
  simp [Marked]

theorem Marked.append (one other : List Mention) :
    Marked id name (one ++ other) ↔ Marked id name one ∨ Marked id name other := by
  simp only [Marked, List.mem_append, or_and_right, exists_or]

theorem Marked.cons (mention : Mention) (rest : List Mention) :
    Marked id name (mention :: rest) ↔
      (mention.walked ∧ mention.ident.id = some id ∧ mention.ident.name = name) ∨ Marked id name rest := by
  simp only [Marked, List.exists_mem_cons_iff]

theorem Marked.passedBy (mentions : List Mention) : ¬Marked id name (mentions.map Mention.passedBy) := by
  simp [Marked, Mention.passedBy]

theorem Ident.marked (ident : Ident) :
    Marked id name ident.mentions ↔ ident.id = some id ∧ ident.name = name := by
  obtain ⟨_, init, _, _, _⟩ := ident
  cases init with
  | none => simp [Ident.mentions, Marked.cons, Marked.nil, Mention.plain]
  | some init => simp [Ident.mentions, Marked.cons, Marked.passedBy, Mention.plain]

theorem Ident.passes_all (route : Ident → Route) (list : List Ident)
    (each : ∀ ident, (route ident).Passes id name ↔ ident.id = some id ∧ ident.name = name) :
    (Route.all (list.map route)).Passes id name ↔ Marked id name (Ident.mentionsList list) := by
  induction list with
  | nil => simp [Route.all, Ident.mentionsList, Marked.nil]
  | cons ident rest ih =>
    simp only [List.map_cons, Route.all, Route.Passes, Ident.mentionsList, Marked.append, ih, each, Ident.marked]

mutual
theorem Expr.passes_route : ∀ expr : Expr, expr.route.Passes id name ↔ Marked id name expr.mentions
  | .ident line named => by
    simp only [Expr.route, Expr.mentions, Route.passes_use, Ident.marked]
  | .literal .. => by simp [Expr.route, Expr.mentions, Marked.nil]
  | .operation _ _ operands none => Expr.passes_routeList operands
  | .operation _ _ operands (some result) => by
    simp only [Expr.route, Expr.mentions, Route.Passes, Marked.append, Expr.passes_routeList operands,
      Route.passes_define, Ident.marked]
  | .field _ object _ => Expr.passes_route object
  | .dynamicField _ object selector => by
    simp only [Expr.route, Expr.mentions, Route.Passes, Marked.append, Expr.passes_route object,
      Expr.passes_route selector]
  | .index line form target arguments => by
    have inner := Expr.passes_route target
    have before := Expr.passes_routeList arguments
    -- A name that is indexed is used in a way of its own; everything else is walked as it is.
    rw [Expr.mentions, Marked.append, ← inner, ← before, Or.comm]
    cases target with
    | ident line named => simp only [Expr.route, Route.Passes, Route.passes_use]
    | operation line spelling operands result => cases result <;> exact Iff.rfl
    | literal | field | dynamicField | index | rows | lambda => exact Iff.rfl
  | .rows _ _ elements => Expr.passes_routeRows elements
  | .lambda line params body => by
    have bound : (Route.all (params.map (Route.define · line .parameter))).Passes id name ↔ _ :=
      Ident.passes_all _ params fun param => Route.passes_define param line .parameter
    simp only [Expr.route, Expr.mentions, Route.Passes, Marked.append, bound, Expr.passes_route body]

theorem Expr.passes_routeList : ∀ exprs : List Expr,
    (Expr.routeList exprs).Passes id name ↔ Marked id name (Expr.mentionsList exprs)
  | [] => by simp [Expr.routeList, Expr.mentionsList, Marked.nil]
  | expr :: rest => by
    simp only [Expr.routeList, Expr.mentionsList, Route.Passes, Marked.append, Expr.passes_route expr,
      Expr.passes_routeList rest]

theorem Expr.passes_routeRows : ∀ rows : List (List Expr),
    (Expr.routeRows rows).Passes id name ↔ Marked id name (Expr.mentionsRows rows)
  | [] => by simp [Expr.routeRows, Expr.mentionsRows, Marked.nil]
  | row :: rest => by
    simp only [Expr.routeRows, Expr.mentionsRows, Route.Passes, Marked.append, Expr.passes_routeList row,
      Expr.passes_routeRows rest]
end

theorem Expr.passes_targetRoute : ∀ (expr : Expr) (kind : OccurrenceKind),
    (expr.targetRoute kind).Passes id name ↔ Marked id name expr.mentions
  | .ident line named, kind => by
    simp only [Expr.targetRoute, Expr.mentions, Route.passes_define, Ident.marked]
  | .index _ _ target arguments, _ => by
    simp only [Expr.targetRoute, Expr.mentions, Route.Passes, Marked.append, Expr.passes_routeList,
      Expr.passes_targetRoute target, Or.comm]
  | .field _ object _, _ => Expr.passes_targetRoute object .partialDefinition
  | .dynamicField _ object selector, _ => by
    simp only [Expr.targetRoute, Expr.mentions, Route.Passes, Marked.append, Expr.passes_route,
      Expr.passes_targetRoute object, Or.comm]
  | .literal line value, _ => Expr.passes_route (.literal line value)
  | .operation line spelling operands result, _ => Expr.passes_route (.operation line spelling operands result)
  | .rows line brackets elements, _ => Expr.passes_route (.rows line brackets elements)
  | .lambda line params body, _ => Expr.passes_route (.lambda line params body)

theorem Expr.passes_targetRoutes (targets : List Expr) :
    (Route.all (targets.map (Expr.targetRoute · .definition))).Passes id name ↔
      Marked id name (Expr.mentionsList targets) := by
  induction targets with
  | nil => simp [Route.all, Expr.mentionsList, Marked.nil]
  | cons target rest ih =>
    simp only [List.map_cons, Route.all, Route.Passes, Expr.mentionsList, Marked.append, ih,
      Expr.passes_targetRoute]

theorem Ident.passes_paramRoute (line : SourceLine) (param : Ident) :
    (param.paramRoute line).Passes id name ↔ Marked id name param.paramMentions := by
  obtain ⟨_, init, _, _, _⟩ := param
  cases init with
  | none =>
    simp [Ident.paramRoute, Ident.paramMentions, Ident.init, Route.Passes, Route.passes_define, Marked.cons,
      Marked.nil, Mention.param]
  | some init =>
    simp [Ident.paramRoute, Ident.paramMentions, Ident.init, Route.Passes, Route.passes_define, Marked.cons,
      Expr.passes_route, Mention.param, or_comm]

theorem Ident.passes_paramRoutes (line : SourceLine) (params : List Ident) :
    (Route.all (params.map (Ident.paramRoute line))).Passes id name ↔
      Marked id name (params.flatMap Ident.paramMentions) := by
  induction params with
  | nil => simp [Route.all, Marked.nil]
  | cons param rest ih =>
    simp only [List.map_cons, Route.all, Route.Passes, List.flatMap_cons, Marked.append, ih,
      Ident.passes_paramRoute]

mutual
theorem Stmt.passes_route : ∀ statement : Stmt,
    statement.route.Passes id name ↔ Marked id name statement.mentions
  | .expression _ value => value.passes_route
  | .assign line targets value => by
    simp only [Stmt.route, Stmt.mentions, Route.Passes, Marked.append, Expr.passes_route, Expr.passes_targetRoutes,
      Route.not_passes_checkArity]
    grind
  | .branch _ condition thenBody none => by
    simp only [Stmt.route, Stmt.mentions, Route.Passes, Marked.append, Expr.passes_route,
      Stmt.passes_block thenBody, or_false]
  | .branch _ condition thenBody (some elseBody) => by
    simp only [Stmt.route, Stmt.mentions, Route.Passes, Marked.append, Expr.passes_route,
      Stmt.passes_block thenBody, Stmt.passes_block elseBody, or_assoc]
  | .forEach line loopName columns body => by
    simp only [Stmt.route, Stmt.mentions, Route.Passes, Marked.append, Expr.passes_route, Route.passes_define,
      Ident.marked, Stmt.passes_block body, or_false]
    grind
  | .whileLoop _ condition body => by
    simp only [Stmt.route, Stmt.mentions, Route.Passes, Marked.append, Expr.passes_route, Stmt.passes_block body]
    grind
  | .attempt line body handler none => by
    simp only [Stmt.route, Stmt.mentions, Route.Passes, Marked.append, Stmt.passes_block body,
      Handler.passes_route handler, or_false]
  | .attempt line body handler (some finallyBody) => by
    simp only [Stmt.route, Stmt.mentions, Route.Passes, Marked.append, Stmt.passes_block body,
      Handler.passes_route handler, Stmt.passes_block finallyBody]
  | .function line called params body => by
    simp only [Stmt.route, Stmt.mentions, Route.Passes, Marked.append, Ident.marked, Ident.passes_paramRoutes,
      Stmt.passes_block body, or_assoc]
  | .declare line declaration names =>
    Ident.passes_all (Route.declare declaration line) names (Route.passes_declare declaration line)
  | .return _ none => by simp [Stmt.route, Stmt.mentions, Marked.nil]
  | .return _ (some value) => by
    simp only [Stmt.route, Stmt.mentions, Route.Passes, Expr.passes_route, or_false]
  | .word _ .break | .word _ .continue | .word _ .pass | .word _ .nothing | .comment .. => by
    simp [Stmt.route, Stmt.mentions, Marked.nil]

theorem Handler.passes_route : ∀ (handler : Handler) (line : SourceLine),
    (handler.route line).Passes id name ↔ Marked id name handler.mentions
  | .absent, _ => by simp [Handler.route, Handler.mentions, Marked.nil]
  | .present none body, _ => by
    simp only [Handler.route, Handler.mentions, Route.Passes, Stmt.passes_block body, false_or]
  | .present (some called) body, line => by
    simp only [Handler.route, Handler.mentions, Route.Passes, Marked.append, Route.passes_define, Ident.marked,
      Stmt.passes_block body, false_or]

theorem Stmt.passes_block : ∀ statements : List Stmt,
    (Route.block (Stmt.routes statements)).Passes id name ↔ Marked id name (Stmt.mentionsList statements)
  | [] => by simp [Stmt.routes, Stmt.mentionsList, Route.block, Marked.nil]
  | statement :: rest => by
    have first := Stmt.passes_route statement
    have others := Stmt.passes_block rest
    rw [Stmt.mentionsList, Marked.append, ← first, ← others]
    match statement with
    | .function line called params [] =>
      simp only [Stmt.routes, Stmt.route, Route.block, Route.Passes]
      grind
    | .function line called params (head :: tail) =>
      simp only [Stmt.routes, Route.block, Route.Passes, false_or]
    | .branch _ _ _ none | .branch _ _ _ (some _) | .attempt _ _ _ none | .attempt _ _ _ (some _)
    | .return _ none | .return _ (some _) | .expression .. | .assign .. | .forEach .. | .whileLoop ..
    | .declare .. | .word .. | .comment .. =>
      exact or_assoc
end

end

/-- An identifier of a resolved tree is recorded: under its identity the table has an occurrence of its name, and
the two agree that it denotes a variable, or that it denotes a function. -/
def Ident.Recorded (table : ScopeTable) (ident : Ident) : Prop :=
  ∃ id occurrence, ident.id = some id ∧ table.occurrence? id = some occurrence ∧ occurrence.name = ident.name ∧
    occurrence.role ≠ .unknown ∧ ident.role = occurrence.role

/-- A name that a numbered tree mentions where the walk comes to it, and only such a name, is an occurrence. -/
theorem Program.marked_iff_occurrence (program : Program) (id : IdentId) (name : String) :
    Marked id name program.withIds.1.mentions ↔
      ∃ occurrence ∈ program.census.occurrences, occurrence.id = id ∧ occurrence.name = name :=
  (Stmt.passes_block program.withIds.1.statements).symm.trans
    (program.withIds.1.route.passes_iff_occurrence ScopeTable.script 1)

section
variable (program : Program) (settings : Settings)

/-- The mentions of a resolved tree are those of the numbered one, annotated. -/
theorem Program.mentions_resolve :
    (program.resolve settings).program.mentions =
      program.withIds.1.mentions.map
        (Mention.annotate (program.resolve settings).analysis.table settings.reserved) :=
  program.withIds.1.mentions_annotate _ settings.reserved

theorem Program.unmarked_resolve : (program.resolve settings).program.unmarked = program.unmarked :=
  (program.withIds.1.unmarked_annotate _ settings.reserved).trans program.unmarked_withIds

/-- What the walk passes by does not depend on identities and annotations. -/
theorem Program.all_walked_congr {one other : Program} (same : one.unmarked = other.unmarked) :
    (∀ mention ∈ one.mentions, mention.walked = true) ↔ ∀ mention ∈ other.mentions, mention.walked = true := by
  rw [← one.forall_mentions_unmarked fun _ => Iff.rfl, same]
  exact other.forall_mentions_unmarked fun _ => Iff.rfl

theorem Program.occurrence_of_walked {mention : Mention} (member : mention ∈ program.withIds.1.mentions)
    (walked : mention.walked = true) :
    ∃ occurrence ∈ program.census.occurrences,
      mention.ident.id = some occurrence.id ∧ occurrence.name = mention.ident.name := by
  obtain ⟨id, numbered, _⟩ := program.counted_withIds.id_of_mem member
  obtain ⟨occurrence, inside, rfl, named⟩ :=
    (program.marked_iff_occurrence id mention.ident.name).mp ⟨mention, member, walked, numbered, rfl⟩
  exact ⟨occurrence, inside, numbered, named⟩

theorem Program.recorded_of_walked {mention : Mention} (member : mention ∈ program.withIds.1.mentions)
    (walked : mention.walked = true) :
    let table := (program.resolve settings).analysis.table
    (mention.annotate table settings.reserved).ident.Recorded table := by
  intro table
  obtain ⟨occurrence, inside, numbered, named⟩ := program.occurrence_of_walked member walked
  have found : table.occurrence? occurrence.id = _ := program.resolve_occurrence? settings inside
  have known := DefUse.Graph.roleOf_known (program.resolve settings).analysis.graph occurrence
  have role : table.roleOf occurrence.id = (program.resolve settings).analysis.graph.roleOf occurrence :=
    program.resolve_roleOf settings inside
  refine ⟨occurrence.id, _, ?_, found, ?_, known, ?_⟩
  · exact (mention.ident.id_annotate table settings.reserved).trans numbered
  · exact named.trans (mention.ident.name_annotate table settings.reserved).symm
  · have written : (mention.ident.annotate table settings.reserved).1.role = _ :=
      mention.ident.role_annotate table settings.reserved
    rw [numbered, table.roleFor_known (role ▸ known)] at written
    exact written.trans role

theorem Program.occurrence?_of_passedBy {mention : Mention} (member : mention ∈ program.withIds.1.mentions)
    (passed : mention.walked = false) {id : IdentId} (numbered : mention.ident.id = some id) :
    (program.resolve settings).analysis.table.occurrence? id = none := by
  refine List.find?_eq_none.mpr fun occurrence listed same => ?_
  obtain ⟨origin, inside, rfl⟩ := (program.resolve_occurrences settings occurrence).mp listed
  have same : origin.id = id := by simpa using same
  obtain ⟨other, there, walked, known, _⟩ :=
    (program.marked_iff_occurrence id origin.name).mpr ⟨origin, inside, same, rfl⟩
  obtain rfl := program.counted_withIds.single member there (numbered.trans known.symm)
  simp [passed] at walked

end

/-- After resolution every identifier of the tree has a number of its own. Those that the walk comes to are recorded,
and the table does not know the others; so all are recorded exactly if no default value that is not of a parameter of
a function mentions an identifier. -/
theorem Program.recorded_iff_walked (program : Program) (settings : Settings) :
    let resolution := program.resolve settings
    let table := resolution.analysis.table
    Counted resolution.program.mentions 0 program.withIds.2 ∧
      (∀ mention ∈ resolution.program.mentions,
        (mention.walked = true → mention.ident.Recorded table) ∧
          (mention.walked = false → ∃ id, mention.ident.id = some id ∧ table.occurrence? id = none)) ∧
      ((∀ mention ∈ resolution.program.mentions, mention.ident.Recorded table) ↔
        ∀ mention ∈ program.mentions, mention.walked = true) := by
  intro resolution table
  have mentions : resolution.program.mentions = _ := program.mentions_resolve settings
  have each : ∀ mention ∈ resolution.program.mentions, (mention.walked = true → mention.ident.Recorded table) ∧
      (mention.walked = false → ∃ id, mention.ident.id = some id ∧ table.occurrence? id = none) := by
    rw [mentions, List.forall_mem_map]
    intro mention member
    refine ⟨program.recorded_of_walked settings member, fun passed => ?_⟩
    obtain ⟨id, numbered, _⟩ := program.counted_withIds.id_of_mem member
    exact ⟨id, (mention.ident.id_annotate table settings.reserved).trans numbered,
      program.occurrence?_of_passedBy settings member passed numbered⟩
  refine ⟨mentions ▸ program.counted_withIds.annotate table settings.reserved, each, ?_⟩
  refine Iff.trans (forall₂_congr fun mention member => ?_)
    (Program.all_walked_congr (program.unmarked_resolve settings))
  obtain ⟨recorded, unrecorded⟩ := each mention member
  refine ⟨fun settled => ?_, recorded⟩
  by_contra passed
  obtain ⟨id, numbered, missing⟩ := unrecorded (Bool.not_eq_true _ ▸ passed)
  obtain ⟨own, occurrence, same, found, _⟩ := settled
  obtain rfl : id = own := Option.some.inj (numbered.symm.trans same)
  rw [missing] at found
  cases found

/-- A lambda whose parameter has a default value. -/
def Program.defaultOfLambda : Program :=
  ⟨[.expression 1 (.lambda 1 [.mk "p" (some (.ident 1 (.named "q"))) .unknown false none]
    (.ident 1 (.named "p")))]⟩

/-- The name in the default value has a number and neither a record nor a role. -/
theorem defaultOfLambda_unrecorded :
    let resolution := Program.defaultOfLambda.resolve {}
    resolution.program.mentions.map (fun mention => (mention.ident.name, mention.ident.id, mention.ident.role)) =
        [("p", some 0, .variable), ("q", some 1, .unknown), ("p", some 2, .variable)] ∧
      resolution.analysis.table.occurrence? 1 = none ∧
      ¬∀ mention ∈ resolution.program.mentions, mention.ident.Recorded resolution.analysis.table := by
  intro resolution
  have listed : resolution.program.mentions.map
      (fun mention => (mention.ident.name, mention.ident.id, mention.ident.role)) =
        [("p", some 0, .variable), ("q", some 1, .unknown), ("p", some 2, .variable)] := by decide
  have missing : resolution.analysis.table.occurrence? 1 = none := by decide
  refine ⟨listed, missing, fun all => ?_⟩
  have inner : ("q", some 1, Role.unknown) ∈ resolution.program.mentions.map
      (fun mention => (mention.ident.name, mention.ident.id, mention.ident.role)) := by simp [listed]
  obtain ⟨mention, member, same⟩ := List.mem_map.mp inner
  obtain ⟨id, occurrence, numbered, found, _⟩ := all mention member
  obtain rfl : id = 1 := Option.some.inj (numbered.symm.trans (congrArg (fun entry => entry.2.1) same))
  rw [missing] at found
  cases found

end ArrayLift
