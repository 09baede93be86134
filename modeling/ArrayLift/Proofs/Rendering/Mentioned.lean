import ArrayLift.Proofs.Annotation.Coverage
import ArrayLift.Proofs.Rendering.Nodes

/-! What generation renders against what the walk comes to. Every name that is rendered is one of the tree. The walk
defines the result of every operation that it comes to, whatever the operator is, so after resolution the result is a
variable. -/
namespace ArrayLift

open Code

/-- A route defines this identity, in whatever scope. -/
def Route.Defines (id : IdentId) : Route → Prop
  | .stay | .jump _ => False
  | .step action => ∃ name line, action = .define id name line .definition
  | .seq first second | .fork first second | .ensure first second | .finish first second =>
    Defines id first ∨ Defines id second
  | .attempt body | .loop body | .aside body | .function _ _ _ body => Defines id body

theorem Route.Defines.occurrence {id : IdentId} {route : Route} (defines : route.Defines id) (scope next : ScopeId) :
    ∃ occurrence ∈ route.occurrences scope next, occurrence.id = id ∧ occurrence.kind = .definition := by
  induction route generalizing scope next with
  | stay | jump _ => cases defines
  | step action =>
    obtain ⟨name, line, rfl⟩ := defines
    exact ⟨_, List.mem_singleton_self _, rfl, rfl⟩
  | seq first second ihFirst ihSecond | fork first second ihFirst ihSecond | ensure first second ihFirst ihSecond
  | finish first second ihFirst ihSecond =>
    obtain before | behind := defines
    · obtain ⟨occurrence, listed, same⟩ := ihFirst before scope next
      exact ⟨occurrence, List.mem_append_left _ listed, same⟩
    · obtain ⟨occurrence, listed, same⟩ := ihSecond behind scope (next + first.functionIds.length)
      exact ⟨occurrence, List.mem_append_right _ listed, same⟩
  | attempt body ih | loop body ih | aside body ih => exact ih defines scope next
  | function own name line body ih =>
    obtain ⟨occurrence, listed, same⟩ := ih defines next (next + 1)
    exact ⟨occurrence, List.mem_append_right _ listed, same⟩

/-- The identifier of the node is mentioned. The result of an operation is also defined by the route, if the walk
comes to it. -/
def Code.Node.Mentioned (mentions : List Mention) (route : Route) : Node → Prop
  | .name ident => ∃ mention ∈ mentions, mention.ident = ident
  | .expression (.operation _ _ _ (some result)) =>
    ∃ mention ∈ mentions, mention.ident = result ∧
      (mention.walked = true → ∀ id, result.id = some id → route.Defines id)
  | _ => True

theorem Code.Node.Mentioned.mono {mentions wider : List Mention} {route longer : Route} {node : Node}
    (mentioned : node.Mentioned mentions route) (included : mentions ⊆ wider)
    (implied : ∀ id, route.Defines id → longer.Defines id) : node.Mentioned wider longer := by
  unfold Node.Mentioned at mentioned ⊢
  split
  · obtain ⟨mention, known, same⟩ := mentioned
    exact ⟨mention, included known, same⟩
  · obtain ⟨mention, known, same, defines⟩ := mentioned
    exact ⟨mention, included known, same, fun walked id own => implied id (defines walked id own)⟩
  · trivial

/-- All nodes are mentioned so. -/
def Mentioned (nodes : List Node) (mentions : List Mention) (route : Route) : Prop :=
  ∀ node ∈ nodes, node.Mentioned mentions route

namespace Mentioned

variable {nodes before after : List Node} {mentions wider : List Mention} {route longer : Route}

theorem nil : Mentioned [] mentions route := nofun

theorem append (first : Mentioned before mentions route) (rest : Mentioned after mentions route) :
    Mentioned (before ++ after) mentions route :=
  List.forall_mem_append.mpr ⟨first, rest⟩

theorem cons {node : Node} (own : node.Mentioned mentions route) (inside : Mentioned nodes mentions route) :
    Mentioned (node :: nodes) mentions route :=
  List.forall_mem_cons.mpr ⟨own, inside⟩

theorem flatten {lists : List (List Node)} (each : ∀ list ∈ lists, Mentioned list mentions route) :
    Mentioned lists.flatten mentions route := by
  intro node member
  obtain ⟨list, known, member⟩ := List.mem_flatten.mp member
  exact each list known node member

theorem left (inside : Mentioned nodes mentions route) : Mentioned nodes (mentions ++ wider) route :=
  fun node member => (inside node member).mono (List.subset_append_left _ _) fun _ => id

theorem right (inside : Mentioned nodes mentions route) : Mentioned nodes (wider ++ mentions) route :=
  fun node member => (inside node member).mono (List.subset_append_right _ _) fun _ => id

theorem behind {mention : Mention} (inside : Mentioned nodes mentions route) :
    Mentioned nodes (mention :: mentions) route :=
  fun node member => (inside node member).mono (List.subset_cons_self _ _) fun _ => id

/-- A route that defines as much. -/
theorem along (inside : Mentioned nodes mentions route) (implied : ∀ id, route.Defines id → longer.Defines id) :
    Mentioned nodes mentions longer :=
  fun node member => (inside node member).mono (List.Subset.refl _) implied

/-- What comes first in the tree and on the route. -/
theorem first (inside : Mentioned nodes mentions route) :
    Mentioned nodes (mentions ++ wider) (.seq route longer) :=
  inside.left.along fun _ => .inl

theorem second (inside : Mentioned nodes mentions route) :
    Mentioned nodes (wider ++ mentions) (.seq longer route) :=
  inside.right.along fun _ => .inr

/-- In a default value that the walk passes by nothing has to be defined. -/
theorem passedBy (inside : Mentioned nodes mentions route) :
    Mentioned nodes (mentions.map Mention.passedBy) longer := by
  intro node member
  have mentioned := inside node member
  unfold Node.Mentioned at mentioned ⊢
  split
  · obtain ⟨mention, known, same⟩ := mentioned
    exact ⟨mention.passedBy, List.mem_map_of_mem known, same⟩
  · obtain ⟨mention, known, same, _⟩ := mentioned
    exact ⟨mention.passedBy, List.mem_map_of_mem known, same, nofun⟩
  · trivial

end Mentioned

theorem Ident.exists_mention (ident : Ident) : ∃ mention ∈ ident.mentions, mention.ident = ident := by
  obtain ⟨_, init, _, _, _⟩ := ident
  cases init <;> exact ⟨_, List.mem_cons_self, rfl⟩

mutual
/-- The default value of an identifier that is not a parameter of a function. -/
theorem Ident.mentioned_nodes : ∀ (ident : Ident) (route : Route), Mentioned ident.nodes ident.mentions route
  | .mk _ none _ _ _, _ => .cons ⟨_, List.mem_cons_self, rfl⟩ .nil
  | .mk _ (some init) _ _ _, _ =>
    .cons ⟨_, List.mem_cons_self, rfl⟩ (.behind (Expr.mentioned_nodes init).passedBy)

theorem Expr.mentioned_nodes : ∀ expr : Expr, Mentioned expr.nodes expr.mentions expr.route
  | .ident _ named => .cons trivial (Ident.mentioned_nodes named _)
  | .literal .. => .cons trivial .nil
  | .operation _ _ operands none =>
    .cons trivial (.flatten fun list member => Expr.mentioned_nodesEach operands list (mem_of_mem_arranged member))
  | .operation line spelling operands (some result) => by
    have inside : Mentioned (arranged spelling (Expr.nodesEach operands)).flatten
        (Expr.mentionsList operands ++ result.mentions)
        (.seq (Expr.routeList operands) (.define result line .definition)) :=
      .flatten fun list member => (Expr.mentioned_nodesEach operands list (mem_of_mem_arranged member)).first
    have named : Mentioned (if writesResult spelling operands.length then result.nodes else [])
        (Expr.mentionsList operands ++ result.mentions)
        (.seq (Expr.routeList operands) (.define result line .definition)) := by
      split
      · exact (Ident.mentioned_nodes result _).second
      · exact .nil
    obtain ⟨mention, known, same⟩ := result.exists_mention
    refine .cons ⟨mention, List.mem_append_right _ known, same, fun _ id own => .inr ?_⟩ (named.append inside)
    rw [Route.define, own]
    exact ⟨result.name, line, rfl⟩
  | .field _ object _ => .cons trivial (Expr.mentioned_nodes object)
  | .dynamicField _ object selector =>
    .cons trivial (.append (Expr.mentioned_nodes object).first (Expr.mentioned_nodes selector).second)
  | .index line form target arguments => by
    have before : Mentioned (Expr.nodesEach arguments).flatten (target.mentions ++ Expr.mentionsList arguments)
        (Expr.index line form target arguments).route :=
      (Mentioned.flatten (Expr.mentioned_nodesEach arguments)).right.along fun _ => .inl
    have inner := Expr.mentioned_nodes target
    refine .cons trivial (.append ?_ before)
    -- A name that is indexed is used in a way of its own; everything else is walked as it is.
    cases target with
    | ident line named =>
      have used (route : Route) : Mentioned (Expr.ident line named).nodes named.mentions route :=
        .cons trivial (Ident.mentioned_nodes named route)
      exact (used _).left
    | operation line spelling operands result =>
      cases result <;> exact inner.left.along fun _ => .inr
    | literal | field | dynamicField | index | rows | lambda =>
      exact inner.left.along fun _ => .inr
  | .rows _ _ rows => .cons trivial (.flatten (Expr.mentioned_nodesRows rows))
  | .lambda _ params body =>
    .cons trivial (.append (Ident.mentioned_nodesList params _).first (Expr.mentioned_nodes body).second)

theorem Expr.mentioned_nodesEach : ∀ exprs : List Expr, ∀ list ∈ Expr.nodesEach exprs,
    Mentioned list (Expr.mentionsList exprs) (Expr.routeList exprs)
  | [] => nofun
  | expr :: rest => List.forall_mem_cons.mpr
      ⟨(Expr.mentioned_nodes expr).first, fun list member => (Expr.mentioned_nodesEach rest list member).second⟩

theorem Expr.mentioned_nodesRows : ∀ rows : List (List Expr), ∀ list ∈ Expr.nodesRows rows,
    Mentioned list (Expr.mentionsRows rows) (Expr.routeRows rows)
  | [] => nofun
  | row :: rest => List.forall_mem_cons.mpr
      ⟨(Mentioned.flatten (Expr.mentioned_nodesEach row)).first,
        fun list member => (Expr.mentioned_nodesRows rest list member).second⟩

theorem Ident.mentioned_nodesList : ∀ (idents : List Ident) (route : Route),
    Mentioned (Ident.nodesList idents) (Ident.mentionsList idents) route
  | [], _ => .nil
  | ident :: rest, route => .append
    (Ident.mentioned_nodes ident route).left (Ident.mentioned_nodesList rest route).right
end

theorem Expr.mentioned_target : ∀ (expr : Expr) (kind : OccurrenceKind),
    Mentioned expr.nodes expr.mentions (expr.targetRoute kind)
  | .ident line named, _ => .cons trivial (Ident.mentioned_nodes named _)
  | .index _ _ target arguments, _ => by
    have inner := Expr.mentioned_target target .partialDefinition
    have before := Mentioned.flatten (Expr.mentioned_nodesEach arguments)
    exact .cons trivial (.append (inner.left.along fun _ => .inr) (before.right.along fun _ => .inl))
  | .field _ object _, _ => .cons trivial (Expr.mentioned_target object .partialDefinition)
  | .dynamicField _ object selector, _ => by
    have inner := Expr.mentioned_target object .partialDefinition
    have before := selector.mentioned_nodes
    exact .cons trivial (.append (inner.left.along fun _ => .inr) (before.right.along fun _ => .inl))
  | .literal line value, _ => Expr.mentioned_nodes (.literal line value)
  | .operation line spelling operands result, _ => Expr.mentioned_nodes (.operation line spelling operands result)
  | .rows line brackets elements, _ => Expr.mentioned_nodes (.rows line brackets elements)
  | .lambda line params body, _ => Expr.mentioned_nodes (.lambda line params body)

theorem Expr.mentioned_targets : ∀ targets : List Expr, ∀ list ∈ Expr.nodesEach targets,
    Mentioned list (Expr.mentionsList targets) (Route.all (targets.map (Expr.targetRoute · .definition)))
  | [] => nofun
  | target :: rest => List.forall_mem_cons.mpr
      ⟨(target.mentioned_target .definition).first, fun list member => (Expr.mentioned_targets rest list member).second⟩

theorem Ident.mentioned_param (line : SourceLine) (param : Ident) :
    Mentioned param.nodes param.paramMentions (param.paramRoute line) := by
  obtain ⟨_, init, _, _, _⟩ := param
  cases init with
  | none => exact .cons ⟨_, List.mem_cons_self, rfl⟩ .nil
  | some init => exact .cons ⟨_, List.mem_cons_self, rfl⟩ (.behind (init.mentioned_nodes.along fun _ => Or.inl))

theorem Ident.mentioned_params (line : SourceLine) (params : List Ident) :
    Mentioned (Ident.nodesList params) (params.flatMap Ident.paramMentions)
      (Route.all (params.map (Ident.paramRoute line))) := by
  induction params with
  | nil => exact .nil
  | cons param rest ih => exact .append (param.mentioned_param line).first ih.second

mutual
theorem Stmt.mentioned_nodes : ∀ statement : Stmt, Mentioned statement.nodes statement.mentions statement.route
  | .expression _ value => .cons trivial value.mentioned_nodes
  | .assign _ targets value => by
    have assigned := Mentioned.flatten (Expr.mentioned_targets targets)
    refine .append (value.mentioned_nodes.right.along fun _ => .inl) (.cons trivial ?_)
    exact assigned.left.along fun _ defines => .inr (.inl defines)
  | .branch _ condition thenBody none => by
    refine .cons trivial (.append condition.mentioned_nodes.first ?_)
    exact (Stmt.mentioned_block thenBody).right.along fun _ defines => .inr (.inl defines)
  | .branch _ condition thenBody (some elseBody) => by
    refine .cons trivial (.append ?_ (.append ?_ ?_))
    · exact condition.mentioned_nodes.left.left.along fun _ => .inl
    · exact (Stmt.mentioned_block thenBody).right.left.along fun _ defines => .inr (.inl defines)
    · exact (Stmt.mentioned_block elseBody).right.along fun _ defines => .inr (.inr defines)
  | .forEach _ loopName columns body => by
    refine .cons trivial (.append ?_ (.append ?_ ?_))
    · exact (loopName.mentioned_nodes _).left.left
    · exact columns.mentioned_nodes.right.left.along fun _ => .inl
    · exact (Stmt.mentioned_block body).right.along fun _ defines => .inr (.inl (.inr defines))
  | .whileLoop _ condition body => by
    refine .cons trivial (.append ?_ ?_)
    · exact condition.mentioned_nodes.left.along fun _ => .inr
    · exact (Stmt.mentioned_block body).right.along fun _ defines => .inl (.inr defines)
  | .attempt line body handler none => by
    refine .cons trivial (.append ?_ ?_)
    · exact (Stmt.mentioned_block body).left.along fun _ defines => .inl (.inl defines)
    · exact (Handler.mentioned_nodes handler line).right.along fun _ defines => .inl (.inr defines)
  | .attempt line body handler (some finallyBody) => by
    refine .cons trivial (.append ?_ (.append ?_ ?_))
    · exact (Stmt.mentioned_block body).left.left.along fun _ defines => .inl (.inl defines)
    · exact (Handler.mentioned_nodes handler line).right.left.along fun _ defines => .inl (.inr defines)
    · exact (Stmt.mentioned_block finallyBody).right.along fun _ => .inr
  | .function line name params body => by
    refine .cons trivial (.append (.append ?_ ?_) ?_)
    · exact (name.mentioned_nodes _).left.left
    · exact (Ident.mentioned_params line params).right.left.along fun _ => .inl
    · exact (Stmt.mentioned_block body).right.along fun _ => .inr
  | .declare _ _ names => .cons trivial (Ident.mentioned_nodesList names _)
  | .return _ none | .word _ .break | .word _ .continue | .word _ .pass | .word _ .nothing | .comment .. =>
    .cons trivial .nil
  | .return _ (some value) => .cons trivial (value.mentioned_nodes.along fun _ => .inl)

theorem Handler.mentioned_nodes : ∀ (handler : Handler) (line : SourceLine),
    Mentioned handler.nodes handler.mentions (handler.route line)
  | .absent, _ => .nil
  | .present none body, _ => (Stmt.mentioned_block body).along fun _ defines => .inr (.inr defines)
  | .present (some name) body, _ =>
    .append (name.mentioned_nodes _).left ((Stmt.mentioned_block body).right.along fun _ defines => .inr (.inr defines))

/-- Statements up to a function, and from there on. -/
theorem Stmt.mentioned_block : ∀ statements : List Stmt,
    Mentioned (Stmt.nodesList statements) (Stmt.mentionsList statements) (.block (Stmt.routes statements))
  | [] => .nil
  | statement :: rest => by
    have own := Stmt.mentioned_nodes statement
    have others := Stmt.mentioned_block rest
    match statement with
    | .function line called params [] =>
      refine .append (own.left.along fun _ => ?_) (others.right.along fun _ => ?_)
      · rintro (param | inside)
        · exact .inr (.inl (.inl param))
        · exact inside.elim False.elim False.elim
      · rintro (inside | behind)
        · exact .inr (.inl (.inr inside))
        · exact .inr (.inr behind)
    | .function line called params (head :: tail) =>
      exact .append (own.left.along fun _ defines => .inr (.inl defines)) (others.right.along fun _ => .inr ∘ .inr)
    | .branch _ _ _ none | .branch _ _ _ (some _) | .attempt _ _ _ none | .attempt _ _ _ (some _)
    | .return _ none | .return _ (some _) | .expression .. | .assign .. | .forEach .. | .whileLoop ..
    | .declare .. | .word .. | .comment .. =>
      exact .append (own.left.along fun _ => .inl ∘ .inl) (others.right.along fun _ => or_assoc.mpr ∘ .inr)
end

namespace Program

theorem mentioned_nodes (program : Program) : Mentioned program.nodes program.mentions program.route :=
  Stmt.mentioned_block program.statements

theorem route_resolve (program : Program) (settings : Settings) :
    (program.resolve settings).program.route = program.withIds.1.route :=
  congrArg Route.block (Stmt.routes_annotateList _ settings.reserved program.withIds.1.statements)

/-- After resolution the result of an operation is a variable, unless the walk passes it by. -/
theorem result_variable (program : Program) (settings : Settings) {line : SourceLine} {spelling : String}
    {operands : List Expr} {result : Ident}
    (known : .expression (.operation line spelling operands (some result)) ∈
      (program.resolve settings).program.nodes) :
    ∃ mention ∈ (program.resolve settings).program.mentions, mention.ident = result ∧
      (mention.walked = true → result.role = .variable) := by
  obtain ⟨mention, member, rfl, defines⟩ := (program.resolve settings).program.mentioned_nodes _ known
  refine ⟨mention, member, rfl, fun walked => ?_⟩
  rw [program.mentions_resolve settings] at member
  obtain ⟨origin, inside, rfl⟩ := List.mem_map.mp member
  obtain ⟨id, occurrence, numbered, found, _, _, role⟩ := program.recorded_of_walked settings inside walked
  have defined : program.withIds.1.route.Defines id := program.route_resolve settings ▸ defines walked id numbered
  obtain ⟨definition, there, rfl, kind⟩ := defined.occurrence ScopeTable.script 1
  rw [program.resolve_occurrence? settings there] at found
  obtain rfl := Option.some.inj found
  rw [role]
  simp only [DefUse.Graph.roleOf, kind]

end Program
end ArrayLift
