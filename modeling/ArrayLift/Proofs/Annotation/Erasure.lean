import ArrayLift.Proofs.Annotation.Coverage

/-! Resolution overwrites or ignores every annotation of its input. Where the table knows an identifier its old role
is overwritten, and so are flags, identities and the choice between indexing and calling; a tree without default
values outside the parameters of functions has nothing that the table does not know. -/
namespace ArrayLift

/-- The table knows what these identifiers denote. -/
def Known (table : ScopeTable) (mentions : List Mention) : Prop :=
  ∀ mention ∈ mentions, ∃ id, mention.ident.id = some id ∧ table.roleOf id ≠ .unknown

section
variable {table : ScopeTable}

theorem Known.append {one other : List Mention} : Known table (one ++ other) ↔ Known table one ∧ Known table other :=
  List.forall_mem_append

theorem Known.passedBy {mentions : List Mention} :
    Known table (mentions.map Mention.passedBy) ↔ Known table mentions :=
  List.forall_mem_map

theorem Ident.known_paramMentionsList {idents : List Ident}
    (known : Known table (idents.flatMap Ident.paramMentions)) : Known table (Ident.mentionsList idents) :=
  Ident.all_mentionsList_of_paramMentions
    (show Mention.All (fun ident => ∃ id, ident.id = some id ∧ table.roleOf id ≠ .unknown) _ from known)

theorem IndexForm.decided_unmarked (form : IndexForm) (place : Place) (target : Expr) :
    form.unmarked.decided place target = form.decided place target := by
  cases form <;> cases place <;> rfl

variable (words : ReservedWords)

mutual
/-- Numbering and annotation of a tree in which the table knows all, from any first number, make the same of the
tree with its annotations and without them. -/
theorem Ident.annotate_unmarked : ∀ (ident : Ident) (next : Nat), Known table (ident.withIds next).1.mentions →
    ((ident.unmarked.withIds next).1.annotate table words).1 = ((ident.withIds next).1.annotate table words).1 ∧
      (ident.unmarked.withIds next).2 = (ident.withIds next).2
  | .mk name none role _ _, next, known => by
    obtain ⟨id, same, settled⟩ := known _ (List.mem_singleton_self _)
    obtain rfl : next = id := Option.some.inj same
    refine ⟨?_, rfl⟩
    simp only [Ident.unmarked, Ident.named, Ident.withIds, Ident.annotate, table.roleFor_known settled]
  | .mk name (some init) role _ _, next, known => by
    obtain ⟨own, inner⟩ := List.forall_mem_cons.mp known
    obtain ⟨id, same, settled⟩ := own
    obtain rfl : next = id := Option.some.inj same
    obtain ⟨tree, after⟩ := Expr.annotate_unmarked init (.value 1) (next + 1) (Known.passedBy.mp inner)
    simp only [Ident.unmarked, Ident.withIds, Ident.annotate, table.roleFor_known settled, tree, after, and_self]

theorem Expr.annotate_unmarked : ∀ (expr : Expr) (place : Place) (next : Nat),
    Known table (expr.withIds next).1.mentions →
    ((expr.unmarked.withIds next).1.annotate table words place).1 =
        ((expr.withIds next).1.annotate table words place).1 ∧
      (expr.unmarked.withIds next).2 = (expr.withIds next).2
  | .ident _ named, _, next, known => by
    obtain ⟨tree, after⟩ := Ident.annotate_unmarked named next known
    simp only [Expr.unmarked, Expr.withIds, Expr.annotate, tree, after, and_self]
  | .literal .., _, _, _ => ⟨rfl, rfl⟩
  | .operation _ _ operands none, _, next, known => by
    obtain ⟨trees, after⟩ := Expr.annotate_unmarkedList operands (.value 1) next known
    simp only [Expr.unmarked, Expr.withIds, Expr.annotate, trees, after, and_self]
  | .operation _ _ operands (some result), _, next, known => by
    obtain ⟨inOperands, inResult⟩ := Known.append.mp known
    obtain ⟨trees, between⟩ := Expr.annotate_unmarkedList operands (.value 1) next inOperands
    obtain ⟨tree, after⟩ := Ident.annotate_unmarked result _ inResult
    simp only [Expr.unmarked, Expr.withIds, Expr.annotate, between, trees, tree, after, and_self]
  | .field _ object _, place, next, known => by
    obtain ⟨tree, after⟩ := Expr.annotate_unmarked object place.inner next known
    simp only [Expr.unmarked, Expr.withIds, Expr.annotate, tree, after, and_self]
  | .dynamicField _ object selector, place, next, known => by
    obtain ⟨inObject, inSelector⟩ := Known.append.mp known
    obtain ⟨first, between⟩ := Expr.annotate_unmarked object place.inner next inObject
    obtain ⟨second, after⟩ := Expr.annotate_unmarked selector (.value 1) _ inSelector
    simp only [Expr.unmarked, Expr.withIds, Expr.annotate, between, first, second, after, and_self]
  | .index _ form target arguments, place, next, known => by
    obtain ⟨inTarget, inArguments⟩ := Known.append.mp known
    obtain ⟨tree, between⟩ := Expr.annotate_unmarked target place.inner next inTarget
    obtain ⟨trees, after⟩ := Expr.annotate_unmarkedList arguments (.value 1) _ inArguments
    simp only [Expr.unmarked, Expr.withIds, Expr.annotate, between, tree, trees, after,
      IndexForm.decided_unmarked, and_self]
  | .rows _ _ elements, _, next, known => by
    obtain ⟨trees, after⟩ := Expr.annotate_unmarkedRows elements next known
    simp only [Expr.unmarked, Expr.withIds, Expr.annotate, trees, after, and_self]
  | .lambda _ params body, _, next, known => by
    obtain ⟨inParams, inBody⟩ := Known.append.mp known
    obtain ⟨names, between⟩ := Ident.annotate_unmarkedList params next inParams
    obtain ⟨tree, after⟩ := Expr.annotate_unmarked body (.value 1) _ inBody
    simp only [Expr.unmarked, Expr.withIds, Expr.annotate, between, names, tree, after, and_self]

theorem Expr.annotate_unmarkedList : ∀ (exprs : List Expr) (place : Place) (next : Nat),
    Known table (Expr.mentionsList (Expr.withIdsList exprs next).1) →
    (Expr.annotateList table words (Expr.withIdsList (Expr.unmarkedList exprs) next).1 place).1 =
        (Expr.annotateList table words (Expr.withIdsList exprs next).1 place).1 ∧
      (Expr.withIdsList (Expr.unmarkedList exprs) next).2 = (Expr.withIdsList exprs next).2
  | [], _, _, _ => ⟨rfl, rfl⟩
  | expr :: rest, place, next, known => by
    obtain ⟨inFirst, inRest⟩ := Known.append.mp known
    obtain ⟨first, between⟩ := Expr.annotate_unmarked expr place next inFirst
    obtain ⟨others, after⟩ := Expr.annotate_unmarkedList rest place _ inRest
    simp only [Expr.unmarkedList, Expr.withIdsList, Expr.annotateList, between, first, others, after, and_self]

theorem Expr.annotate_unmarkedRows : ∀ (rows : List (List Expr)) (next : Nat),
    Known table (Expr.mentionsRows (Expr.withIdsRows rows next).1) →
    (Expr.annotateRows table words (Expr.withIdsRows (Expr.unmarkedRows rows) next).1).1 =
        (Expr.annotateRows table words (Expr.withIdsRows rows next).1).1 ∧
      (Expr.withIdsRows (Expr.unmarkedRows rows) next).2 = (Expr.withIdsRows rows next).2
  | [], _, _ => ⟨rfl, rfl⟩
  | row :: rest, next, known => by
    obtain ⟨inFirst, inRest⟩ := Known.append.mp known
    obtain ⟨first, between⟩ := Expr.annotate_unmarkedList row (.value 1) next inFirst
    obtain ⟨others, after⟩ := Expr.annotate_unmarkedRows rest _ inRest
    simp only [Expr.unmarkedRows, Expr.withIdsRows, Expr.annotateRows, between, first, others, after, and_self]

theorem Ident.annotate_unmarkedList : ∀ (idents : List Ident) (next : Nat),
    Known table (Ident.mentionsList (Ident.withIdsList idents next).1) →
    (Ident.annotateList table words (Ident.withIdsList (Ident.unmarkedList idents) next).1).1 =
        (Ident.annotateList table words (Ident.withIdsList idents next).1).1 ∧
      (Ident.withIdsList (Ident.unmarkedList idents) next).2 = (Ident.withIdsList idents next).2
  | [], _, _ => ⟨rfl, rfl⟩
  | ident :: rest, next, known => by
    obtain ⟨inFirst, inRest⟩ := Known.append.mp known
    obtain ⟨first, between⟩ := Ident.annotate_unmarked ident next inFirst
    obtain ⟨others, after⟩ := Ident.annotate_unmarkedList rest _ inRest
    simp only [Ident.unmarkedList, Ident.withIdsList, Ident.annotateList, between, first, others, after, and_self]
end

mutual
theorem Stmt.annotate_unmarked : ∀ (statement : Stmt) (next : Nat),
    Known table (statement.withIds next).1.mentions →
    ((statement.unmarked.withIds next).1.annotate table words).1 =
        ((statement.withIds next).1.annotate table words).1 ∧
      (statement.unmarked.withIds next).2 = (statement.withIds next).2
  | .expression _ value, next, known => by
    obtain ⟨tree, after⟩ := value.annotate_unmarked words (.value 1) next known
    simp only [Stmt.unmarked, Stmt.withIds, Stmt.annotate, tree, after, and_self]
  | .assign _ targets value, next, known => by
    obtain ⟨inTargets, inValue⟩ := Known.append.mp known
    obtain ⟨trees, between⟩ := Expr.annotate_unmarkedList words targets .assigned next inTargets
    have counts := congrArg List.length trees
    simp only [Expr.length_annotateList] at counts
    obtain ⟨tree, after⟩ := value.annotate_unmarked words
      (.value (max 1 (Expr.withIdsList targets next).1.length)) _ inValue
    simp only [Stmt.unmarked, Stmt.withIds, Stmt.annotate, counts, between, trees, tree, after, and_self]
  | .branch _ condition thenBody none, next, known => by
    obtain ⟨inCondition, inThen⟩ := Known.append.mp known
    obtain ⟨tree, between⟩ := condition.annotate_unmarked words (.value 1) next inCondition
    obtain ⟨trees, after⟩ := Stmt.annotate_unmarkedList thenBody _ inThen
    simp only [Stmt.unmarked, Stmt.withIds, Stmt.annotate, between, tree, trees, after, and_self]
  | .branch _ condition thenBody (some elseBody), next, known => by
    obtain ⟨before, inElse⟩ := Known.append.mp known
    obtain ⟨inCondition, inThen⟩ := Known.append.mp before
    obtain ⟨tree, between⟩ := condition.annotate_unmarked words (.value 1) next inCondition
    obtain ⟨trees, behind⟩ := Stmt.annotate_unmarkedList thenBody _ inThen
    obtain ⟨others, after⟩ := Stmt.annotate_unmarkedList elseBody _ inElse
    simp only [Stmt.unmarked, Stmt.withIds, Stmt.annotate, between, tree, behind, trees, others, after, and_self]
  | .forEach _ loopName columns body, next, known => by
    obtain ⟨before, inBody⟩ := Known.append.mp known
    obtain ⟨inName, inColumns⟩ := Known.append.mp before
    obtain ⟨name, between⟩ := loopName.annotate_unmarked words next inName
    obtain ⟨tree, behind⟩ := columns.annotate_unmarked words (.value 1) _ inColumns
    obtain ⟨trees, after⟩ := Stmt.annotate_unmarkedList body _ inBody
    simp only [Stmt.unmarked, Stmt.withIds, Stmt.annotate, between, name, behind, tree, trees, after, and_self]
  | .whileLoop _ condition body, next, known => by
    obtain ⟨inCondition, inBody⟩ := Known.append.mp known
    obtain ⟨tree, between⟩ := condition.annotate_unmarked words (.value 1) next inCondition
    obtain ⟨trees, after⟩ := Stmt.annotate_unmarkedList body _ inBody
    simp only [Stmt.unmarked, Stmt.withIds, Stmt.annotate, between, tree, trees, after, and_self]
  | .attempt _ body handler none, next, known => by
    obtain ⟨inBody, inHandler⟩ := Known.append.mp known
    obtain ⟨trees, between⟩ := Stmt.annotate_unmarkedList body next inBody
    obtain ⟨taken, after⟩ := Handler.annotate_unmarked handler _ inHandler
    simp only [Stmt.unmarked, Stmt.withIds, Stmt.annotate, between, trees, taken, after, and_self]
  | .attempt _ body handler (some finallyBody), next, known => by
    obtain ⟨before, inFinally⟩ := Known.append.mp known
    obtain ⟨inBody, inHandler⟩ := Known.append.mp before
    obtain ⟨trees, between⟩ := Stmt.annotate_unmarkedList body next inBody
    obtain ⟨taken, behind⟩ := Handler.annotate_unmarked handler _ inHandler
    obtain ⟨others, after⟩ := Stmt.annotate_unmarkedList finallyBody _ inFinally
    simp only [Stmt.unmarked, Stmt.withIds, Stmt.annotate, between, trees, behind, taken, others, after, and_self]
  | .function _ name params body, next, known => by
    obtain ⟨before, inBody⟩ := Known.append.mp known
    obtain ⟨inName, inParams⟩ := Known.append.mp before
    obtain ⟨called, between⟩ := name.annotate_unmarked words next inName
    obtain ⟨names, behind⟩ :=
      Ident.annotate_unmarkedList words params _ (Ident.known_paramMentionsList inParams)
    obtain ⟨trees, after⟩ := Stmt.annotate_unmarkedList body _ inBody
    simp only [Stmt.unmarked, Stmt.withIds, Stmt.annotate, between, called, behind, names, trees, after, and_self]
  | .declare _ _ names, next, known => by
    obtain ⟨trees, after⟩ := Ident.annotate_unmarkedList words names next known
    simp only [Stmt.unmarked, Stmt.withIds, Stmt.annotate, trees, after, and_self]
  | .return _ none, _, _ | .word .., _, _ | .comment .., _, _ => ⟨rfl, rfl⟩
  | .return _ (some value), next, known => by
    obtain ⟨tree, after⟩ := value.annotate_unmarked words (.value 1) next known
    simp only [Stmt.unmarked, Stmt.withIds, Stmt.annotate, tree, after, and_self]

theorem Handler.annotate_unmarked : ∀ (handler : Handler) (next : Nat),
    Known table (handler.withIds next).1.mentions →
    ((handler.unmarked.withIds next).1.annotate table words).1 =
        ((handler.withIds next).1.annotate table words).1 ∧
      (handler.unmarked.withIds next).2 = (handler.withIds next).2
  | .absent, _, _ => ⟨rfl, rfl⟩
  | .present none body, next, known => by
    obtain ⟨trees, after⟩ := Stmt.annotate_unmarkedList body next known
    simp only [Handler.unmarked, Option.map_none, Handler.withIds, Ident.withIdsOption, Handler.annotate,
      Ident.annotateOption, trees, after, and_self]
  | .present (some name) body, next, known => by
    obtain ⟨inName, inBody⟩ := Known.append.mp known
    obtain ⟨called, between⟩ := name.annotate_unmarked words next inName
    obtain ⟨trees, after⟩ := Stmt.annotate_unmarkedList body _ inBody
    simp only [Handler.unmarked, Option.map_some, Handler.withIds, Ident.withIdsOption, Handler.annotate,
      Ident.annotateOption, between, called, trees, after, and_self]

theorem Stmt.annotate_unmarkedList : ∀ (statements : List Stmt) (next : Nat),
    Known table (Stmt.mentionsList (Stmt.withIdsList statements next).1) →
    (Stmt.annotateList table words (Stmt.withIdsList (Stmt.unmarkedList statements) next).1).1 =
        (Stmt.annotateList table words (Stmt.withIdsList statements next).1).1 ∧
      (Stmt.withIdsList (Stmt.unmarkedList statements) next).2 = (Stmt.withIdsList statements next).2
  | [], _, _ => ⟨rfl, rfl⟩
  | statement :: rest, next, known => by
    obtain ⟨inFirst, inRest⟩ := Known.append.mp known
    obtain ⟨first, between⟩ := Stmt.annotate_unmarked statement next inFirst
    obtain ⟨others, after⟩ := Stmt.annotate_unmarkedList rest _ inRest
    simp only [Stmt.unmarkedList, Stmt.withIdsList, Stmt.annotateList, between, first, others, after, and_self]
end

end

/-! Default values. -/

/-- Of the identifiers mentioned only parameters of functions have default values. -/
def OnlyParamDefaults (mentions : List Mention) : Prop :=
  ∀ mention ∈ mentions, mention.ident.init.isSome → mention.isParam

def Program.OnlyParamDefaults (program : Program) : Prop :=
  ArrayLift.OnlyParamDefaults program.mentions

/-- What is passed by stands in a default value that is not of a parameter of a function. -/
def Guarded (mentions : List Mention) : Prop :=
  OnlyParamDefaults mentions → ∀ mention ∈ mentions, mention.walked = true

namespace Guarded

theorem nil : Guarded [] := fun _ => List.forall_mem_nil _

theorem append {one other : List Mention} (left : Guarded one) (right : Guarded other) : Guarded (one ++ other) := by
  intro only
  obtain ⟨inLeft, inRight⟩ := List.forall_mem_append.mp only
  exact List.forall_mem_append.mpr ⟨left inLeft, right inRight⟩

theorem param (ident : Ident) {rest : List Mention} (others : Guarded rest) : Guarded (.param ident :: rest) :=
  fun only => List.forall_mem_cons.mpr ⟨rfl, others (List.forall_mem_cons.mp only).2⟩

end Guarded

theorem Ident.guarded (ident : Ident) : Guarded ident.mentions := by
  intro only
  obtain ⟨_, init, _, _, _⟩ := ident
  cases init with
  | none => exact List.forall_mem_singleton.mpr rfl
  | some init => exact absurd ((List.forall_mem_cons.mp only).1 rfl) Bool.false_ne_true

theorem Ident.guardedList (idents : List Ident) : Guarded (Ident.mentionsList idents) := by
  induction idents with
  | nil => exact .nil
  | cons ident rest ih => exact ident.guarded.append ih

mutual
theorem Expr.guarded : ∀ expr : Expr, Guarded expr.mentions
  | .ident _ named => named.guarded
  | .literal .. => .nil
  | .operation _ _ operands none => Expr.guardedList operands
  | .operation _ _ operands (some result) => (Expr.guardedList operands).append result.guarded
  | .field _ object _ => Expr.guarded object
  | .dynamicField _ object selector => (Expr.guarded object).append (Expr.guarded selector)
  | .index _ _ target arguments => (Expr.guarded target).append (Expr.guardedList arguments)
  | .rows _ _ elements => Expr.guardedRows elements
  | .lambda _ params body => (Ident.guardedList params).append (Expr.guarded body)

theorem Expr.guardedList : ∀ exprs : List Expr, Guarded (Expr.mentionsList exprs)
  | [] => .nil
  | expr :: rest => (Expr.guarded expr).append (Expr.guardedList rest)

theorem Expr.guardedRows : ∀ rows : List (List Expr), Guarded (Expr.mentionsRows rows)
  | [] => .nil
  | row :: rest => (Expr.guardedList row).append (Expr.guardedRows rest)
end

theorem Ident.guardedParam (param : Ident) : Guarded param.paramMentions := by
  obtain ⟨_, init, _, _, _⟩ := param
  cases init with
  | none => exact .param _ .nil
  | some init => exact .param _ init.guarded

theorem Ident.guardedParams (params : List Ident) : Guarded (params.flatMap Ident.paramMentions) := by
  induction params with
  | nil => exact .nil
  | cons param rest ih => exact param.guardedParam.append ih

mutual
theorem Stmt.guarded : ∀ statement : Stmt, Guarded statement.mentions
  | .expression _ value => value.guarded
  | .assign _ targets value => (Expr.guardedList targets).append value.guarded
  | .branch _ condition thenBody none => condition.guarded.append (Stmt.guardedList thenBody)
  | .branch _ condition thenBody (some elseBody) =>
    (condition.guarded.append (Stmt.guardedList thenBody)).append (Stmt.guardedList elseBody)
  | .forEach _ loopName columns body => (loopName.guarded.append columns.guarded).append (Stmt.guardedList body)
  | .whileLoop _ condition body => condition.guarded.append (Stmt.guardedList body)
  | .attempt _ body handler none => (Stmt.guardedList body).append (Handler.guarded handler)
  | .attempt _ body handler (some finallyBody) =>
    ((Stmt.guardedList body).append (Handler.guarded handler)).append (Stmt.guardedList finallyBody)
  | .function _ name params body =>
    (name.guarded.append (Ident.guardedParams params)).append (Stmt.guardedList body)
  | .declare _ _ names => Ident.guardedList names
  | .return _ none | .word .. | .comment .. => .nil
  | .return _ (some value) => value.guarded

theorem Handler.guarded : ∀ handler : Handler, Guarded handler.mentions
  | .absent => .nil
  | .present none body => Stmt.guardedList body
  | .present (some name) body => name.guarded.append (Stmt.guardedList body)

theorem Stmt.guardedList : ∀ statements : List Stmt, Guarded (Stmt.mentionsList statements)
  | [] => .nil
  | statement :: rest => (Stmt.guarded statement).append (Stmt.guardedList rest)
end

theorem Ident.isSome_init_unmarked (ident : Ident) : ident.unmarked.init.isSome = ident.init.isSome := by
  obtain ⟨_, init, _, _, _⟩ := ident
  cases init <;> rfl

namespace Program

theorem onlyParamDefaults_unmarked (program : Program) :
    program.unmarked.OnlyParamDefaults ↔ program.OnlyParamDefaults :=
  program.forall_mentions_unmarked fun mention => by
    simp only [Mention.unmarked, Ident.isSome_init_unmarked]

/-- What the walk comes to everywhere is known in the end. -/
theorem known_of_walked {program : Program} (walked : ∀ mention ∈ program.mentions, mention.walked = true)
    (settings : Settings) : Known (program.resolve settings).analysis.table program.withIds.1.mentions := by
  intro mention member
  have here := (Program.all_walked_congr program.unmarked_withIds).mpr walked mention member
  obtain ⟨occurrence, inside, same, _⟩ := program.occurrence_of_walked member here
  refine ⟨occurrence.id, same, ?_⟩
  rw [program.resolve_roleOf settings inside]
  exact DefUse.Graph.roleOf_known _ occurrence

/-- Without default values outside the parameters of functions, resolution makes the same of a program with its
annotations and without them. -/
theorem resolve_unmarked {program : Program} (only : program.OnlyParamDefaults) (settings : Settings) :
    (program.unmarked.resolve settings).program = (program.resolve settings).program ∧
      (program.unmarked.resolve settings).analysis = (program.resolve settings).analysis := by
  let table := (program.resolve settings).analysis.table
  have known : Known table program.withIds.1.mentions :=
    known_of_walked (Stmt.guardedList program.statements only) settings
  obtain ⟨trees, count⟩ := Stmt.annotate_unmarkedList settings.reserved program.statements 0 known
  have tree : (program.unmarked.withIds.1.annotate table settings.reserved).1 =
      (program.withIds.1.annotate table settings.reserved).1 := congrArg Program.mk trees
  have findings (limit : Nat) : program.unmarked.withIds.1.findings limit = program.withIds.1.findings limit := by
    rw [← Program.findings_annotate table settings.reserved, tree, Program.findings_annotate]
  have analysis : (program.unmarked.resolve settings).analysis = (program.resolve settings).analysis := by
    have same : program.unmarked.withIds.2 = program.withIds.2 := count
    simp only [resolve, findings, same]
  refine ⟨?_, analysis⟩
  calc (program.unmarked.resolve settings).program
      = (program.unmarked.withIds.1.annotate (program.unmarked.resolve settings).analysis.table
          settings.reserved).1 := rfl
    _ = (program.unmarked.withIds.1.annotate table settings.reserved).1 := by rw [analysis]
    _ = (program.withIds.1.annotate table settings.reserved).1 := tree
    _ = (program.resolve settings).program := rfl

end Program

end ArrayLift
