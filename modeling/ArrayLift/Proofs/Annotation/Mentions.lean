import ArrayLift.Proofs.Annotation.Invariance
import ArrayLift.Proofs.Annotation.Unmarked
import ArrayLift.Proofs.Walk.Census
import Mathlib.Data.List.Nodup
import Mathlib.Data.Option.Basic

/-! The identifiers of a tree in the order of their numbers, each with the note whether the walk comes to it: of
default values the walk takes those of the parameters of functions and passes all others by. Numbering gives each
its own number, annotation changes each by itself, and the route visits those that the walk comes to. -/
namespace ArrayLift

/-- An identifier where it stands in a tree. -/
structure Mention where
  ident : Ident
  /-- Is it a parameter of a function? -/
  isParam : Bool
  /-- Does the walk come to it? -/
  walked : Bool

namespace Mention

def plain (ident : Ident) : Mention := ⟨ident, false, true⟩

def param (ident : Ident) : Mention := ⟨ident, true, true⟩

/-- The same inside a default value that the walk passes by. -/
def passedBy (mention : Mention) : Mention := { mention with walked := false }

/-- Every identifier that is mentioned has the property. -/
def All (holds : Ident → Prop) (mentions : List Mention) : Prop :=
  ∀ mention ∈ mentions, holds mention.ident

variable {holds : Ident → Prop} {one other mentions : List Mention}

theorem All.append : All holds (one ++ other) ↔ All holds one ∧ All holds other :=
  List.forall_mem_append

theorem All.passedBy : All holds (mentions.map Mention.passedBy) ↔ All holds mentions :=
  List.forall_mem_map

end Mention

mutual
/-- An identifier and those in its default value. -/
def Ident.mentions : Ident → List Mention
  | .mk name none role reserved id => [.plain (.mk name none role reserved id)]
  | .mk name (some init) role reserved id =>
    .plain (.mk name (some init) role reserved id) :: (Expr.mentions init).map Mention.passedBy

def Expr.mentions : Expr → List Mention
  | .ident _ named => Ident.mentions named
  | .literal .. => []
  | .operation _ _ operands none => Expr.mentionsList operands
  | .operation _ _ operands (some result) => Expr.mentionsList operands ++ Ident.mentions result
  | .field _ object _ => Expr.mentions object
  | .dynamicField _ object selector => Expr.mentions object ++ Expr.mentions selector
  | .index _ _ target arguments => Expr.mentions target ++ Expr.mentionsList arguments
  | .rows _ _ rows => Expr.mentionsRows rows
  | .lambda _ params body => Ident.mentionsList params ++ Expr.mentions body

def Expr.mentionsList : List Expr → List Mention
  | [] => []
  | expr :: rest => Expr.mentions expr ++ Expr.mentionsList rest

def Expr.mentionsRows : List (List Expr) → List Mention
  | [] => []
  | row :: rest => Expr.mentionsList row ++ Expr.mentionsRows rest

def Ident.mentionsList : List Ident → List Mention
  | [] => []
  | ident :: rest => Ident.mentions ident ++ Ident.mentionsList rest
end

/-- A parameter of a function, and the identifiers of its default value. -/
def Ident.paramMentions (ident : Ident) : List Mention :=
  .param ident :: match ident.init with
    | none => []
    | some init => init.mentions

/-- A parameter and an identifier elsewhere mention the same. -/
theorem Ident.all_mentions_of_paramMentions {holds : Ident → Prop} {ident : Ident}
    (each : Mention.All holds ident.paramMentions) : Mention.All holds ident.mentions := by
  obtain ⟨_, init, _, _, _⟩ := ident
  obtain ⟨own, inner⟩ := List.forall_mem_cons.mp each
  cases init with
  | none => exact List.forall_mem_cons.mpr ⟨own, inner⟩
  | some init => exact List.forall_mem_cons.mpr ⟨own, Mention.All.passedBy.mpr inner⟩

theorem Ident.all_mentionsList_of_paramMentions {holds : Ident → Prop} {idents : List Ident}
    (each : Mention.All holds (idents.flatMap Ident.paramMentions)) :
    Mention.All holds (Ident.mentionsList idents) := by
  induction idents with
  | nil => exact each
  | cons ident rest ih =>
    obtain ⟨first, others⟩ := Mention.All.append.mp each
    exact Mention.All.append.mpr ⟨Ident.all_mentions_of_paramMentions first, ih others⟩

mutual
def Stmt.mentions : Stmt → List Mention
  | .expression _ value => value.mentions
  | .assign _ targets value => Expr.mentionsList targets ++ value.mentions
  | .branch _ condition thenBody none => condition.mentions ++ Stmt.mentionsList thenBody
  | .branch _ condition thenBody (some elseBody) =>
    condition.mentions ++ Stmt.mentionsList thenBody ++ Stmt.mentionsList elseBody
  | .forEach _ loopName columns body => loopName.mentions ++ columns.mentions ++ Stmt.mentionsList body
  | .whileLoop _ condition body => condition.mentions ++ Stmt.mentionsList body
  | .attempt _ body handler none => Stmt.mentionsList body ++ Handler.mentions handler
  | .attempt _ body handler (some finallyBody) =>
    Stmt.mentionsList body ++ Handler.mentions handler ++ Stmt.mentionsList finallyBody
  | .function _ name params body =>
    name.mentions ++ params.flatMap Ident.paramMentions ++ Stmt.mentionsList body
  | .declare _ _ names => Ident.mentionsList names
  | .return _ none => []
  | .return _ (some value) => value.mentions
  | .word .. => []
  | .comment .. => []

def Handler.mentions : Handler → List Mention
  | .absent => []
  | .present none body => Stmt.mentionsList body
  | .present (some name) body => name.mentions ++ Stmt.mentionsList body

def Stmt.mentionsList : List Stmt → List Mention
  | [] => []
  | statement :: rest => Stmt.mentions statement ++ Stmt.mentionsList rest
end

def Program.mentions (program : Program) : List Mention :=
  Stmt.mentionsList program.statements

/-! Numbering. -/

/-- The mentions have the numbers from the first up to the last, in their order. -/
def Counted : List Mention → Nat → Nat → Prop
  | [], first, last => first = last
  | mention :: rest, first, last => mention.ident.id = some first ∧ Counted rest (first + 1) last

namespace Counted

variable {one other : List Mention} {first middle last : Nat}

theorem append (left : Counted one first middle) (right : Counted other middle last) :
    Counted (one ++ other) first last := by
  induction one generalizing first with
  | nil =>
    obtain rfl : first = middle := left
    exact right
  | cons mention rest ih => exact ⟨left.1, ih left.2⟩

theorem passedBy (counted : Counted one first last) : Counted (one.map Mention.passedBy) first last := by
  induction one generalizing first with
  | nil => exact counted
  | cons mention rest ih => exact ⟨counted.1, ih counted.2⟩

theorem length_eq (counted : Counted one first last) : first + one.length = last := by
  induction one generalizing first with
  | nil => exact counted
  | cons mention rest ih =>
    have later := ih counted.2
    rw [List.length_cons]
    omega

/-- The numbers are the ones from the first up to the last, each once and in their order. -/
theorem ids_eq (counted : Counted one first last) :
    (one.map fun mention => mention.ident.id) = (List.range' first one.length).map some := by
  induction one generalizing first with
  | nil => rfl
  | cons mention rest ih =>
    rw [List.map_cons, List.length_cons, List.range'_succ, List.map_cons, counted.1, ih counted.2]

theorem ordered (counted : Counted one first last) : first ≤ last := by
  have length := counted.length_eq
  omega

/-- The numbers of the mentions. -/
theorem exists_iff (counted : Counted one first last) (id : Nat) :
    (∃ mention ∈ one, mention.ident.id = some id) ↔ first ≤ id ∧ last > id := by
  have listed := List.mem_map (f := fun mention : Mention => mention.ident.id) (l := one) (b := some id)
  have length := counted.length_eq
  rw [← listed, counted.ids_eq, List.mem_map_of_injective (Option.some_injective _), List.mem_range'_1]
  omega

theorem id_of_mem (counted : Counted one first last) {mention : Mention} (member : mention ∈ one) :
    ∃ id, mention.ident.id = some id ∧ first ≤ id := by
  have listed : mention.ident.id ∈ one.map fun mention => mention.ident.id :=
    List.mem_map_of_mem (f := fun mention : Mention => mention.ident.id) member
  rw [counted.ids_eq] at listed
  obtain ⟨id, inside, same⟩ := List.mem_map.mp listed
  exact ⟨id, same.symm, (List.mem_range'_1.mp inside).1⟩

theorem nodup (counted : Counted one first last) : (one.map fun mention => mention.ident.id).Nodup := by
  rw [counted.ids_eq]
  exact (List.nodup_range' (s := first) (n := one.length)).map (Option.some_injective _)

/-- A number belongs to one mention. -/
theorem single (counted : Counted one first last) {left right : Mention} (inLeft : left ∈ one)
    (inRight : right ∈ one) (same : left.ident.id = right.ident.id) : left = right :=
  List.inj_on_of_nodup_map counted.nodup inLeft inRight same

end Counted

mutual
theorem Ident.counted_withIds : ∀ (ident : Ident) (next : Nat),
    Counted (ident.withIds next).1.mentions next (ident.withIds next).2
  | .mk _ none _ _ _, _ => ⟨rfl, rfl⟩
  | .mk _ (some init) _ _ _, next => ⟨rfl, (Expr.counted_withIds init (next + 1)).passedBy⟩

theorem Expr.counted_withIds : ∀ (expr : Expr) (next : Nat),
    Counted (expr.withIds next).1.mentions next (expr.withIds next).2
  | .ident _ named, next => Ident.counted_withIds named next
  | .literal .., _ => rfl
  | .operation _ _ operands none, next => Expr.counted_withIdsList operands next
  | .operation _ _ operands (some result), next =>
    (Expr.counted_withIdsList operands next).append (Ident.counted_withIds result _)
  | .field _ object _, next => Expr.counted_withIds object next
  | .dynamicField _ object selector, next =>
    (Expr.counted_withIds object next).append (Expr.counted_withIds selector _)
  | .index _ _ target arguments, next =>
    (Expr.counted_withIds target next).append (Expr.counted_withIdsList arguments _)
  | .rows _ _ rows, next => Expr.counted_withIdsRows rows next
  | .lambda _ params body, next =>
    (Ident.counted_withIdsList params next).append (Expr.counted_withIds body _)

theorem Expr.counted_withIdsList : ∀ (exprs : List Expr) (next : Nat),
    Counted (Expr.mentionsList (Expr.withIdsList exprs next).1) next (Expr.withIdsList exprs next).2
  | [], _ => rfl
  | expr :: rest, next => (Expr.counted_withIds expr next).append (Expr.counted_withIdsList rest _)

theorem Expr.counted_withIdsRows : ∀ (rows : List (List Expr)) (next : Nat),
    Counted (Expr.mentionsRows (Expr.withIdsRows rows next).1) next (Expr.withIdsRows rows next).2
  | [], _ => rfl
  | row :: rest, next => (Expr.counted_withIdsList row next).append (Expr.counted_withIdsRows rest _)

theorem Ident.counted_withIdsList : ∀ (idents : List Ident) (next : Nat),
    Counted (Ident.mentionsList (Ident.withIdsList idents next).1) next (Ident.withIdsList idents next).2
  | [], _ => rfl
  | ident :: rest, next => (Ident.counted_withIds ident next).append (Ident.counted_withIdsList rest _)
end

theorem Ident.counted_param : ∀ (param : Ident) (next : Nat),
    Counted (param.withIds next).1.paramMentions next (param.withIds next).2
  | .mk _ none _ _ _, _ => ⟨rfl, rfl⟩
  | .mk _ (some init) _ _ _, next => ⟨rfl, init.counted_withIds (next + 1)⟩

theorem Ident.counted_params : ∀ (params : List Ident) (next : Nat),
    Counted ((Ident.withIdsList params next).1.flatMap Ident.paramMentions) next (Ident.withIdsList params next).2
  | [], _ => rfl
  | param :: rest, next => (param.counted_param next).append (Ident.counted_params rest _)

mutual
theorem Stmt.counted_withIds : ∀ (statement : Stmt) (next : Nat),
    Counted (statement.withIds next).1.mentions next (statement.withIds next).2
  | .expression _ value, next => value.counted_withIds next
  | .assign _ targets value, next => (Expr.counted_withIdsList targets next).append (value.counted_withIds _)
  | .branch _ condition thenBody none, next =>
    (condition.counted_withIds next).append (Stmt.counted_withIdsList thenBody _)
  | .branch _ condition thenBody (some elseBody), next =>
    ((condition.counted_withIds next).append (Stmt.counted_withIdsList thenBody _)).append
      (Stmt.counted_withIdsList elseBody _)
  | .forEach _ loopName columns body, next =>
    ((loopName.counted_withIds next).append (columns.counted_withIds _)).append (Stmt.counted_withIdsList body _)
  | .whileLoop _ condition body, next =>
    (condition.counted_withIds next).append (Stmt.counted_withIdsList body _)
  | .attempt _ body handler none, next =>
    (Stmt.counted_withIdsList body next).append (Handler.counted_withIds handler _)
  | .attempt _ body handler (some finallyBody), next =>
    ((Stmt.counted_withIdsList body next).append (Handler.counted_withIds handler _)).append
      (Stmt.counted_withIdsList finallyBody _)
  | .function _ name params body, next =>
    ((name.counted_withIds next).append (Ident.counted_params params _)).append (Stmt.counted_withIdsList body _)
  | .declare _ _ names, next => Ident.counted_withIdsList names next
  | .return _ none, _ | .word .., _ | .comment .., _ => rfl
  | .return _ (some value), next => value.counted_withIds next

theorem Handler.counted_withIds : ∀ (handler : Handler) (next : Nat),
    Counted (handler.withIds next).1.mentions next (handler.withIds next).2
  | .absent, _ => rfl
  | .present none body, next => Stmt.counted_withIdsList body next
  | .present (some name) body, next => (name.counted_withIds next).append (Stmt.counted_withIdsList body _)

theorem Stmt.counted_withIdsList : ∀ (statements : List Stmt) (next : Nat),
    Counted (Stmt.mentionsList (Stmt.withIdsList statements next).1) next (Stmt.withIdsList statements next).2
  | [], _ => rfl
  | statement :: rest, next => (Stmt.counted_withIds statement next).append (Stmt.counted_withIdsList rest _)
end

/-- Every identifier has a number of its own. -/
theorem Program.counted_withIds (program : Program) :
    Counted program.withIds.1.mentions 0 program.withIds.2 :=
  Stmt.counted_withIdsList program.statements 0

/-! Annotation. -/

section
variable (table : ScopeTable) (words : ReservedWords)

def Mention.annotate (mention : Mention) : Mention :=
  { mention with ident := (mention.ident.annotate table words).1 }

theorem Counted.annotate {mentions : List Mention} {first last : Nat} (counted : Counted mentions first last) :
    Counted (mentions.map (Mention.annotate table words)) first last := by
  induction mentions generalizing first with
  | nil => exact counted
  | cons mention rest ih => exact ⟨(mention.ident.id_annotate table words).trans counted.1, ih counted.2⟩

/-- What is passed by is annotated all the same. -/
theorem Mention.map_passedBy_annotate (mentions : List Mention) :
    (mentions.map (Mention.annotate table words)).map Mention.passedBy =
      (mentions.map Mention.passedBy).map (Mention.annotate table words) := by
  simp only [List.map_map]
  rfl

mutual
theorem Ident.mentions_annotate : ∀ ident : Ident,
    (ident.annotate table words).1.mentions = ident.mentions.map (Mention.annotate table words)
  | .mk _ none _ _ _ => rfl
  | .mk name (some init) role reserved id => by
    have inner := Expr.mentions_annotate init (.value 1)
    simp only [Ident.annotate, Ident.mentions, inner, Mention.map_passedBy_annotate, List.map_cons]
    rfl

theorem Expr.mentions_annotate : ∀ (expr : Expr) (place : Place),
    (expr.annotate table words place).1.mentions = expr.mentions.map (Mention.annotate table words)
  | .ident _ named, _ => Ident.mentions_annotate named
  | .literal .., _ => rfl
  | .operation _ _ operands none, _ => Expr.mentions_annotateList operands (.value 1)
  | .operation _ _ operands (some result), _ => by
    simp only [Expr.annotate, Expr.mentions, Expr.mentions_annotateList operands, Ident.mentions_annotate result,
      List.map_append]
  | .field _ object _, place => Expr.mentions_annotate object place.inner
  | .dynamicField _ object selector, place => by
    simp only [Expr.annotate, Expr.mentions, Expr.mentions_annotate object, Expr.mentions_annotate selector,
      List.map_append]
  | .index _ _ target arguments, place => by
    simp only [Expr.annotate, Expr.mentions, Expr.mentions_annotate target, Expr.mentions_annotateList arguments,
      List.map_append]
  | .rows _ _ rows, _ => Expr.mentions_annotateRows rows
  | .lambda _ params body, _ => by
    simp only [Expr.annotate, Expr.mentions, Ident.mentions_annotateList params, Expr.mentions_annotate body,
      List.map_append]

theorem Expr.mentions_annotateList : ∀ (exprs : List Expr) (place : Place),
    Expr.mentionsList (Expr.annotateList table words exprs place).1 =
      (Expr.mentionsList exprs).map (Mention.annotate table words)
  | [], _ => rfl
  | expr :: rest, place => by
    simp only [Expr.annotateList, Expr.mentionsList, Expr.mentions_annotate expr, Expr.mentions_annotateList rest,
      List.map_append]

theorem Expr.mentions_annotateRows : ∀ rows : List (List Expr),
    Expr.mentionsRows (Expr.annotateRows table words rows).1 =
      (Expr.mentionsRows rows).map (Mention.annotate table words)
  | [] => rfl
  | row :: rest => by
    simp only [Expr.annotateRows, Expr.mentionsRows, Expr.mentions_annotateList row, Expr.mentions_annotateRows rest,
      List.map_append]

theorem Ident.mentions_annotateList : ∀ idents : List Ident,
    Ident.mentionsList (Ident.annotateList table words idents).1 =
      (Ident.mentionsList idents).map (Mention.annotate table words)
  | [] => rfl
  | ident :: rest => by
    simp only [Ident.annotateList, Ident.mentionsList, Ident.mentions_annotate ident,
      Ident.mentions_annotateList rest, List.map_append]
end

theorem Ident.paramMentions_annotate : ∀ param : Ident,
    (param.annotate table words).1.paramMentions = param.paramMentions.map (Mention.annotate table words)
  | .mk _ none _ _ _ => rfl
  | .mk _ (some init) _ _ _ => congrArg (List.cons _) (init.mentions_annotate table words (.value 1))

theorem Ident.paramMentions_annotateList (params : List Ident) :
    (Ident.annotateList table words params).1.flatMap Ident.paramMentions =
      (params.flatMap Ident.paramMentions).map (Mention.annotate table words) := by
  induction params with
  | nil => rfl
  | cons param rest ih =>
    simp only [Ident.annotateList, List.flatMap_cons, Ident.paramMentions_annotate, ih, List.map_append]

mutual
theorem Stmt.mentions_annotate : ∀ statement : Stmt,
    (statement.annotate table words).1.mentions = statement.mentions.map (Mention.annotate table words)
  | .expression _ value => value.mentions_annotate table words (.value 1)
  | .assign _ targets value => by
    simp only [Stmt.annotate, Stmt.mentions, Expr.mentions_annotateList, Expr.mentions_annotate, List.map_append]
  | .branch _ condition thenBody none => by
    simp only [Stmt.annotate, Stmt.mentions, Expr.mentions_annotate, Stmt.mentions_annotateList thenBody,
      List.map_append]
  | .branch _ condition thenBody (some elseBody) => by
    simp only [Stmt.annotate, Stmt.mentions, Expr.mentions_annotate, Stmt.mentions_annotateList thenBody,
      Stmt.mentions_annotateList elseBody, List.map_append]
  | .forEach _ loopName columns body => by
    simp only [Stmt.annotate, Stmt.mentions, Ident.mentions_annotate, Expr.mentions_annotate,
      Stmt.mentions_annotateList body, List.map_append]
  | .whileLoop _ condition body => by
    simp only [Stmt.annotate, Stmt.mentions, Expr.mentions_annotate, Stmt.mentions_annotateList body,
      List.map_append]
  | .attempt _ body handler none => by
    simp only [Stmt.annotate, Stmt.mentions, Stmt.mentions_annotateList body, Handler.mentions_annotate handler,
      List.map_append]
  | .attempt _ body handler (some finallyBody) => by
    simp only [Stmt.annotate, Stmt.mentions, Stmt.mentions_annotateList body, Handler.mentions_annotate handler,
      Stmt.mentions_annotateList finallyBody, List.map_append]
  | .function _ name params body => by
    simp only [Stmt.annotate, Stmt.mentions, Ident.mentions_annotate, Ident.paramMentions_annotateList,
      Stmt.mentions_annotateList body, List.map_append]
  | .declare _ _ names => Ident.mentions_annotateList table words names
  | .return _ none | .word .. | .comment .. => rfl
  | .return _ (some value) => value.mentions_annotate table words (.value 1)

theorem Handler.mentions_annotate : ∀ handler : Handler,
    (handler.annotate table words).1.mentions = handler.mentions.map (Mention.annotate table words)
  | .absent => rfl
  | .present none body => Stmt.mentions_annotateList body
  | .present (some name) body => by
    simp only [Handler.annotate, Ident.annotateOption, Handler.mentions, Ident.mentions_annotate,
      Stmt.mentions_annotateList body, List.map_append]

theorem Stmt.mentions_annotateList : ∀ statements : List Stmt,
    Stmt.mentionsList (Stmt.annotateList table words statements).1 =
      (Stmt.mentionsList statements).map (Mention.annotate table words)
  | [] => rfl
  | statement :: rest => by
    simp only [Stmt.annotateList, Stmt.mentionsList, Stmt.mentions_annotate statement,
      Stmt.mentions_annotateList rest, List.map_append]
end

theorem Program.mentions_annotate (program : Program) :
    (program.annotate table words).1.mentions = program.mentions.map (Mention.annotate table words) :=
  Stmt.mentions_annotateList table words program.statements

end

/-! Unmarking. -/

def Mention.unmarked (mention : Mention) : Mention :=
  { mention with ident := mention.ident.unmarked }

theorem Mention.map_passedBy_unmarked (mentions : List Mention) :
    (mentions.map Mention.unmarked).map Mention.passedBy = (mentions.map Mention.passedBy).map Mention.unmarked := by
  simp only [List.map_map]
  rfl

mutual
theorem Ident.mentions_unmarked : ∀ ident : Ident, ident.unmarked.mentions = ident.mentions.map Mention.unmarked
  | .mk _ none _ _ _ => rfl
  | .mk _ (some init) _ _ _ => by
    simp only [Ident.unmarked, Ident.mentions, Expr.mentions_unmarked init, Mention.map_passedBy_unmarked,
      List.map_cons]
    rfl

theorem Expr.mentions_unmarked : ∀ expr : Expr, expr.unmarked.mentions = expr.mentions.map Mention.unmarked
  | .ident _ named => Ident.mentions_unmarked named
  | .literal .. => rfl
  | .operation _ _ operands none => Expr.mentions_unmarkedList operands
  | .operation _ _ operands (some result) => by
    simp only [Expr.unmarked, Expr.mentions, Expr.mentions_unmarkedList operands, Ident.mentions_unmarked result,
      List.map_append]
  | .field _ object _ => Expr.mentions_unmarked object
  | .dynamicField _ object selector => by
    simp only [Expr.unmarked, Expr.mentions, Expr.mentions_unmarked object, Expr.mentions_unmarked selector,
      List.map_append]
  | .index _ _ target arguments => by
    simp only [Expr.unmarked, Expr.mentions, Expr.mentions_unmarked target, Expr.mentions_unmarkedList arguments,
      List.map_append]
  | .rows _ _ rows => Expr.mentions_unmarkedRows rows
  | .lambda _ params body => by
    simp only [Expr.unmarked, Expr.mentions, Ident.mentions_unmarkedList params, Expr.mentions_unmarked body,
      List.map_append]

theorem Expr.mentions_unmarkedList : ∀ exprs : List Expr,
    Expr.mentionsList (Expr.unmarkedList exprs) = (Expr.mentionsList exprs).map Mention.unmarked
  | [] => rfl
  | expr :: rest => by
    simp only [Expr.unmarkedList, Expr.mentionsList, Expr.mentions_unmarked expr, Expr.mentions_unmarkedList rest,
      List.map_append]

theorem Expr.mentions_unmarkedRows : ∀ rows : List (List Expr),
    Expr.mentionsRows (Expr.unmarkedRows rows) = (Expr.mentionsRows rows).map Mention.unmarked
  | [] => rfl
  | row :: rest => by
    simp only [Expr.unmarkedRows, Expr.mentionsRows, Expr.mentions_unmarkedList row, Expr.mentions_unmarkedRows rest,
      List.map_append]

theorem Ident.mentions_unmarkedList : ∀ idents : List Ident,
    Ident.mentionsList (Ident.unmarkedList idents) = (Ident.mentionsList idents).map Mention.unmarked
  | [] => rfl
  | ident :: rest => by
    simp only [Ident.unmarkedList, Ident.mentionsList, Ident.mentions_unmarked ident,
      Ident.mentions_unmarkedList rest, List.map_append]
end

theorem Ident.paramMentions_unmarked : ∀ param : Ident,
    param.unmarked.paramMentions = param.paramMentions.map Mention.unmarked
  | .mk _ none _ _ _ => rfl
  | .mk _ (some init) _ _ _ => congrArg (List.cons _) init.mentions_unmarked

theorem Ident.paramMentions_unmarkedList (params : List Ident) :
    (Ident.unmarkedList params).flatMap Ident.paramMentions =
      (params.flatMap Ident.paramMentions).map Mention.unmarked := by
  induction params with
  | nil => rfl
  | cons param rest ih =>
    simp only [Ident.unmarkedList, List.flatMap_cons, Ident.paramMentions_unmarked, ih, List.map_append]

mutual
theorem Stmt.mentions_unmarked : ∀ statement : Stmt,
    statement.unmarked.mentions = statement.mentions.map Mention.unmarked
  | .expression _ value => value.mentions_unmarked
  | .assign _ targets value => by
    simp only [Stmt.unmarked, Stmt.mentions, Expr.mentions_unmarkedList, Expr.mentions_unmarked, List.map_append]
  | .branch _ condition thenBody none => by
    simp only [Stmt.unmarked, Stmt.mentions, Expr.mentions_unmarked, Stmt.mentions_unmarkedList thenBody,
      List.map_append]
  | .branch _ condition thenBody (some elseBody) => by
    simp only [Stmt.unmarked, Stmt.mentions, Expr.mentions_unmarked, Stmt.mentions_unmarkedList thenBody,
      Stmt.mentions_unmarkedList elseBody, List.map_append]
  | .forEach _ loopName columns body => by
    simp only [Stmt.unmarked, Stmt.mentions, Ident.mentions_unmarked, Expr.mentions_unmarked,
      Stmt.mentions_unmarkedList body, List.map_append]
  | .whileLoop _ condition body => by
    simp only [Stmt.unmarked, Stmt.mentions, Expr.mentions_unmarked, Stmt.mentions_unmarkedList body,
      List.map_append]
  | .attempt _ body handler none => by
    simp only [Stmt.unmarked, Stmt.mentions, Stmt.mentions_unmarkedList body, Handler.mentions_unmarked handler,
      List.map_append]
  | .attempt _ body handler (some finallyBody) => by
    simp only [Stmt.unmarked, Stmt.mentions, Stmt.mentions_unmarkedList body, Handler.mentions_unmarked handler,
      Stmt.mentions_unmarkedList finallyBody, List.map_append]
  | .function _ name params body => by
    simp only [Stmt.unmarked, Stmt.mentions, Ident.mentions_unmarked, Ident.paramMentions_unmarkedList,
      Stmt.mentions_unmarkedList body, List.map_append]
  | .declare _ _ names => Ident.mentions_unmarkedList names
  | .return _ none | .word .. | .comment .. => rfl
  | .return _ (some value) => value.mentions_unmarked

theorem Handler.mentions_unmarked : ∀ handler : Handler,
    handler.unmarked.mentions = handler.mentions.map Mention.unmarked
  | .absent => rfl
  | .present none body => Stmt.mentions_unmarkedList body
  | .present (some name) body => by
    simp only [Handler.unmarked, Option.map, Handler.mentions, Ident.mentions_unmarked,
      Stmt.mentions_unmarkedList body, List.map_append]

theorem Stmt.mentions_unmarkedList : ∀ statements : List Stmt,
    Stmt.mentionsList (Stmt.unmarkedList statements) = (Stmt.mentionsList statements).map Mention.unmarked
  | [] => rfl
  | statement :: rest => by
    simp only [Stmt.unmarkedList, Stmt.mentionsList, Stmt.mentions_unmarked statement,
      Stmt.mentions_unmarkedList rest, List.map_append]
end

theorem Program.mentions_unmarked (program : Program) :
    program.unmarked.mentions = program.mentions.map Mention.unmarked :=
  Stmt.mentions_unmarkedList program.statements

/-- Where the mentions stand and what the walk passes by does not depend on annotations. -/
theorem Program.forall_mentions_unmarked (program : Program) {holds : Mention → Prop}
    (kept : ∀ mention : Mention, holds mention.unmarked ↔ holds mention) :
    (∀ mention ∈ program.unmarked.mentions, holds mention) ↔ ∀ mention ∈ program.mentions, holds mention := by
  rw [program.mentions_unmarked, List.forall_mem_map]
  exact forall₂_congr fun mention _ => kept mention

end ArrayLift
