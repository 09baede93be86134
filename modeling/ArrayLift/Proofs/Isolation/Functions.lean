import ArrayLift.Proofs.Annotation.Mentions
import ArrayLift.Proofs.Layout.Nested
import ArrayLift.Proofs.Walk.Tidy
import ArrayLift.Proofs.Reaching.Trace
import Mathlib.Data.List.Forall2

/-! The functions of a program in the order in which the walk opens their scopes. With explicit ownership they
stand one by one on the route, each with its own body. -/
namespace ArrayLift

mutual
/-- The functions of a statement in the order of the text, those inside a function behind it. -/
def Stmt.functions : Stmt → List Stmt
  | .branch _ _ thenBody none => Stmt.functionsList thenBody
  | .branch _ _ thenBody (some elseBody) => Stmt.functionsList thenBody ++ Stmt.functionsList elseBody
  | .forEach _ _ _ body => Stmt.functionsList body
  | .whileLoop _ _ body => Stmt.functionsList body
  | .attempt _ body handler none => Stmt.functionsList body ++ Handler.functions handler
  | .attempt _ body handler (some finallyBody) =>
    Stmt.functionsList body ++ Handler.functions handler ++ Stmt.functionsList finallyBody
  | .function line name params body => .function line name params body :: Stmt.functionsList body
  | .expression .. | .assign .. | .declare .. | .return .. | .word .. | .comment .. => []

def Handler.functions : Handler → List Stmt
  | .absent => []
  | .present _ body => Stmt.functionsList body

def Stmt.functionsList : List Stmt → List Stmt
  | [] => []
  | statement :: rest => Stmt.functions statement ++ Stmt.functionsList rest
end

/-- The functions of a program. What follows a function without a body is no part of it here, so they are taken
from the program with explicit ownership. -/
def Program.functions (program : Program) : List Stmt :=
  Stmt.functionsList program.nested.statements

/-! Numbering and annotation. -/

/-- The function, numbered from some first number. -/
def Stmt.NumberedAs (function numbered : Stmt) : Prop :=
  ∃ first, numbered = (function.withIds first).1

mutual
theorem Stmt.functions_withIds : ∀ (statement : Stmt) (next : Nat),
    List.Forall₂ Stmt.NumberedAs statement.functions (statement.withIds next).1.functions
  | .branch _ _ thenBody none, _ => Stmt.functionsList_withIds thenBody _
  | .branch _ _ thenBody (some elseBody), _ =>
    List.rel_append (Stmt.functionsList_withIds thenBody _) (Stmt.functionsList_withIds elseBody _)
  | .forEach _ _ _ body, _ | .whileLoop _ _ body, _ => Stmt.functionsList_withIds body _
  | .attempt _ body handler none, _ =>
    List.rel_append (Stmt.functionsList_withIds body _) (Handler.functions_withIds handler _)
  | .attempt _ body handler (some finallyBody), _ =>
    List.rel_append (List.rel_append (Stmt.functionsList_withIds body _) (Handler.functions_withIds handler _))
      (Stmt.functionsList_withIds finallyBody _)
  | .function _ _ _ body, next => .cons ⟨next, rfl⟩ (Stmt.functionsList_withIds body _)
  | .expression .., _ | .assign .., _ | .declare .., _ | .return _ none, _ | .return _ (some _), _ | .word .., _
  | .comment .., _ => .nil

theorem Handler.functions_withIds : ∀ (handler : Handler) (next : Nat),
    List.Forall₂ Stmt.NumberedAs handler.functions (handler.withIds next).1.functions
  | .absent, _ => .nil
  | .present _ body, _ => Stmt.functionsList_withIds body _

theorem Stmt.functionsList_withIds : ∀ (statements : List Stmt) (next : Nat),
    List.Forall₂ Stmt.NumberedAs (Stmt.functionsList statements)
      (Stmt.functionsList (Stmt.withIdsList statements next).1)
  | [], _ => .nil
  | statement :: rest, next =>
    List.rel_append (Stmt.functions_withIds statement next) (Stmt.functionsList_withIds rest _)
end

/-- A function of a list is numbered from some number on when the list is. -/
theorem Stmt.getElem?_functions_withIds {statements : List Stmt} {index : Nat} {function : Stmt}
    (found : (Stmt.functionsList statements)[index]? = some function) (next : Nat) :
    ∃ first, (Stmt.functionsList (Stmt.withIdsList statements next).1)[index]? = some (function.withIds first).1 := by
  obtain ⟨lengths, each⟩ := List.forall₂_iff_get.mp (Stmt.functionsList_withIds statements next)
  obtain ⟨inside, rfl⟩ := List.getElem?_eq_some_iff.mp found
  obtain ⟨first, numbered⟩ := each index inside (lengths ▸ inside)
  exact ⟨first, List.getElem?_eq_some_iff.mpr ⟨lengths ▸ inside, numbered⟩⟩

section
variable (table : ScopeTable) (words : ReservedWords)

mutual
theorem Stmt.functions_annotate : ∀ statement : Stmt,
    (statement.annotate table words).1.functions =
      statement.functions.map fun function => (function.annotate table words).1
  | .branch _ _ thenBody none => Stmt.functionsList_annotate thenBody
  | .branch _ _ thenBody (some elseBody) => by
    simp only [Stmt.annotate, Stmt.functions, Stmt.functionsList_annotate thenBody,
      Stmt.functionsList_annotate elseBody, List.map_append]
  | .forEach _ _ _ body | .whileLoop _ _ body => Stmt.functionsList_annotate body
  | .attempt _ body handler none => by
    simp only [Stmt.annotate, Stmt.functions, Stmt.functionsList_annotate body, Handler.functions_annotate handler,
      List.map_append]
  | .attempt _ body handler (some finallyBody) => by
    simp only [Stmt.annotate, Stmt.functions, Stmt.functionsList_annotate body, Handler.functions_annotate handler,
      Stmt.functionsList_annotate finallyBody, List.map_append]
  | .function _ _ _ body => by
    simp only [Stmt.annotate, Stmt.functions, Stmt.functionsList_annotate body, List.map_cons]
  | .expression .. | .assign .. | .declare .. | .return _ none | .return _ (some _) | .word .. | .comment .. => rfl

theorem Handler.functions_annotate : ∀ handler : Handler,
    (handler.annotate table words).1.functions =
      handler.functions.map fun function => (function.annotate table words).1
  | .absent => rfl
  | .present _ body => Stmt.functionsList_annotate body

theorem Stmt.functionsList_annotate : ∀ statements : List Stmt,
    Stmt.functionsList (Stmt.annotateList table words statements).1 =
      (Stmt.functionsList statements).map fun function => (function.annotate table words).1
  | [] => rfl
  | statement :: rest => by
    simp only [Stmt.annotateList, Stmt.functionsList, Stmt.functions_annotate statement,
      Stmt.functionsList_annotate rest, List.map_append]
end

end

/-! What a function has from the program around it. -/

/-- The functions of a piece of a program mention what it mentions, with explicit ownership if it has. -/
structure Stmt.Contained (functions : List Stmt) (mentions : List Mention) (explicit : Prop) : Prop where
  isFunction : ∀ function ∈ functions, function.isFunction = true
  mentioned : ∀ function ∈ functions, function.mentions ⊆ mentions
  explicit : explicit → ∀ function ∈ functions, function.Explicit

namespace Stmt.Contained

variable {one other : List Stmt} {first second mentions : List Mention} {owned also explicit : Prop}

theorem nil : Contained [] mentions explicit :=
  ⟨List.forall_mem_nil _, List.forall_mem_nil _, fun _ => List.forall_mem_nil _⟩

theorem mono (contained : Contained one first owned) (within : first ⊆ mentions) (weaker : explicit → owned) :
    Contained one mentions explicit :=
  ⟨contained.isFunction, fun function member => List.Subset.trans (contained.mentioned function member) within,
    fun whole => contained.explicit (weaker whole)⟩

theorem append (left : Contained one first owned) (right : Contained other second also) :
    Contained (one ++ other) (first ++ second) (owned ∧ also) :=
  ⟨List.forall_mem_append.mpr ⟨left.isFunction, right.isFunction⟩,
    List.forall_mem_append.mpr
      ⟨fun function member => List.subset_append_of_subset_left _ (left.mentioned function member),
        fun function member => List.subset_append_of_subset_right _ (right.mentioned function member)⟩,
    fun whole => List.forall_mem_append.mpr ⟨left.explicit whole.1, right.explicit whole.2⟩⟩

end Stmt.Contained

mutual
theorem Stmt.contained : ∀ statement : Stmt,
    Stmt.Contained statement.functions statement.mentions statement.Explicit
  | .branch _ _ thenBody none => (Stmt.containedList thenBody).mono (List.subset_append_right _ _) id
  | .branch _ condition thenBody (some elseBody) => by
    have both := (Stmt.containedList thenBody).append (Stmt.containedList elseBody)
    refine both.mono ?_ id
    rw [Stmt.mentions, List.append_assoc]
    exact List.subset_append_right _ _
  | .forEach _ _ _ body => (Stmt.containedList body).mono (List.subset_append_right _ _) id
  | .whileLoop _ _ body => (Stmt.containedList body).mono (List.subset_append_right _ _) id
  | .attempt _ body handler none => (Stmt.containedList body).append (Handler.contained handler)
  | .attempt _ body handler (some finallyBody) =>
    (((Stmt.containedList body).append (Handler.contained handler)).append (Stmt.containedList finallyBody)).mono
      (List.Subset.refl _) and_assoc.mpr
  | .function line name params body => by
    have inner : Stmt.Contained (Stmt.functionsList body) (Stmt.function line name params body).mentions
        (Stmt.function line name params body).Explicit :=
      (Stmt.containedList body).mono (List.subset_append_right _ _) id
    exact ⟨List.forall_mem_cons.mpr ⟨rfl, inner.isFunction⟩,
      List.forall_mem_cons.mpr ⟨List.Subset.refl _, inner.mentioned⟩,
      fun whole => List.forall_mem_cons.mpr ⟨whole, inner.explicit whole⟩⟩
  | .expression .. | .assign .. | .declare .. | .return .. | .word .. | .comment .. => .nil

theorem Handler.contained : ∀ handler : Handler,
    Stmt.Contained handler.functions handler.mentions handler.Explicit
  | .absent => .nil
  | .present none body => Stmt.containedList body
  | .present (some _) body => (Stmt.containedList body).mono (List.subset_append_right _ _) id

theorem Stmt.containedList : ∀ statements : List Stmt,
    Stmt.Contained (Stmt.functionsList statements) (Stmt.mentionsList statements) (Stmt.ExplicitList statements)
  | [] => .nil
  | statement :: rest =>
    ((Stmt.contained statement).append (Stmt.containedList rest)).mono (List.Subset.refl _)
      fun whole => ⟨whole.1, whole.2.2⟩
end

theorem Stmt.withIds_isFlatFunction (statement : Stmt) (next : Nat) :
    (statement.withIds next).1.isFlatFunction = statement.isFlatFunction := by
  match statement with
  | .function _ _ _ [] | .function _ _ _ (_ :: _) => rfl
  | .branch _ _ _ none | .branch _ _ _ (some _) | .attempt _ _ _ none | .attempt _ _ _ (some _) | .return _ none
  | .return _ (some _) | .expression .. | .assign .. | .forEach .. | .whileLoop .. | .declare .. | .word ..
  | .comment .. => rfl

theorem Stmt.StartsAnew.withIds {statements : List Stmt} (anew : Stmt.StartsAnew statements) (next : Nat) :
    Stmt.StartsAnew (Stmt.withIdsList statements next).1 := by
  cases statements with
  | nil => exact anew
  | cons statement rest =>
    intro first head
    obtain rfl := Option.some.inj head
    exact (statement.withIds_isFunction next).trans (anew statement rfl)

mutual
/-- Numbering leaves ownership explicit. -/
theorem Stmt.Explicit.withIds : ∀ {statement : Stmt}, statement.Explicit → ∀ next : Nat,
    (statement.withIds next).1.Explicit
  | .branch _ _ _ none, explicit, _ => Stmt.ExplicitList.withIds explicit _
  | .branch _ _ _ (some _), explicit, _ =>
    ⟨Stmt.ExplicitList.withIds explicit.1 _, Stmt.ExplicitList.withIds explicit.2 _⟩
  | .forEach .., explicit, _ | .whileLoop .., explicit, _ | .function .., explicit, _ =>
    Stmt.ExplicitList.withIds explicit _
  | .attempt _ _ _ none, explicit, _ =>
    ⟨Stmt.ExplicitList.withIds explicit.1 _, Handler.Explicit.withIds explicit.2 _⟩
  | .attempt _ _ _ (some _), explicit, _ =>
    ⟨Stmt.ExplicitList.withIds explicit.1 _, Handler.Explicit.withIds explicit.2.1 _,
      Stmt.ExplicitList.withIds explicit.2.2 _⟩
  | .expression .., _, _ | .assign .., _, _ | .declare .., _, _ | .return _ none, _, _ | .return _ (some _), _, _
  | .word .., _, _ | .comment .., _, _ => trivial

theorem Handler.Explicit.withIds : ∀ {handler : Handler}, handler.Explicit → ∀ next : Nat,
    (handler.withIds next).1.Explicit
  | .absent, _, _ => trivial
  | .present _ _, explicit, _ => Stmt.ExplicitList.withIds explicit _

theorem Stmt.ExplicitList.withIds : ∀ {statements : List Stmt}, Stmt.ExplicitList statements → ∀ next : Nat,
    Stmt.ExplicitList (Stmt.withIdsList statements next).1
  | [], _, _ => trivial
  | statement :: _, ⟨first, owns, others⟩, next =>
    ⟨first.withIds next, fun flat => (owns ((statement.withIds_isFlatFunction next).symm.trans flat)).withIds _,
      others.withIds _⟩
end

/-! Routes. -/

namespace Route

/-- The functions on a route, in the order of their opening. -/
def functionRoutes : Route → List Route
  | .stay | .step _ | .jump _ => []
  | .seq first second | .fork first second | .ensure first second | .finish first second =>
    functionRoutes first ++ functionRoutes second
  | .attempt body | .loop body | .aside body => functionRoutes body
  | .function id name line body => .function id name line body :: functionRoutes body

theorem length_functionRoutes (route : Route) : route.functionRoutes.length = route.functionIds.length := by
  induction route with
  | stay | step _ | jump _ => rfl
  | seq first second ihFirst ihSecond | fork first second ihFirst ihSecond | ensure first second ihFirst ihSecond
  | finish first second ihFirst ihSecond =>
    simp only [functionRoutes, functionIds, List.length_append, ihFirst, ihSecond]
  | attempt body ih | loop body ih | aside body ih => exact ih
  | function id name line body ih => exact congrArg (· + 1) ih

theorem Simple.functionRoutes {route : Route} (simple : route.Simple) : route.functionRoutes = [] := by
  rw [← List.length_eq_zero_iff, length_functionRoutes, simple.functionIds, List.length_nil]

/-- A part of a route that starts in the scope `outer` and opens the scope `own` has occurrences, steps and functions
of the route. -/
structure Stands (part : Route) (outer own : ScopeId) (again : Bool) (whole : Route) (scope next : ScopeId)
    (repeated : Bool) : Prop where
  occurrences : part.occurrences outer own ⊆ whole.occurrences scope next
  places : part.places outer own ⊆ whole.places scope next
  regions : part.regions own again ⊆ whole.regions next repeated

/-- The functions on a route open their scopes one after the other. -/
theorem stands_of_functionRoutes {whole part : Route} {index : Nat} (found : whole.functionRoutes[index]? = some part)
    (scope next : Nat) (repeated : Bool) :
    ∃ outer again, part.Stands outer (next + index) again whole scope next repeated := by
  induction whole generalizing index scope next repeated with
  | stay | step _ | jump _ => cases found
  | seq first second ihFirst ihSecond | fork first second ihFirst ihSecond | ensure first second ihFirst ihSecond
  | finish first second ihFirst ihSecond =>
    rcases Nat.lt_or_ge index first.functionRoutes.length with early | late
    · have inFirst : first.functionRoutes[index]? = some part := by
        rwa [functionRoutes, List.getElem?_append_left early] at found
      obtain ⟨outer, again, occurrences, places, regions⟩ := ihFirst inFirst scope next repeated
      exact ⟨outer, again, List.subset_append_of_subset_left _ occurrences,
        List.subset_append_of_subset_left _ places, List.subset_append_of_subset_left _ regions⟩
    · have inSecond : second.functionRoutes[index - first.functionRoutes.length]? = some part := by
        rwa [functionRoutes, List.getElem?_append_right late] at found
      have same : next + first.functionIds.length + (index - first.functionRoutes.length) = next + index := by
        rw [length_functionRoutes] at late ⊢
        omega
      obtain ⟨outer, again, occurrences, places, regions⟩ :=
        ihSecond inSecond scope (next + first.functionIds.length) repeated
      rw [same] at occurrences places regions
      exact ⟨outer, again, List.subset_append_of_subset_right _ occurrences,
        List.subset_append_of_subset_right _ places, List.subset_append_of_subset_right _ regions⟩
  | attempt body ih | aside body ih =>
    obtain ⟨outer, again, stands⟩ := ih found scope next repeated
    exact ⟨outer, again, stands.occurrences, stands.places, stands.regions⟩
  | loop body ih =>
    obtain ⟨outer, again, stands⟩ := ih found scope next true
    exact ⟨outer, again, stands.occurrences, stands.places, stands.regions⟩
  | function id name line body ih =>
    cases index with
    | zero =>
      obtain rfl := Option.some.inj found
      exact ⟨scope, repeated, List.Subset.refl _, List.Subset.refl _, List.Subset.refl _⟩
    | succ index =>
      obtain ⟨outer, again, occurrences, places, regions⟩ := ih found next (next + 1) repeated
      rw [Nat.add_right_comm] at occurrences places regions
      exact ⟨outer, again, List.subset_append_of_subset_right _ occurrences, places,
        List.subset_cons_of_subset _ regions⟩

/-- The functions on a route have the scopes from `next` on, in their order. -/
theorem map_scope_regions (route : Route) (next : Nat) (repeated : Bool) :
    (route.regions next repeated).map Region.scope = List.range' next route.functionIds.length := by
  induction route generalizing next repeated with
  | stay | step _ | jump _ => rfl
  | seq first second ihFirst ihSecond | fork first second ihFirst ihSecond | ensure first second ihFirst ihSecond
  | finish first second ihFirst ihSecond =>
    simp only [regions, functionIds, List.map_append, List.length_append, ihFirst, ihSecond, List.range'_append_1]
  | attempt body ih | aside body ih => exact ih next repeated
  | loop body ih => exact ih next true
  | function id name line body ih =>
    simp only [regions, functionIds, List.map_cons, List.length_cons, ih, List.range'_succ]

/-- Whether a route stands in a loop is no matter to the bodies of its functions. -/
theorem regions_again {route : Route} {next : ScopeId} {repeated : Bool} {region : Region}
    (member : region ∈ route.regions next repeated) (other : Bool) :
    ∃ again, { region with repeated := again } ∈ route.regions next other := by
  induction route generalizing next repeated other with
  | stay | step _ | jump _ => cases member
  | seq first second ihFirst ihSecond | fork first second ihFirst ihSecond | ensure first second ihFirst ihSecond
  | finish first second ihFirst ihSecond =>
    rcases List.mem_append.mp member with inFirst | inSecond
    · exact (ihFirst inFirst other).imp fun _ there => List.mem_append_left _ there
    · exact (ihSecond inSecond other).imp fun _ there => List.mem_append_right _ there
  | attempt body ih | aside body ih => exact ih member other
  | loop body ih => exact ih member true
  | function id name line body ih =>
    rcases List.mem_cons.mp member with rfl | inner
    · exact ⟨other, List.mem_cons_self⟩
    · exact (ih inner other).imp fun _ there => List.mem_cons_of_mem _ there

/-- The steps on a route stand in its own scope or in those of its functions. -/
theorem places_scope {route : Route} {scope next : Nat} {place : ScopeId × Step}
    (member : place ∈ route.places scope next) :
    place.1 = scope ∨ (next ≤ place.1 ∧ next + route.functionIds.length > place.1) := by
  induction route generalizing scope next with
  | stay | jump _ => cases member
  | step action => exact .inl (congrArg Prod.fst (List.mem_singleton.mp member))
  | seq first second ihFirst ihSecond | fork first second ihFirst ihSecond | ensure first second ihFirst ihSecond
  | finish first second ihFirst ihSecond =>
    simp only [functionIds, List.length_append]
    rcases List.mem_append.mp member with inFirst | inSecond
    · exact (ihFirst inFirst).imp_right fun inside => ⟨inside.1, by omega⟩
    · exact (ihSecond inSecond).imp_right fun inside => ⟨by omega, by omega⟩
  | attempt body ih | loop body ih | aside body ih => exact ih member
  | function id name line body ih =>
    simp only [functionIds, List.length_cons]
    rcases ih member with same | inside
    · rw [same]
      exact .inr ⟨Nat.le_refl next, by omega⟩
    · exact .inr ⟨by omega, by omega⟩

end Route

namespace Stmt

/-- The route through the body of a function in a program with explicit ownership. -/
def bodyRoute : List Stmt → Route
  | [] => .stay
  | statement :: rest => .block (routes (statement :: rest))

/-- The route through a function in a program with explicit ownership. -/
def functionRoute : Stmt → Route
  | .function line name params body =>
    .function name.id name.name line (.seq (.all (params.map (Ident.paramRoute line))) (bodyRoute body))
  | other => other.route

end Stmt

/-- Parameters open no functions. -/
theorem Ident.functionRoutes_params (line : SourceLine) (params : List Ident) :
    (Route.all (params.map (Ident.paramRoute line))).functionRoutes = [] := by
  refine (Route.simple_all fun route member => ?_).functionRoutes
  obtain ⟨param, _, rfl⟩ := List.mem_map.mp member
  exact param.simple_paramRoute line

theorem Stmt.functionRoutes_declare (declaration : Declaration) (line : SourceLine) (names : List Ident) :
    (Route.all (names.map (Route.declare declaration line))).functionRoutes = [] := by
  induction names with
  | nil => rfl
  | cons name rest ih =>
    have own : (Route.declare declaration line name).functionRoutes = [] := by
      unfold Route.declare
      split <;> rfl
    simp only [List.map_cons, Route.all, Route.functionRoutes, own, ih, List.append_nil]

theorem Stmt.routes_startsAnew {statements : List Stmt} (anew : Stmt.StartsAnew statements) :
    (Stmt.routes statements).1 = .stay := by
  match statements with
  | [] | .function _ _ _ [] :: _ | .function _ _ _ (_ :: _) :: _ => rfl
  | .expression .. :: _ | .assign .. :: _ | .branch .. :: _ | .forEach .. :: _ | .whileLoop .. :: _
  | .attempt .. :: _ | .declare .. :: _ | .return .. :: _ | .word .. :: _ | .comment .. :: _ =>
    cases anew _ rfl

mutual
theorem Stmt.functionRoutes_route : ∀ statement : Stmt, statement.Explicit → statement.isFlatFunction = false →
    statement.route.functionRoutes = statement.functions.map Stmt.functionRoute
  | .branch _ condition thenBody none, explicit, _ => by
    simp only [Stmt.route, Route.functionRoutes, condition.simple_route.functionRoutes,
      Stmt.functionRoutes_block thenBody explicit, Stmt.functions, List.nil_append, List.append_nil]
  | .branch _ condition thenBody (some elseBody), explicit, _ => by
    simp only [Stmt.route, Route.functionRoutes, condition.simple_route.functionRoutes,
      Stmt.functionRoutes_block thenBody explicit.1, Stmt.functionRoutes_block elseBody explicit.2, Stmt.functions,
      List.nil_append, List.map_append]
  | .forEach line loopName columns body, explicit, _ => by
    simp only [Stmt.route, Route.functionRoutes, columns.simple_route.functionRoutes,
      (Route.simple_define loopName line .definition).functionRoutes, Stmt.functionRoutes_block body explicit,
      Stmt.functions, List.nil_append, List.append_nil]
  | .whileLoop _ condition body, explicit, _ => by
    simp only [Stmt.route, Route.functionRoutes, condition.simple_route.functionRoutes,
      Stmt.functionRoutes_block body explicit, Stmt.functions, List.nil_append, List.append_nil]
  | .attempt line body handler none, explicit, _ => by
    simp only [Stmt.route, Route.functionRoutes, Stmt.functionRoutes_block body explicit.1,
      Handler.functionRoutes_route handler line explicit.2, Stmt.functions, List.append_nil, List.map_append]
  | .attempt line body handler (some finallyBody), explicit, _ => by
    simp only [Stmt.route, Route.functionRoutes, Stmt.functionRoutes_block body explicit.1,
      Handler.functionRoutes_route handler line explicit.2.1, Stmt.functionRoutes_block finallyBody explicit.2.2,
      Stmt.functions, List.map_append]
  | .function _ _ _ [], _, flat => by cases flat
  | .function line name params (head :: tail), explicit, _ => by
    have inner := Stmt.functionRoutes_block (head :: tail) explicit
    simp only [Stmt.route, Route.functionRoutes, Ident.functionRoutes_params, inner, Stmt.functions, List.map_cons,
      Stmt.functionRoute, Stmt.bodyRoute, List.nil_append]
  | .expression _ value, _, _ => value.simple_route.functionRoutes
  | .assign line targets value, _, _ => by
    have assigned : (Route.all (targets.map (Expr.targetRoute · .definition))).Simple := by
      refine Route.simple_all fun route member => ?_
      obtain ⟨target, _, rfl⟩ := List.mem_map.mp member
      exact target.simple_targetRoute .definition
    simp only [Stmt.route, Route.functionRoutes, value.simple_route.functionRoutes, assigned.functionRoutes,
      (Route.simple_checkArity line _ value).functionRoutes]
    rfl
  | .declare line declaration names, _, _ => Stmt.functionRoutes_declare declaration line names
  | .return _ none, _, _ | .comment .., _, _ => rfl
  | .return _ (some value), _, _ => by
    simp only [Stmt.route, Route.functionRoutes, value.simple_route.functionRoutes]
    rfl
  | .word _ .break, _, _ | .word _ .continue, _, _ | .word _ .pass, _, _ | .word _ .nothing, _, _ => rfl

theorem Handler.functionRoutes_route : ∀ (handler : Handler) (line : SourceLine), handler.Explicit →
    (handler.route line).functionRoutes = handler.functions.map Stmt.functionRoute
  | .absent, _, _ => rfl
  | .present none body, _, explicit => by
    simp only [Handler.route, Route.functionRoutes, Stmt.functionRoutes_block body explicit, Handler.functions,
      List.nil_append]
  | .present (some name) body, line, explicit => by
    simp only [Handler.route, Route.functionRoutes, (Route.simple_define name line .definition).functionRoutes,
      Stmt.functionRoutes_block body explicit, Handler.functions, List.nil_append]

/-- With explicit ownership the functions on the route of a list are the functions of the list. -/
theorem Stmt.functionRoutes_block : ∀ statements : List Stmt, Stmt.ExplicitList statements →
    (Route.block (Stmt.routes statements)).functionRoutes = (Stmt.functionsList statements).map Stmt.functionRoute
  | [], _ => rfl
  | statement :: rest, explicit => by
    obtain ⟨first, owns, others⟩ := explicit
    have behind := Stmt.functionRoutes_block rest others
    have visited := Stmt.functionRoutes_route statement first
    rw [Route.block, Route.functionRoutes] at behind
    match statement with
    | .function line name params [] =>
      have own := Stmt.routes_startsAnew (owns rfl)
      rw [own] at behind
      simp only [Route.block, Stmt.routes, own, Route.functionRoutes, Ident.functionRoutes_params,
        Stmt.functionsList, Stmt.functions, List.map_cons, List.nil_append, List.cons_append] at behind ⊢
      rw [behind]
      rfl
    | .function line name params (head :: tail) =>
      rw [Stmt.functionsList, List.map_append, ← visited rfl, ← behind]
      rfl
    | .branch .. | .attempt .. | .return .. | .expression .. | .assign .. | .forEach .. | .whileLoop ..
    | .declare .. | .word .. | .comment .. =>
      rw [Stmt.functionsList, List.map_append, ← visited rfl, ← behind, ← List.append_assoc]
      rfl
end

/-- With explicit ownership the functions on the route of a function are the function and those inside. -/
theorem Stmt.functionRoutes_functionRoute {function : Stmt} (isFunction : function.isFunction = true)
    (explicit : function.Explicit) : function.functionRoute.functionRoutes = function.functions.map functionRoute := by
  match function, isFunction with
  | .function line name params [], _ =>
    simp only [functionRoute, bodyRoute, Route.functionRoutes, Ident.functionRoutes_params, functions, functionsList,
      List.map_cons, List.map_nil, List.append_nil]
  | .function line name params (head :: tail), _ => exact Stmt.functionRoutes_route _ explicit rfl

end ArrayLift
