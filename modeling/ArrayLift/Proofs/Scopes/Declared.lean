import ArrayLift.Proofs.Annotation.Mentions
import ArrayLift.Proofs.Walk.Tidy

/-! The names that a program declares global or persistent, collected from its statements. A route declares exactly
what the statements on it declare. -/
namespace ArrayLift

section
variable (declaration : Declaration)

mutual
/-- The identifiers in the declarations of one kind, those in functions among them. -/
def Stmt.declared : Stmt → List Ident
  | .declare _ own names => if own = declaration then names else []
  | .branch _ _ thenBody none => Stmt.declaredList thenBody
  | .branch _ _ thenBody (some elseBody) => Stmt.declaredList thenBody ++ Stmt.declaredList elseBody
  | .forEach _ _ _ body | .whileLoop _ _ body | .function _ _ _ body => Stmt.declaredList body
  | .attempt _ body handler none => Stmt.declaredList body ++ Handler.declared handler
  | .attempt _ body handler (some finallyBody) =>
    Stmt.declaredList body ++ Handler.declared handler ++ Stmt.declaredList finallyBody
  | .expression .. | .assign .. | .return .. | .word .. | .comment .. => []

def Handler.declared : Handler → List Ident
  | .absent => []
  | .present _ body => Stmt.declaredList body

def Stmt.declaredList : List Stmt → List Ident
  | [] => []
  | statement :: rest => Stmt.declared statement ++ Stmt.declaredList rest
end

def Program.declared (program : Program) : List Ident :=
  Stmt.declaredList declaration program.statements

end

/-! Annotation. -/

section
variable (declaration : Declaration) (table : ScopeTable) (words : ReservedWords)

theorem Ident.annotateList_eq_map (idents : List Ident) :
    (Ident.annotateList table words idents).1 = idents.map fun ident => (ident.annotate table words).1 := by
  induction idents with
  | nil => rfl
  | cons ident rest ih => exact congrArg (List.cons _) ih

mutual
theorem Stmt.declared_annotate : ∀ statement : Stmt,
    (statement.annotate table words).1.declared declaration =
      (statement.declared declaration).map fun ident => (ident.annotate table words).1
  | .declare _ own names => by
    simp only [Stmt.annotate, Stmt.declared, Ident.annotateList_eq_map]
    split <;> rfl
  | .branch _ _ thenBody none => Stmt.declaredList_annotate thenBody
  | .branch _ _ thenBody (some elseBody) => by
    simp only [Stmt.annotate, Stmt.declared, Stmt.declaredList_annotate thenBody, Stmt.declaredList_annotate elseBody,
      List.map_append]
  | .forEach _ _ _ body | .whileLoop _ _ body | .function _ _ _ body => Stmt.declaredList_annotate body
  | .attempt _ body handler none => by
    simp only [Stmt.annotate, Stmt.declared, Stmt.declaredList_annotate body, Handler.declared_annotate handler,
      List.map_append]
  | .attempt _ body handler (some finallyBody) => by
    simp only [Stmt.annotate, Stmt.declared, Stmt.declaredList_annotate body, Handler.declared_annotate handler,
      Stmt.declaredList_annotate finallyBody, List.map_append]
  | .expression .. | .assign .. | .return _ none | .return _ (some _) | .word .. | .comment .. => rfl

theorem Handler.declared_annotate : ∀ handler : Handler,
    (handler.annotate table words).1.declared declaration =
      (handler.declared declaration).map fun ident => (ident.annotate table words).1
  | .absent => rfl
  | .present _ body => Stmt.declaredList_annotate body

theorem Stmt.declaredList_annotate : ∀ statements : List Stmt,
    Stmt.declaredList declaration (Stmt.annotateList table words statements).1 =
      (Stmt.declaredList declaration statements).map fun ident => (ident.annotate table words).1
  | [] => rfl
  | statement :: rest => by
    simp only [Stmt.annotateList, Stmt.declaredList, Stmt.declared_annotate statement,
      Stmt.declaredList_annotate rest, List.map_append]
end

end

/-! Routes. -/

/-- A declaration of this identity and name is on the route. -/
def Route.Declares (declaration : Declaration) (id : IdentId) (name : String) : Route → Prop
  | .step (.declare own called text _) => own = declaration ∧ called = id ∧ text = name
  | .stay | .jump _ | .step _ => False
  | .seq first second | .fork first second | .ensure first second | .finish first second =>
    Declares declaration id name first ∨ Declares declaration id name second
  | .attempt body | .loop body | .aside body | .function _ _ _ body => Declares declaration id name body

/-- An identifier of this identity and name is in the list. -/
def Ident.Listed (idents : List Ident) (id : IdentId) (name : String) : Prop :=
  ∃ ident ∈ idents, ident.id = some id ∧ ident.name = name

section
variable {declaration : Declaration} {id : IdentId} {name : String}

theorem Ident.listed_nil : ¬Ident.Listed [] id name := by
  simp [Ident.Listed]

theorem Ident.listed_append (one other : List Ident) :
    Ident.Listed (one ++ other) id name ↔ Ident.Listed one id name ∨ Ident.Listed other id name := by
  simp only [Ident.Listed, List.mem_append, or_and_right, exists_or]

namespace Route

theorem declares_iff_place (route : Route) (scope next : ScopeId) :
    route.Declares declaration id name ↔
      ∃ home line, (home, .declare declaration id name line) ∈ route.places scope next := by
  induction route generalizing scope next with
  | stay | jump _ => simp [Declares, places]
  | step action => cases action <;> simp [Declares, places]; grind
  | seq first second ihFirst ihSecond | fork first second ihFirst ihSecond | ensure first second ihFirst ihSecond
  | finish first second ihFirst ihSecond =>
    simp only [Declares, places, List.mem_append, exists_or]
    exact or_congr (ihFirst scope next) (ihSecond scope _)
  | attempt body ih | loop body ih | aside body ih => exact ih scope next
  | function own called line body ih => exact ih next (next + 1)

theorem Simple.not_declares {route : Route} (simple : route.Simple) : ¬route.Declares declaration id name := by
  induction route with
  | stay | jump _ => exact not_false
  | step action =>
    cases action with
    | declare => exact simple.elim
    | use | define | checkArity => exact not_false
  | seq first second ihFirst ihSecond | fork first second ihFirst ihSecond | ensure first second ihFirst ihSecond
  | finish first second ihFirst ihSecond => exact not_or.mpr ⟨ihFirst simple.1, ihSecond simple.2⟩
  | attempt body ih | aside body ih => exact ih simple
  | loop | function => exact simple.elim

theorem declares_names (own : Declaration) (line : SourceLine) (names : List Ident) :
    (all (names.map (declare own line))).Declares declaration id name ↔
      own = declaration ∧ Ident.Listed names id name := by
  induction names with
  | nil => simp [all, Declares, Ident.listed_nil]
  | cons ident rest ih =>
    have first : (declare own line ident).Declares declaration id name ↔
        own = declaration ∧ ident.id = some id ∧ ident.name = name := by
      unfold declare
      cases ident.id <;> simp [Declares]
    simp only [List.map_cons, all, Declares, ih, first, Ident.Listed, List.mem_cons, exists_eq_or_imp, and_or_left]

end Route

theorem Ident.not_declares_paramRoutes (line : SourceLine) (params : List Ident) :
    ¬(Route.all (params.map (Ident.paramRoute line))).Declares declaration id name := by
  refine (Route.simple_all fun route member => ?_).not_declares
  obtain ⟨param, _, rfl⟩ := List.mem_map.mp member
  exact param.simple_paramRoute line

theorem Expr.not_declares_route (expr : Expr) : ¬expr.route.Declares declaration id name :=
  expr.simple_route.not_declares

mutual
theorem Stmt.declares_route : ∀ statement : Stmt,
    statement.route.Declares declaration id name ↔ Ident.Listed (statement.declared declaration) id name
  | .declare line own names => by
    rw [Stmt.route, Route.declares_names, Stmt.declared]
    split
    · next same => exact and_iff_right same
    · next other => exact iff_of_false (fun both => other both.1) Ident.listed_nil
  | .branch _ condition thenBody none => by
    simp only [Stmt.route, Stmt.declared, Route.Declares, condition.not_declares_route, Stmt.declares_block thenBody,
      false_or, or_false]
  | .branch _ condition thenBody (some elseBody) => by
    simp only [Stmt.route, Stmt.declared, Route.Declares, condition.not_declares_route, Stmt.declares_block thenBody,
      Stmt.declares_block elseBody, Ident.listed_append, false_or]
  | .forEach line loopName columns body => by
    simp only [Stmt.route, Stmt.declared, Route.Declares, columns.not_declares_route,
      (Route.simple_define loopName line .definition).not_declares, Stmt.declares_block body, false_or, or_false]
  | .whileLoop _ condition body => by
    simp only [Stmt.route, Stmt.declared, Route.Declares, condition.not_declares_route, Stmt.declares_block body,
      false_or, or_false]
  | .attempt line body handler none => by
    simp only [Stmt.route, Stmt.declared, Route.Declares, Stmt.declares_block body, Handler.declares_route handler,
      Ident.listed_append, or_false]
  | .attempt line body handler (some finallyBody) => by
    simp only [Stmt.route, Stmt.declared, Route.Declares, Stmt.declares_block body, Handler.declares_route handler,
      Stmt.declares_block finallyBody, Ident.listed_append]
  | .function line called params body => by
    simp only [Stmt.route, Stmt.declared, Route.Declares, Ident.not_declares_paramRoutes, Stmt.declares_block body,
      false_or]
  | .expression _ value => iff_of_false value.not_declares_route Ident.listed_nil
  | .assign line targets value => by
    have assigned : (Route.all (targets.map (Expr.targetRoute · .definition))).Simple := by
      refine Route.simple_all fun route member => ?_
      obtain ⟨target, _, rfl⟩ := List.mem_map.mp member
      exact target.simple_targetRoute .definition
    refine iff_of_false ?_ Ident.listed_nil
    simp only [Stmt.route, Route.Declares, value.not_declares_route, assigned.not_declares,
      (Route.simple_checkArity line _ value).not_declares, or_self, not_false_eq_true]
  | .return _ none | .comment .. | .word _ .break | .word _ .continue | .word _ .pass | .word _ .nothing =>
    iff_of_false not_false Ident.listed_nil
  | .return _ (some value) => iff_of_false (not_or.mpr ⟨value.not_declares_route, not_false⟩) Ident.listed_nil

theorem Handler.declares_route : ∀ (handler : Handler) {line : SourceLine},
    (handler.route line).Declares declaration id name ↔ Ident.Listed (handler.declared declaration) id name
  | .absent, _ => iff_of_false not_false Ident.listed_nil
  | .present none body, _ => by
    simp only [Handler.route, Handler.declared, Route.Declares, Stmt.declares_block body, false_or]
  | .present (some called) body, line => by
    simp only [Handler.route, Handler.declared, Route.Declares,
      (Route.simple_define called line .definition).not_declares, Stmt.declares_block body, false_or]

theorem Stmt.declares_block : ∀ statements : List Stmt,
    (Route.block (Stmt.routes statements)).Declares declaration id name ↔
      Ident.Listed (Stmt.declaredList declaration statements) id name
  | [] => by simp [Stmt.routes, Stmt.declaredList, Route.block, Route.Declares, Ident.listed_nil]
  | statement :: rest => by
    have first := Stmt.declares_route statement
    have others := Stmt.declares_block rest
    rw [Stmt.declaredList, Ident.listed_append, ← first, ← others]
    match statement with
    | .function line called params [] =>
      simp only [Stmt.routes, Stmt.route, Route.block, Route.Declares, Ident.not_declares_paramRoutes, false_or]
    | .function line called params (head :: tail) =>
      simp only [Stmt.routes, Route.block, Route.Declares, false_or]
    | .branch _ _ _ none | .branch _ _ _ (some _) | .attempt _ _ _ none | .attempt _ _ _ (some _)
    | .return _ none | .return _ (some _) | .expression .. | .assign .. | .forEach .. | .whileLoop ..
    | .declare .. | .word .. | .comment .. =>
      exact or_assoc
end

theorem Program.declares_route (program : Program) :
    program.route.Declares declaration id name ↔ Ident.Listed (program.declared declaration) id name :=
  Stmt.declares_block program.statements

end

end ArrayLift
