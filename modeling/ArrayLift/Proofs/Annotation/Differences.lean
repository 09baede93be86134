import ArrayLift.Proofs.Annotation.Coverage
import ArrayLift.Proofs.Annotation.Unnumbered

/-! The count of changes is exact: it is the count of the places where what annotation writes differs between the tree
before and the tree after. Where nothing is counted, annotation leaves the tree as it is. -/
namespace ArrayLift

/-- What annotation writes into a tree, in the order in which it comes to it: the role and the reserved flag of every
identifier, and the form of everything in parentheses. -/
structure Marks where
  roles : List Role
  flags : List Bool
  forms : List IndexForm

namespace Marks

def none : Marks := ⟨[], [], []⟩

instance : Append Marks where
  append one other := ⟨one.roles ++ other.roles, one.flags ++ other.flags, one.forms ++ other.forms⟩

@[simp] theorem roles_append (one other : Marks) : (one ++ other).roles = one.roles ++ other.roles := rfl

@[simp] theorem flags_append (one other : Marks) : (one ++ other).flags = one.flags ++ other.flags := rfl

@[simp] theorem forms_append (one other : Marks) : (one ++ other).forms = one.forms ++ other.forms := rfl

end Marks

/-- The form is a mark if it is one of parentheses. -/
def IndexForm.marks : IndexForm → Marks
  | .cellRef => .none
  | form => ⟨[], [], [form]⟩

mutual
def Ident.marks : Ident → Marks
  | .mk _ none role reserved _ => ⟨[role], [reserved], []⟩
  | .mk _ (some init) role reserved _ => ⟨[role], [reserved], []⟩ ++ Expr.marks init

def Expr.marks : Expr → Marks
  | .ident _ named => Ident.marks named
  | .literal .. => .none
  | .operation _ _ operands none => Expr.marksList operands
  | .operation _ _ operands (some result) => Expr.marksList operands ++ Ident.marks result
  | .field _ object _ => Expr.marks object
  | .dynamicField _ object selector => Expr.marks object ++ Expr.marks selector
  | .index _ form target arguments => Expr.marks target ++ Expr.marksList arguments ++ form.marks
  | .rows _ _ rows => Expr.marksRows rows
  | .lambda _ params body => Ident.marksList params ++ Expr.marks body

def Expr.marksList : List Expr → Marks
  | [] => .none
  | expr :: rest => Expr.marks expr ++ Expr.marksList rest

def Expr.marksRows : List (List Expr) → Marks
  | [] => .none
  | row :: rest => Expr.marksList row ++ Expr.marksRows rest

def Ident.marksList : List Ident → Marks
  | [] => .none
  | ident :: rest => Ident.marks ident ++ Ident.marksList rest
end

mutual
def Stmt.marks : Stmt → Marks
  | .expression _ value => value.marks
  | .assign _ targets value => value.marks ++ Expr.marksList targets
  | .branch _ condition thenBody none => condition.marks ++ Stmt.marksList thenBody
  | .branch _ condition thenBody (some elseBody) =>
    condition.marks ++ Stmt.marksList thenBody ++ Stmt.marksList elseBody
  | .forEach _ loopName columns body => loopName.marks ++ columns.marks ++ Stmt.marksList body
  | .whileLoop _ condition body => condition.marks ++ Stmt.marksList body
  | .attempt _ body handler none => Stmt.marksList body ++ Handler.marks handler
  | .attempt _ body handler (some finallyBody) =>
    Stmt.marksList body ++ Handler.marks handler ++ Stmt.marksList finallyBody
  | .function _ name params body => name.marks ++ Ident.marksList params ++ Stmt.marksList body
  | .declare _ _ names => Ident.marksList names
  | .return _ none => .none
  | .return _ (some value) => value.marks
  | .word .. => .none
  | .comment .. => .none

def Handler.marks : Handler → Marks
  | .absent => .none
  | .present none body => Stmt.marksList body
  | .present (some name) body => name.marks ++ Stmt.marksList body

def Stmt.marksList : List Stmt → Marks
  | [] => .none
  | statement :: rest => Stmt.marks statement ++ Stmt.marksList rest
end

/-- What annotation writes into a program. -/
def Program.marks (program : Program) : Marks :=
  Stmt.marksList program.statements

/-! Identities are no marks. -/

mutual
theorem Ident.marks_unnumbered : ∀ ident : Ident, ident.unnumbered.marks = ident.marks
  | .mk _ none _ _ _ => rfl
  | .mk _ (some init) _ _ _ => by simp only [Ident.unnumbered, Ident.marks, Expr.marks_unnumbered init]

theorem Expr.marks_unnumbered : ∀ expr : Expr, expr.unnumbered.marks = expr.marks
  | .ident _ named => Ident.marks_unnumbered named
  | .literal .. => rfl
  | .operation _ _ operands none => Expr.marks_unnumberedList operands
  | .operation _ _ operands (some result) =>
    congrArg₂ (· ++ ·) (Expr.marks_unnumberedList operands) (Ident.marks_unnumbered result)
  | .field _ object _ => Expr.marks_unnumbered object
  | .dynamicField _ object selector =>
    congrArg₂ (· ++ ·) (Expr.marks_unnumbered object) (Expr.marks_unnumbered selector)
  | .index _ _ target arguments =>
    congrArg₂ (· ++ · ++ _) (Expr.marks_unnumbered target) (Expr.marks_unnumberedList arguments)
  | .rows _ _ rows => Expr.marks_unnumberedRows rows
  | .lambda _ params body =>
    congrArg₂ (· ++ ·) (Ident.marks_unnumberedList params) (Expr.marks_unnumbered body)

theorem Expr.marks_unnumberedList : ∀ exprs : List Expr,
    Expr.marksList (Expr.unnumberedList exprs) = Expr.marksList exprs
  | [] => rfl
  | expr :: rest => congrArg₂ (· ++ ·) (Expr.marks_unnumbered expr) (Expr.marks_unnumberedList rest)

theorem Expr.marks_unnumberedRows : ∀ rows : List (List Expr),
    Expr.marksRows (Expr.unnumberedRows rows) = Expr.marksRows rows
  | [] => rfl
  | row :: rest => congrArg₂ (· ++ ·) (Expr.marks_unnumberedList row) (Expr.marks_unnumberedRows rest)

theorem Ident.marks_unnumberedList : ∀ idents : List Ident,
    Ident.marksList (Ident.unnumberedList idents) = Ident.marksList idents
  | [] => rfl
  | ident :: rest => congrArg₂ (· ++ ·) (Ident.marks_unnumbered ident) (Ident.marks_unnumberedList rest)
end

mutual
theorem Stmt.marks_unnumbered : ∀ statement : Stmt, statement.unnumbered.marks = statement.marks
  | .expression _ value => value.marks_unnumbered
  | .assign _ targets value =>
    congrArg₂ (· ++ ·) value.marks_unnumbered (Expr.marks_unnumberedList targets)
  | .branch _ condition thenBody none =>
    congrArg₂ (· ++ ·) condition.marks_unnumbered (Stmt.marks_unnumberedList thenBody)
  | .branch _ condition thenBody (some elseBody) => by
    simp only [Stmt.unnumbered, Stmt.marks, Expr.marks_unnumbered, Stmt.marks_unnumberedList thenBody,
      Stmt.marks_unnumberedList elseBody]
  | .forEach _ loopName columns body => by
    simp only [Stmt.unnumbered, Stmt.marks, Ident.marks_unnumbered, Expr.marks_unnumbered,
      Stmt.marks_unnumberedList body]
  | .whileLoop _ condition body =>
    congrArg₂ (· ++ ·) condition.marks_unnumbered (Stmt.marks_unnumberedList body)
  | .attempt _ body handler none =>
    congrArg₂ (· ++ ·) (Stmt.marks_unnumberedList body) (Handler.marks_unnumbered handler)
  | .attempt _ body handler (some finallyBody) => by
    simp only [Stmt.unnumbered, Stmt.marks, Stmt.marks_unnumberedList body, Handler.marks_unnumbered handler,
      Stmt.marks_unnumberedList finallyBody]
  | .function _ name params body => by
    simp only [Stmt.unnumbered, Stmt.marks, Ident.marks_unnumbered, Ident.marks_unnumberedList,
      Stmt.marks_unnumberedList body]
  | .declare _ _ names => Ident.marks_unnumberedList names
  | .return _ none | .word .. | .comment .. => rfl
  | .return _ (some value) => value.marks_unnumbered

theorem Handler.marks_unnumbered : ∀ handler : Handler, handler.unnumbered.marks = handler.marks
  | .absent => rfl
  | .present none body => Stmt.marks_unnumberedList body
  | .present (some name) body => congrArg₂ (· ++ ·) name.marks_unnumbered (Stmt.marks_unnumberedList body)

theorem Stmt.marks_unnumberedList : ∀ statements : List Stmt,
    Stmt.marksList (Stmt.unnumberedList statements) = Stmt.marksList statements
  | [] => rfl
  | statement :: rest => congrArg₂ (· ++ ·) (Stmt.marks_unnumbered statement) (Stmt.marks_unnumberedList rest)
end

theorem Program.marks_unnumbered (program : Program) : program.unnumbered.marks = program.marks :=
  Stmt.marks_unnumberedList program.statements

theorem Program.marks_withIds (program : Program) : program.withIds.1.marks = program.marks := by
  rw [← program.withIds.1.marks_unnumbered, program.unnumbered_withIds, program.marks_unnumbered]

/-! The places where two trees differ. -/

section
variable {α : Type} [DecidableEq α]

/-- The count of the places where two lists differ. -/
def differences (one other : List α) : Nat :=
  (one.zip other).countP fun pair => pair.1 ≠ pair.2

theorem differences_append {one other : List α} (same : one.length = other.length) (more others : List α) :
    differences (one ++ more) (other ++ others) = differences one other + differences more others := by
  rw [differences, List.zip_append same, List.countP_append]
  rfl

theorem differences_single (one other : α) : differences [one] [other] = changed (other ≠ one) := by
  simp only [differences, List.zip_cons_cons, List.zip_nil_right, List.countP_singleton, changed]
  exact if_congr (by simp [ne_comm]) rfl rfl

theorem differences_self (one : List α) : differences one one = 0 := by
  induction one with
  | nil => rfl
  | cons first rest ih => simpa [differences] using ih

end

namespace Marks

/-- The marks that differ. -/
def differences (before after : Marks) : Nat :=
  ArrayLift.differences before.roles after.roles + ArrayLift.differences before.flags after.flags +
    ArrayLift.differences before.forms after.forms

/-- Each mark is written over one of the same kind, and those that differ are counted. -/
structure Tallied (before after : Marks) (count : Nat) : Prop where
  roles : before.roles.length = after.roles.length
  flags : before.flags.length = after.flags.length
  forms : before.forms.length = after.forms.length
  count_eq : count = before.differences after

theorem Tallied.none : Tallied none none 0 := ⟨rfl, rfl, rfl, rfl⟩

theorem Tallied.append {before after others more : Marks} {count further : Nat} (first : Tallied before after count)
    (second : Tallied others more further) : Tallied (before ++ others) (after ++ more) (count + further) where
  roles := by simpa using congrArg₂ (· + ·) first.roles second.roles
  flags := by simpa using congrArg₂ (· + ·) first.flags second.flags
  forms := by simpa using congrArg₂ (· + ·) first.forms second.forms
  count_eq := by
    rw [first.count_eq, second.count_eq]
    simp only [differences, roles_append, flags_append, forms_append, differences_append first.roles,
      differences_append first.flags, differences_append first.forms]
    omega

theorem Tallied.ident (role newRole : Role) (flag newFlag : Bool) :
    Tallied ⟨[role], [flag], []⟩ ⟨[newRole], [newFlag], []⟩ (changed (newRole ≠ role) + changed (newFlag ≠ flag)) :=
  ⟨rfl, rfl, rfl, by simp only [differences, differences_single]; rfl⟩

/-- A form that is decided anew; braces stay what they are. -/
theorem Tallied.form (form : IndexForm) (place : Place) (target : Expr) :
    Tallied form.marks (form.decided place target).marks (changed (form.decided place target ≠ form)) := by
  have tallied {other : IndexForm} (paren : form ≠ .cellRef) (paren' : other ≠ .cellRef) :
      Tallied form.marks other.marks (changed (other ≠ form)) := by
    have shape {form : IndexForm} (paren : form ≠ .cellRef) : form.marks = ⟨[], [], [form]⟩ := by
      cases form <;> first | rfl | exact absurd rfl paren
    rw [shape paren, shape paren']
    exact ⟨rfl, rfl, rfl, by simp only [differences, differences_single]; exact (Nat.zero_add _).symm⟩
  by_cases braces : form = .cellRef
  · subst braces
    cases place <;> exact .none
  · exact tallied braces fun other => braces ((form.decided_cellRef place target).mp other)

end Marks

open Marks (Tallied)

section
variable (table : ScopeTable) (words : ReservedWords)

mutual
theorem Ident.tallied_annotate : ∀ ident : Ident,
    Tallied ident.marks (ident.annotate table words).1.marks (ident.annotate table words).2
  | .mk _ none role reserved _ => .ident role _ reserved _
  | .mk _ (some init) role reserved _ => (Tallied.ident role _ reserved _).append (Expr.tallied_annotate init _)

/-- The changes in an expression are the marks that differ. -/
theorem Expr.tallied_annotate : ∀ (expr : Expr) (place : Place),
    Tallied expr.marks (expr.annotate table words place).1.marks (expr.annotate table words place).2
  | .ident _ named, _ => Ident.tallied_annotate named
  | .literal .., _ => .none
  | .operation _ _ operands none, _ => Expr.tallied_annotateList operands _
  | .operation _ _ operands (some result), _ =>
    (Expr.tallied_annotateList operands _).append (Ident.tallied_annotate result)
  | .field _ object _, _ => Expr.tallied_annotate object _
  | .dynamicField _ object selector, _ => (Expr.tallied_annotate object _).append (Expr.tallied_annotate selector _)
  | .index _ form target arguments, _ =>
    ((Expr.tallied_annotate target _).append (Expr.tallied_annotateList arguments _)).append (.form form _ _)
  | .rows _ _ rows, _ => Expr.tallied_annotateRows rows
  | .lambda _ params body, _ => (Ident.tallied_annotateList params).append (Expr.tallied_annotate body _)

theorem Expr.tallied_annotateList : ∀ (exprs : List Expr) (place : Place),
    Tallied (Expr.marksList exprs) (Expr.marksList (Expr.annotateList table words exprs place).1)
      (Expr.annotateList table words exprs place).2
  | [], _ => .none
  | expr :: rest, place => (Expr.tallied_annotate expr place).append (Expr.tallied_annotateList rest place)

theorem Expr.tallied_annotateRows : ∀ rows : List (List Expr),
    Tallied (Expr.marksRows rows) (Expr.marksRows (Expr.annotateRows table words rows).1)
      (Expr.annotateRows table words rows).2
  | [] => .none
  | row :: rest => (Expr.tallied_annotateList row _).append (Expr.tallied_annotateRows rest)

theorem Ident.tallied_annotateList : ∀ idents : List Ident,
    Tallied (Ident.marksList idents) (Ident.marksList (Ident.annotateList table words idents).1)
      (Ident.annotateList table words idents).2
  | [] => .none
  | ident :: rest => (Ident.tallied_annotate ident).append (Ident.tallied_annotateList rest)
end

mutual
/-- The changes in a statement are the marks that differ. -/
theorem Stmt.tallied_annotate : ∀ statement : Stmt,
    Tallied statement.marks (statement.annotate table words).1.marks (statement.annotate table words).2
  | .expression _ value => value.tallied_annotate table words _
  | .assign _ targets value =>
    (value.tallied_annotate table words _).append (Expr.tallied_annotateList table words targets _)
  | .branch _ condition thenBody none =>
    (condition.tallied_annotate table words _).append (Stmt.tallied_annotateList thenBody)
  | .branch _ condition thenBody (some elseBody) =>
    ((condition.tallied_annotate table words _).append (Stmt.tallied_annotateList thenBody)).append
      (Stmt.tallied_annotateList elseBody)
  | .forEach _ loopName columns body =>
    ((loopName.tallied_annotate table words).append (columns.tallied_annotate table words _)).append
      (Stmt.tallied_annotateList body)
  | .whileLoop _ condition body =>
    (condition.tallied_annotate table words _).append (Stmt.tallied_annotateList body)
  | .attempt _ body handler none => (Stmt.tallied_annotateList body).append (Handler.tallied_annotate handler)
  | .attempt _ body handler (some finallyBody) =>
    ((Stmt.tallied_annotateList body).append (Handler.tallied_annotate handler)).append
      (Stmt.tallied_annotateList finallyBody)
  | .function _ name params body =>
    ((name.tallied_annotate table words).append (Ident.tallied_annotateList table words params)).append
      (Stmt.tallied_annotateList body)
  | .declare _ _ names => Ident.tallied_annotateList table words names
  | .return _ none | .word .. | .comment .. => .none
  | .return _ (some value) => value.tallied_annotate table words _

theorem Handler.tallied_annotate : ∀ handler : Handler,
    Tallied handler.marks (handler.annotate table words).1.marks (handler.annotate table words).2
  | .absent => .none
  | .present none body => .append .none (Stmt.tallied_annotateList body)
  | .present (some name) body => (name.tallied_annotate table words).append (Stmt.tallied_annotateList body)

theorem Stmt.tallied_annotateList : ∀ statements : List Stmt,
    Tallied (Stmt.marksList statements) (Stmt.marksList (Stmt.annotateList table words statements).1)
      (Stmt.annotateList table words statements).2
  | [] => .none
  | statement :: rest => (Stmt.tallied_annotate statement).append (Stmt.tallied_annotateList rest)
end

end

/-! Where nothing is counted. -/

section
variable {α β γ δ : Type}

/-- If nothing is counted, nothing is different. -/
def Kept (count : Nat) (before after : α) : Prop :=
  count = 0 → after = before

theorem Kept.refl (count : Nat) (value : α) : Kept count value value := fun _ => rfl

theorem Kept.map {count : Nat} {before after : α} (kept : Kept count before after) (make : α → β) :
    Kept count (make before) (make after) :=
  fun none => congrArg make (kept none)

theorem Kept.map₂ {count more : Nat} {before after : α} {earlier later : β} (first : Kept count before after)
    (second : Kept more earlier later) (make : α → β → γ) :
    Kept (count + more) (make before earlier) (make after later) := fun none => by
  obtain ⟨one, other⟩ := Nat.add_eq_zero_iff.mp none
  rw [first one, second other]

theorem Kept.map₃ {count more most : Nat} {before after : α} {earlier later : β} {old new : γ}
    (first : Kept count before after) (second : Kept more earlier later) (third : Kept most old new)
    (make : α → β → γ → δ) :
    Kept (count + more + most) (make before earlier old) (make after later new) :=
  (first.map₂ second make).map₂ third id

/-- A single place. -/
theorem Kept.changed [DecidableEq α] (before after : α) : Kept (changed (after ≠ before)) before after := by
  intro none
  simpa [ArrayLift.changed] using none

end

section
variable (table : ScopeTable) (words : ReservedWords)

mutual
theorem Ident.kept_annotate : ∀ ident : Ident, Kept (ident.annotate table words).2 ident (ident.annotate table words).1
  | .mk name none role reserved id =>
    (Kept.changed role _).map₂ (Kept.changed reserved _) (Ident.mk name none · · id)
  | .mk name (some init) role reserved id =>
    (Kept.changed role _).map₃ (Kept.changed reserved _) (Expr.kept_annotate init _)
      fun role reserved init => Ident.mk name (some init) role reserved id

/-- An expression in which nothing is counted stays as it is. -/
theorem Expr.kept_annotate : ∀ (expr : Expr) (place : Place),
    Kept (expr.annotate table words place).2 expr (expr.annotate table words place).1
  | .ident line named, _ => (Ident.kept_annotate named).map (Expr.ident line)
  | .literal .., _ => .refl _ _
  | .operation line spelling operands none, _ =>
    (Expr.kept_annotateList operands _).map (Expr.operation line spelling · none)
  | .operation line spelling operands (some result), _ =>
    (Expr.kept_annotateList operands _).map₂ (Ident.kept_annotate result)
      fun operands result => Expr.operation line spelling operands (some result)
  | .field line object name, _ => (Expr.kept_annotate object _).map (Expr.field line · name)
  | .dynamicField line object selector, _ =>
    (Expr.kept_annotate object _).map₂ (Expr.kept_annotate selector _) (Expr.dynamicField line)
  | .index line form target arguments, _ =>
    (Expr.kept_annotate target _).map₃ (Expr.kept_annotateList arguments _) (.changed form _)
      fun target arguments form => Expr.index line form target arguments
  | .rows line brackets rows, _ => (Expr.kept_annotateRows rows).map (Expr.rows line brackets)
  | .lambda line params body, _ => (Ident.kept_annotateList params).map₂ (Expr.kept_annotate body _) (Expr.lambda line)

theorem Expr.kept_annotateList : ∀ (exprs : List Expr) (place : Place),
    Kept (Expr.annotateList table words exprs place).2 exprs (Expr.annotateList table words exprs place).1
  | [], _ => .refl _ _
  | expr :: rest, place => (Expr.kept_annotate expr place).map₂ (Expr.kept_annotateList rest place) List.cons

theorem Expr.kept_annotateRows : ∀ rows : List (List Expr),
    Kept (Expr.annotateRows table words rows).2 rows (Expr.annotateRows table words rows).1
  | [] => .refl _ _
  | row :: rest => (Expr.kept_annotateList row _).map₂ (Expr.kept_annotateRows rest) List.cons

theorem Ident.kept_annotateList : ∀ idents : List Ident,
    Kept (Ident.annotateList table words idents).2 idents (Ident.annotateList table words idents).1
  | [] => .refl _ _
  | ident :: rest => (Ident.kept_annotate ident).map₂ (Ident.kept_annotateList rest) List.cons
end

mutual
/-- A statement in which nothing is counted stays as it is. -/
theorem Stmt.kept_annotate : ∀ statement : Stmt,
    Kept (statement.annotate table words).2 statement (statement.annotate table words).1
  | .expression line value => (value.kept_annotate table words _).map (Stmt.expression line)
  | .assign line targets value =>
    (value.kept_annotate table words _).map₂ (Expr.kept_annotateList table words targets _)
      fun value targets => Stmt.assign line targets value
  | .branch line condition thenBody none =>
    (condition.kept_annotate table words _).map₂ (Stmt.kept_annotateList thenBody) (Stmt.branch line · · none)
  | .branch line condition thenBody (some elseBody) =>
    (condition.kept_annotate table words _).map₃ (Stmt.kept_annotateList thenBody) (Stmt.kept_annotateList elseBody)
      fun condition thenBody elseBody => Stmt.branch line condition thenBody (some elseBody)
  | .forEach line loopName columns body =>
    (loopName.kept_annotate table words).map₃ (columns.kept_annotate table words _) (Stmt.kept_annotateList body)
      (Stmt.forEach line)
  | .whileLoop line condition body =>
    (condition.kept_annotate table words _).map₂ (Stmt.kept_annotateList body) (Stmt.whileLoop line)
  | .attempt line body handler none =>
    (Stmt.kept_annotateList body).map₂ (Handler.kept_annotate handler) (Stmt.attempt line · · none)
  | .attempt line body handler (some finallyBody) =>
    (Stmt.kept_annotateList body).map₃ (Handler.kept_annotate handler) (Stmt.kept_annotateList finallyBody)
      fun body handler finallyBody => Stmt.attempt line body handler (some finallyBody)
  | .function line name params body =>
    (name.kept_annotate table words).map₃ (Ident.kept_annotateList table words params) (Stmt.kept_annotateList body)
      (Stmt.function line)
  | .declare line declaration names => (Ident.kept_annotateList table words names).map (Stmt.declare line declaration)
  | .return _ none | .word .. | .comment .. => .refl _ _
  | .return line (some value) => (value.kept_annotate table words _).map fun value => Stmt.return line (some value)

theorem Handler.kept_annotate : ∀ handler : Handler,
    Kept (handler.annotate table words).2 handler (handler.annotate table words).1
  | .absent => .refl _ _
  | .present none body => (Kept.refl 0 none).map₂ (Stmt.kept_annotateList body) Handler.present
  | .present (some name) body =>
    (name.kept_annotate table words).map₂ (Stmt.kept_annotateList body) fun name => Handler.present (some name)

theorem Stmt.kept_annotateList : ∀ statements : List Stmt,
    Kept (Stmt.annotateList table words statements).2 statements (Stmt.annotateList table words statements).1
  | [] => .refl _ _
  | statement :: rest => (Stmt.kept_annotate statement).map₂ (Stmt.kept_annotateList rest) List.cons
end

end

namespace Program

section
variable (table : ScopeTable) (words : ReservedWords) (program : Program)

theorem tallied_annotate :
    Tallied program.marks (program.annotate table words).1.marks (program.annotate table words).2 :=
  Stmt.tallied_annotateList table words program.statements

theorem kept_annotate : Kept (program.annotate table words).2 program (program.annotate table words).1 :=
  (Stmt.kept_annotateList table words program.statements).map Program.mk

end

/-- The count of changes is exact: it is the count of the identifiers whose role differs before and after resolution,
of those whose reserved flag differs, and of the parentheses that have another form, or ask a call for another count of
results. The two trees have the same shape, so that there are as many of each; nothing is counted exactly if the trees
are the same but for the identities of the identifiers. -/
theorem changes_eq_differences (settings : Settings) (program : Program) :
    let resolution := program.resolve settings
    let before := program.marks
    let after := resolution.program.marks
    resolution.program.unmarked = program.unmarked ∧
    before.roles.length = after.roles.length ∧ before.flags.length = after.flags.length ∧
    before.forms.length = after.forms.length ∧
    resolution.changes = differences before.roles after.roles + differences before.flags after.flags +
      differences before.forms after.forms ∧
    (resolution.changes = 0 ↔ resolution.program.unnumbered = program.unnumbered) := by
  intro resolution before after
  have same : before = program.withIds.1.marks := program.marks_withIds.symm
  have tallied : Tallied before after resolution.changes := same ▸ program.withIds.1.tallied_annotate ..
  refine ⟨program.unmarked_resolve settings, tallied.roles, tallied.flags, tallied.forms, tallied.count_eq, ?_⟩
  constructor
  · intro none
    have kept : resolution.program = program.withIds.1 := program.withIds.1.kept_annotate _ _ none
    rw [kept, program.unnumbered_withIds]
  · intro alike
    have marks : after = before := calc
      after = resolution.program.unnumbered.marks := resolution.program.marks_unnumbered.symm
      _ = program.unnumbered.marks := congrArg marks alike
      _ = before := program.marks_unnumbered
    rw [tallied.count_eq, marks]
    simp only [Marks.differences, differences_self]

end Program
end ArrayLift
