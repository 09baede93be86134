import ArrayLift.Resolution.Resolve

/-! Ownership made explicit: what a function without a body owns is put into its body, at every depth. Resolution
makes no difference between a program and its explicit form. -/
namespace ArrayLift

/-- Statements up to a function, and from there on. -/
def Stmt.joined (parts : List Stmt × List Stmt) : List Stmt :=
  parts.1 ++ parts.2

mutual
/-- The statement with explicit ownership in all its lists. -/
def Stmt.nested : Stmt → Stmt
  | .branch line condition thenBody none =>
    .branch line condition (Stmt.joined (Stmt.nestedParts thenBody)) none
  | .branch line condition thenBody (some elseBody) =>
    .branch line condition (Stmt.joined (Stmt.nestedParts thenBody))
      (some (Stmt.joined (Stmt.nestedParts elseBody)))
  | .forEach line loopName columns body =>
    .forEach line loopName columns (Stmt.joined (Stmt.nestedParts body))
  | .whileLoop line condition body => .whileLoop line condition (Stmt.joined (Stmt.nestedParts body))
  | .attempt line body handler none =>
    .attempt line (Stmt.joined (Stmt.nestedParts body)) (Handler.nested handler) none
  | .attempt line body handler (some finallyBody) =>
    .attempt line (Stmt.joined (Stmt.nestedParts body)) (Handler.nested handler)
      (some (Stmt.joined (Stmt.nestedParts finallyBody)))
  | .function line name params body => .function line name params (Stmt.joined (Stmt.nestedParts body))
  | other => other

def Handler.nested : Handler → Handler
  | .absent => .absent
  | .present name body => .present name (Stmt.joined (Stmt.nestedParts body))

/-- The statements of a list up to the next function, and from there on. A function without a body takes what
stands between it and the next one. -/
def Stmt.nestedParts : List Stmt → List Stmt × List Stmt
  | [] => ([], [])
  | statement :: rest =>
    let (own, after) := Stmt.nestedParts rest
    match statement with
    | .function line name params [] => ([], .function line name params own :: after)
    | .function .. => ([], Stmt.nested statement :: (own ++ after))
    | _ => (Stmt.nested statement :: own, after)
end

/-- The statements of a list with explicit ownership. -/
def Stmt.nestedList (statements : List Stmt) : List Stmt :=
  Stmt.joined (Stmt.nestedParts statements)

def Program.nested (program : Program) : Program :=
  ⟨Stmt.nestedList program.statements⟩

namespace Stmt

/-- A function with a body of its own. -/
def IsBodied (statement : Stmt) : Prop :=
  statement.isFunction = true ∧ statement.isFlatFunction = false

/-- A statement in a list owns what follows it, is a function with a body of its own, or no function. -/
theorem kinds (statement : Stmt) :
    (∃ line name params, statement = .function line name params []) ∨ statement.IsBodied ∨
      statement.isFunction = false := by
  match statement with
  | .function line name params [] => exact .inl ⟨line, name, params, rfl⟩
  | .function _ _ _ (_ :: _) => exact .inr (.inl ⟨rfl, rfl⟩)
  | .expression .. | .assign .. | .branch .. | .forEach .. | .whileLoop .. | .attempt .. | .declare ..
  | .return .. | .word .. | .comment .. => exact .inr (.inr rfl)

/-- Induction on a list of statements by the kind of its head. -/
@[elab_as_elim]
theorem byHead {motive : List Stmt → Prop} (statements : List Stmt) (empty : motive [])
    (flat : ∀ line name params rest, motive rest → motive (.function line name params [] :: rest))
    (bodied : ∀ statement rest, statement.IsBodied → motive rest → motive (statement :: rest))
    (plain : ∀ statement rest, statement.isFunction = false → motive rest → motive (statement :: rest)) :
    motive statements := by
  induction statements with
  | nil => exact empty
  | cons statement rest ih =>
    obtain ⟨line, name, params, rfl⟩ | body | other := statement.kinds
    · exact flat line name params rest ih
    · exact bodied statement rest body ih
    · exact plain statement rest other ih

theorem nestedParts_plain {statement : Stmt} (plain : statement.isFunction = false) (rest : List Stmt) :
    nestedParts (statement :: rest) = (statement.nested :: (nestedParts rest).1, (nestedParts rest).2) := by
  cases statement with
  | function => cases plain
  | _ => rfl

theorem nestedParts_bodied {statement : Stmt} (bodied : statement.IsBodied) (rest : List Stmt) :
    nestedParts (statement :: rest) = ([], statement.nested :: joined (nestedParts rest)) := by
  match statement, bodied with
  | .function _ _ _ (_ :: _), _ => rfl

/-- Nothing in the list is owned by a function before it. -/
def StartsAnew (statements : List Stmt) : Prop :=
  ∀ first ∈ statements.head?, first.isFunction = true

theorem nested_isFunction (statement : Stmt) : statement.nested.isFunction = statement.isFunction := by
  cases statement with
  | branch _ _ _ elseBody => cases elseBody <;> rfl
  | attempt _ _ _ finallyBody => cases finallyBody <;> rfl
  | _ => rfl

theorem nested_isNoop (statement : Stmt) : statement.nested.isNoop = statement.isNoop := by
  cases statement with
  | branch _ _ _ elseBody => cases elseBody <;> rfl
  | attempt _ _ _ finallyBody => cases finallyBody <;> rfl
  | _ => rfl

theorem nestedParts_cons (statement : Stmt) (rest : List Stmt) :
    ∃ first others, joined (nestedParts (statement :: rest)) = first :: others := by
  obtain ⟨line, name, params, rfl⟩ | bodied | plain := statement.kinds
  · exact ⟨_, _, rfl⟩
  · exact ⟨_, _, by rw [nestedParts_bodied bodied, joined, List.nil_append]⟩
  · exact ⟨_, _, by rw [nestedParts_plain plain, joined, List.cons_append]⟩

theorem IsBodied.nested {statement : Stmt} (bodied : statement.IsBodied) : statement.nested.IsBodied := by
  match statement, bodied with
  | .function line name params (head :: tail), _ =>
    obtain ⟨first, others, shape⟩ := nestedParts_cons head tail
    simp [Stmt.nested, shape, IsBodied, isFunction, isFlatFunction]

/-- What is owned holds no function. -/
theorem nestedParts_own (statements : List Stmt) :
    ∀ statement ∈ (nestedParts statements).1, statement.isFunction = false := by
  induction statements using byHead with
  | empty => simp [nestedParts]
  | flat => simp [nestedParts]
  | bodied statement rest bodied => simp [nestedParts_bodied bodied]
  | plain statement rest plain ih =>
    simpa [nestedParts_plain plain, nested_isFunction, plain] using ih

theorem nestedParts_after (statements : List Stmt) : StartsAnew (nestedParts statements).2 := by
  induction statements using byHead with
  | empty => simp [nestedParts, StartsAnew]
  | flat => simp [nestedParts, StartsAnew, isFunction]
  | bodied statement rest bodied => simp [nestedParts_bodied bodied, StartsAnew, bodied.nested.1]
  | plain statement rest plain ih => simpa [nestedParts_plain plain] using ih

end Stmt

/-! Explicit ownership. -/

mutual
/-- In no list of the statement does a function own what follows it. -/
def Stmt.Explicit : Stmt → Prop
  | .branch _ _ thenBody none => Stmt.ExplicitList thenBody
  | .branch _ _ thenBody (some elseBody) => Stmt.ExplicitList thenBody ∧ Stmt.ExplicitList elseBody
  | .forEach _ _ _ body => Stmt.ExplicitList body
  | .whileLoop _ _ body => Stmt.ExplicitList body
  | .attempt _ body handler none => Stmt.ExplicitList body ∧ Handler.Explicit handler
  | .attempt _ body handler (some finallyBody) =>
    Stmt.ExplicitList body ∧ Handler.Explicit handler ∧ Stmt.ExplicitList finallyBody
  | .function _ _ _ body => Stmt.ExplicitList body
  | _ => True

def Handler.Explicit : Handler → Prop
  | .absent => True
  | .present _ body => Stmt.ExplicitList body

def Stmt.ExplicitList : List Stmt → Prop
  | [] => True
  | statement :: rest =>
    Stmt.Explicit statement ∧ (statement.isFlatFunction = true → Stmt.StartsAnew rest) ∧ Stmt.ExplicitList rest
end

namespace Stmt

theorem StartsAnew.append {one other : List Stmt} (first : StartsAnew one) (second : StartsAnew other) :
    StartsAnew (one ++ other) := by
  cases one with
  | nil => exact second
  | cons => exact first

theorem ExplicitList.append {one other : List Stmt} (first : ExplicitList one) (second : ExplicitList other)
    (anew : StartsAnew other) : ExplicitList (one ++ other) := by
  induction one with
  | nil => exact second
  | cons statement rest ih =>
    obtain ⟨explicit, owns, others⟩ := first
    exact ⟨explicit, fun flat => (owns flat).append anew, ih others⟩

theorem isFlatFunction_of_plain {statement : Stmt} (plain : statement.isFunction = false) :
    statement.isFlatFunction = false := by
  cases statement <;> first | rfl | cases plain

end Stmt

mutual
theorem Stmt.explicit_nested : ∀ statement : Stmt, statement.nested.Explicit
  | .branch _ _ thenBody none => Stmt.explicit_nestedList thenBody
  | .branch _ _ thenBody (some elseBody) => ⟨Stmt.explicit_nestedList thenBody, Stmt.explicit_nestedList elseBody⟩
  | .forEach _ _ _ body => Stmt.explicit_nestedList body
  | .whileLoop _ _ body => Stmt.explicit_nestedList body
  | .attempt _ body handler none => ⟨Stmt.explicit_nestedList body, Handler.explicit_nested handler⟩
  | .attempt _ body handler (some finallyBody) =>
    ⟨Stmt.explicit_nestedList body, Handler.explicit_nested handler, Stmt.explicit_nestedList finallyBody⟩
  | .function _ _ _ body => Stmt.explicit_nestedList body
  | .expression .. | .assign .. | .declare .. | .return .. | .word .. | .comment .. => trivial

theorem Handler.explicit_nested : ∀ handler : Handler, handler.nested.Explicit
  | .absent => trivial
  | .present _ body => Stmt.explicit_nestedList body

theorem Stmt.explicit_nestedParts : ∀ statements : List Stmt,
    Stmt.ExplicitList (Stmt.nestedParts statements).1 ∧ Stmt.ExplicitList (Stmt.nestedParts statements).2
  | [] => ⟨trivial, trivial⟩
  | statement :: rest => by
    have first := Stmt.explicit_nested statement
    obtain ⟨own, after⟩ := Stmt.explicit_nestedParts rest
    have anew := Stmt.nestedParts_after rest
    obtain ⟨line, name, params, rfl⟩ | bodied | plain := statement.kinds
    · exact ⟨trivial, own, fun _ => anew, after⟩
    · rw [Stmt.nestedParts_bodied bodied]
      exact ⟨trivial, first, fun flat => by simp [bodied.nested.2] at flat, own.append after anew⟩
    · have other := Stmt.isFlatFunction_of_plain ((Stmt.nested_isFunction statement).trans plain)
      rw [Stmt.nestedParts_plain plain]
      exact ⟨⟨first, fun flat => by simp [other] at flat, own⟩, after⟩

/-- Nothing is left to a function in front of it. -/
theorem Stmt.explicit_nestedList : ∀ statements : List Stmt, Stmt.ExplicitList (Stmt.nestedList statements) := by
  intro statements
  obtain ⟨own, after⟩ := Stmt.explicit_nestedParts statements
  exact own.append after (Stmt.nestedParts_after statements)
end

/-! The walk over a list. -/
namespace Stmt

variable (limit : Nat)

section
attribute [local simp] walkList

theorem walkList_plain {statement : Stmt} (plain : statement.isFunction = false) (rest : List Stmt) (scope : ScopeId)
    (suspended : Suspended) (point : Point) :
    walkList limit (statement :: rest) scope suspended point =
      walkList limit rest scope suspended (statement.walk limit scope point) := by
  cases statement with
  | function => cases plain
  | _ => simp

theorem walkList_flat (line : SourceLine) (name : Ident) (params : List Ident) (rest : List Stmt) (scope : ScopeId)
    (suspended : Suspended) (point : Point) :
    walkList limit (.function line name params [] :: rest) scope suspended point =
      (let outside := suspended.resume point
      let function := outside.enterFunction (suspended.outer scope) name params line
      walkList limit rest function.1 (some (suspended.outer scope, outside.flow)) function.2) := by
  simp

theorem walkList_bodied {statement : Stmt} (bodied : statement.IsBodied) (rest : List Stmt) (scope : ScopeId)
    (suspended : Suspended) (point : Point) :
    walkList limit (statement :: rest) scope suspended point =
      walkList limit rest (suspended.outer scope) none
        (statement.walk limit (suspended.outer scope) (suspended.resume point)) := by
  match statement, bodied with
  | .function _ _ _ (_ :: _), _ => simp

end

/-- Without functions, a list is walked statement by statement in one scope. -/
theorem walkList_append_plain {between : List Stmt} (plain : ∀ statement ∈ between, statement.isFunction = false)
    (rest : List Stmt) (scope : ScopeId) (suspended : Suspended) (point : Point) :
    walkList limit (between ++ rest) scope suspended point =
      walkList limit rest scope suspended (walkList limit between scope none point) := by
  induction between generalizing point with
  | nil => simp [walkList, Suspended.resume]
  | cons statement others ih =>
    have first := plain statement (by simp)
    have later : ∀ other ∈ others, other.isFunction = false := fun other member => plain other (by simp [member])
    simp only [List.cons_append, walkList_plain limit first, ih later]

/-- A list that starts with a function is walked in the scope around the list. -/
theorem walkList_anew {rest : List Stmt} (anew : StartsAnew rest) (scope : ScopeId) (suspended : Suspended)
    (point : Point) :
    walkList limit rest scope suspended point =
      walkList limit rest (suspended.outer scope) none (suspended.resume point) := by
  match rest with
  | [] => simp [walkList, Suspended.resume]
  | statement :: others =>
    obtain ⟨line, name, params, rfl⟩ | bodied | plain := statement.kinds
    · simp [walkList, Suspended.resume, Suspended.outer]
    · simp [walkList_bodied limit bodied, Suspended.resume, Suspended.outer]
    · simp [StartsAnew, plain] at anew

theorem walkList_append_anew (before : List Stmt) {rest : List Stmt} (anew : StartsAnew rest) (scope : ScopeId)
    (suspended : Suspended) (point : Point) :
    walkList limit (before ++ rest) scope suspended point =
      walkList limit rest (suspended.outer scope) none (walkList limit before scope suspended point) := by
  induction before using byHead generalizing scope suspended point with
  | empty => simpa [walkList] using walkList_anew limit anew scope suspended point
  | flat line name params others ih => simp only [List.cons_append, walkList, ih, Suspended.outer]
  | bodied statement others bodied ih =>
    simp only [List.cons_append, walkList_bodied limit bodied, ih, Suspended.outer]
  | plain statement others plain ih => simp only [List.cons_append, walkList_plain limit plain, ih]

/-- A function that owns nothing behind it is walked like any statement. -/
theorem walkList_function (line : SourceLine) (name : Ident) (params : List Ident) (body : List Stmt)
    {rest : List Stmt} (anew : StartsAnew rest) (scope : ScopeId) (point : Point) :
    walkList limit (.function line name params body :: rest) scope none point =
      walkList limit rest scope none ((Stmt.function line name params body).walk limit scope point) := by
  cases body with
  | nil =>
    simp only [walkList, Stmt.walk, Suspended.outer, Suspended.resume]
    exact walkList_anew limit anew _ _ _
  | cons head tail => exact walkList_bodied limit ⟨rfl, rfl⟩ rest scope none point

end Stmt

section
variable (limit : Nat)

mutual
theorem Stmt.walk_nested : ∀ (statement : Stmt) (scope : ScopeId) (point : Point),
    statement.nested.walk limit scope point = statement.walk limit scope point
  | .branch _ _ thenBody none, _, _ => by simp only [Stmt.nested, Stmt.walk, Stmt.walk_joined thenBody]
  | .branch _ _ thenBody (some elseBody), _, _ => by
    simp only [Stmt.nested, Stmt.walk, Stmt.walk_joined thenBody, Stmt.walk_joined elseBody]
  | .forEach _ _ _ body, _, _ => by simp only [Stmt.nested, Stmt.walk, Stmt.walk_joined body]
  | .whileLoop _ _ body, _, _ => by simp only [Stmt.nested, Stmt.walk, Stmt.walk_joined body]
  | .attempt _ body handler none, _, _ => by
    simp only [Stmt.nested, Stmt.walk, Stmt.walk_joined body, Handler.walk_nested handler]
  | .attempt _ body handler (some finallyBody), _, _ => by
    simp only [Stmt.nested, Stmt.walk, Stmt.walk_joined body, Handler.walk_nested handler,
      Stmt.walk_joined finallyBody]
  | .function _ _ _ body, _, _ => by simp only [Stmt.nested, Stmt.walk, Stmt.walk_joined body]
  | .expression .., _, _ | .assign .., _, _ | .declare .., _, _ | .return .., _, _ | .word .., _, _
  | .comment .., _, _ => rfl

theorem Handler.walk_nested : ∀ (handler : Handler) (line : SourceLine) (scope : ScopeId) (point : Point),
    handler.nested.walk limit line scope point = handler.walk limit line scope point
  | .absent, _, _, _ => rfl
  | .present _ body, _, _, _ => by simp only [Handler.nested, Handler.walk, Stmt.walk_joined body]

theorem Stmt.walk_nestedParts : ∀ (statements : List Stmt) (scope : ScopeId) (suspended : Suspended) (point : Point),
    Stmt.walkList limit (Stmt.nestedParts statements).2 (suspended.outer scope) none
        (suspended.resume (Stmt.walkList limit (Stmt.nestedParts statements).1 scope none point)) =
      Stmt.walkList limit statements scope suspended point
  | [], _, _, _ => rfl
  | statement :: rest, scope, suspended, point => by
    have others := Stmt.walk_nestedParts rest
    have first := Stmt.walk_nested statement
    obtain ⟨line, name, params, rfl⟩ | bodied | plain := statement.kinds
    -- The function suspends the list around it; what it owns is all there is before the list goes on.
    · simp only [Stmt.nestedParts, Stmt.walkList_function limit _ _ _ _ (Stmt.nestedParts_after rest), Stmt.walk]
      exact others _ (some (suspended.outer scope, (suspended.resume point).flow)) _
    · simp only [Stmt.nestedParts_bodied bodied, Stmt.walkList_bodied limit bodied,
        Stmt.walkList_bodied limit bodied.nested, first, Stmt.joined,
        Stmt.walkList_append_plain limit (Stmt.nestedParts_own rest)]
      exact others _ none _
    · have plain' := (Stmt.nested_isFunction statement).trans plain
      simp only [Stmt.nestedParts_plain plain, Stmt.walkList_plain limit plain, Stmt.walkList_plain limit plain', first]
      exact others scope suspended _

theorem Stmt.walk_joined : ∀ (statements : List Stmt) (scope : ScopeId) (point : Point),
    Stmt.walkList limit (Stmt.joined (Stmt.nestedParts statements)) scope none point =
      Stmt.walkList limit statements scope none point := by
  intro statements scope point
  rw [Stmt.joined, Stmt.walkList_append_plain limit (Stmt.nestedParts_own statements)]
  exact Stmt.walk_nestedParts statements scope none point
end
end

theorem Stmt.withIdsList_append (one other : List Stmt) (next : Nat) :
    Stmt.withIdsList (one ++ other) next =
      ((Stmt.withIdsList one next).1 ++ (Stmt.withIdsList other (Stmt.withIdsList one next).2).1,
        (Stmt.withIdsList other (Stmt.withIdsList one next).2).2) := by
  induction one generalizing next with
  | nil => rfl
  | cons statement rest ih => simp only [List.cons_append, Stmt.withIdsList, ih]

theorem Stmt.withIds_isFunction (statement : Stmt) (next : Nat) :
    (statement.withIds next).1.isFunction = statement.isFunction := by
  cases statement with
  | branch _ _ _ elseBody => cases elseBody <;> rfl
  | attempt _ _ _ finallyBody => cases finallyBody <;> rfl
  | «return» _ value => cases value <;> rfl
  | _ => rfl

theorem Stmt.IsBodied.withIds {statement : Stmt} (bodied : statement.IsBodied) (next : Nat) :
    (statement.withIds next).1.IsBodied := by
  match statement, bodied with
  | .function _ _ _ (_ :: _), _ => exact ⟨rfl, rfl⟩

mutual
/-- Numbering keeps the order of a program, and so does explicit ownership. -/
theorem Stmt.withIds_nested : ∀ (statement : Stmt) (next : Nat),
    statement.nested.withIds next = ((statement.withIds next).1.nested, (statement.withIds next).2)
  | .branch _ _ thenBody none, _ => by
    simp only [Stmt.nested, Stmt.withIds, Stmt.withIds_joined thenBody]
  | .branch _ _ thenBody (some elseBody), _ => by
    simp only [Stmt.nested, Stmt.withIds, Stmt.withIds_joined thenBody, Stmt.withIds_joined elseBody]
  | .forEach _ _ _ body, _ => by simp only [Stmt.nested, Stmt.withIds, Stmt.withIds_joined body]
  | .whileLoop _ _ body, _ => by simp only [Stmt.nested, Stmt.withIds, Stmt.withIds_joined body]
  | .attempt _ body handler none, _ => by
    simp only [Stmt.nested, Stmt.withIds, Stmt.withIds_joined body, Handler.withIds_nested handler]
  | .attempt _ body handler (some finallyBody), _ => by
    simp only [Stmt.nested, Stmt.withIds, Stmt.withIds_joined body, Handler.withIds_nested handler,
      Stmt.withIds_joined finallyBody]
  | .function _ _ _ body, _ => by simp only [Stmt.nested, Stmt.withIds, Stmt.withIds_joined body]
  | .expression .., _ | .assign .., _ | .declare .., _ | .return _ none, _ | .return _ (some _), _ | .word .., _
  | .comment .., _ => rfl

theorem Handler.withIds_nested : ∀ (handler : Handler) (next : Nat),
    handler.nested.withIds next = ((handler.withIds next).1.nested, (handler.withIds next).2)
  | .absent, _ => rfl
  | .present _ body, _ => by simp only [Handler.nested, Handler.withIds, Stmt.withIds_joined body]

theorem Stmt.withIds_nestedParts : ∀ (statements : List Stmt) (next : Nat),
    let own := Stmt.withIdsList (Stmt.nestedParts statements).1 next
    let after := Stmt.withIdsList (Stmt.nestedParts statements).2 own.2
    Stmt.nestedParts (Stmt.withIdsList statements next).1 = (own.1, after.1) ∧
      (Stmt.withIdsList statements next).2 = after.2
  | [], _ => ⟨rfl, rfl⟩
  | statement :: rest, next => by
    have first := Stmt.withIds_nested statement next
    have others := Stmt.withIds_nestedParts rest
    obtain ⟨line, name, params, rfl⟩ | bodied | plain := statement.kinds
    · simp [Stmt.withIdsList, Stmt.withIds, Stmt.nestedParts, others]
    · simp [Stmt.withIdsList, Stmt.nestedParts_bodied bodied, Stmt.nestedParts_bodied (bodied.withIds next), first,
        Stmt.joined, Stmt.withIdsList_append, others]
    · have plain' := (Stmt.withIds_isFunction statement next).trans plain
      simp [Stmt.withIdsList, Stmt.nestedParts_plain plain, Stmt.nestedParts_plain plain', first, others]

theorem Stmt.withIds_joined : ∀ (statements : List Stmt) (next : Nat),
    Stmt.withIdsList (Stmt.joined (Stmt.nestedParts statements)) next =
      (Stmt.joined (Stmt.nestedParts (Stmt.withIdsList statements next).1), (Stmt.withIdsList statements next).2) := by
  intro statements next
  obtain ⟨parts, count⟩ := Stmt.withIds_nestedParts statements next
  simp only [Stmt.joined, Stmt.withIdsList_append, parts, count]
end

theorem Program.withIds_nested (program : Program) :
    program.nested.withIds = (program.withIds.1.nested, program.withIds.2) := by
  simp only [Program.nested, Program.withIds, Stmt.nestedList, Stmt.withIds_joined]

theorem Stmt.declaredFunctionsList_append (one other : List Stmt) :
    Stmt.declaredFunctionsList (one ++ other) =
      Stmt.declaredFunctionsList one ++ Stmt.declaredFunctionsList other := by
  induction one with
  | nil => rfl
  | cons statement rest ih => simp only [List.cons_append, Stmt.declaredFunctionsList, ih, List.append_assoc]

mutual
theorem Stmt.declaredFunctions_nested : ∀ statement : Stmt,
    statement.nested.declaredFunctions = statement.declaredFunctions
  | .branch _ _ thenBody none => by
    simp only [Stmt.nested, Stmt.declaredFunctions, Stmt.declaredFunctions_joined thenBody]
  | .branch _ _ thenBody (some elseBody) => by
    simp only [Stmt.nested, Stmt.declaredFunctions, Stmt.declaredFunctions_joined thenBody,
      Stmt.declaredFunctions_joined elseBody]
  | .forEach _ _ _ body => by
    simp only [Stmt.nested, Stmt.declaredFunctions, Stmt.declaredFunctions_joined body]
  | .whileLoop _ _ body => by
    simp only [Stmt.nested, Stmt.declaredFunctions, Stmt.declaredFunctions_joined body]
  | .attempt _ body handler none => by
    simp only [Stmt.nested, Stmt.declaredFunctions, Stmt.declaredFunctions_joined body,
      Handler.declaredFunctions_nested handler]
  | .attempt _ body handler (some finallyBody) => by
    simp only [Stmt.nested, Stmt.declaredFunctions, Stmt.declaredFunctions_joined body,
      Handler.declaredFunctions_nested handler, Stmt.declaredFunctions_joined finallyBody]
  | .function _ _ _ body => by
    simp only [Stmt.nested, Stmt.declaredFunctions, Stmt.declaredFunctions_joined body]
  | .expression .. | .assign .. | .declare .. | .return .. | .word .. | .comment .. => rfl

theorem Handler.declaredFunctions_nested : ∀ handler : Handler,
    handler.nested.declaredFunctions = handler.declaredFunctions
  | .absent => rfl
  | .present _ body => by
    simp only [Handler.nested, Handler.declaredFunctions, Stmt.declaredFunctions_joined body]

theorem Stmt.declaredFunctions_joined : ∀ statements : List Stmt,
    Stmt.declaredFunctionsList (Stmt.joined (Stmt.nestedParts statements)) =
      Stmt.declaredFunctionsList statements
  | [] => rfl
  | statement :: rest => by
    have first := Stmt.declaredFunctions_nested statement
    have others := Stmt.declaredFunctions_joined rest
    rw [Stmt.joined, Stmt.declaredFunctionsList_append] at others
    obtain ⟨line, name, params, rfl⟩ | bodied | plain := statement.kinds
    · simp [Stmt.nestedParts, Stmt.joined, Stmt.declaredFunctionsList, Stmt.declaredFunctions, ← others]
    · simp [Stmt.nestedParts_bodied bodied, Stmt.joined, Stmt.declaredFunctionsList, first,
        Stmt.declaredFunctionsList_append, ← others]
    · simp [Stmt.nestedParts_plain plain, Stmt.joined, Stmt.declaredFunctionsList, first,
        Stmt.declaredFunctionsList_append, ← others]
end

section
variable (table : ScopeTable) (words : ReservedWords)

theorem Stmt.annotateList_append (one other : List Stmt) :
    Stmt.annotateList table words (one ++ other) =
      ((Stmt.annotateList table words one).1 ++ (Stmt.annotateList table words other).1,
        (Stmt.annotateList table words one).2 + (Stmt.annotateList table words other).2) := by
  induction one with
  | nil => simp [Stmt.annotateList]
  | cons statement rest ih => simp only [List.cons_append, Stmt.annotateList, ih, Nat.add_assoc]

theorem Stmt.annotate_isFunction (statement : Stmt) :
    (statement.annotate table words).1.isFunction = statement.isFunction := by
  cases statement with
  | branch _ _ _ elseBody => cases elseBody <;> rfl
  | attempt _ _ _ finallyBody => cases finallyBody <;> rfl
  | «return» _ value => cases value <;> rfl
  | _ => rfl

theorem Stmt.IsBodied.annotate {statement : Stmt} (bodied : statement.IsBodied) :
    (statement.annotate table words).1.IsBodied := by
  match statement, bodied with
  | .function _ _ _ (_ :: _), _ => exact ⟨rfl, rfl⟩

mutual
/-- Annotation does not look at what a function owns. -/
theorem Stmt.annotate_nested : ∀ statement : Stmt,
    statement.nested.annotate table words =
      ((statement.annotate table words).1.nested, (statement.annotate table words).2)
  | .branch _ _ thenBody none => by
    simp only [Stmt.nested, Stmt.annotate, Stmt.annotate_joined thenBody]
  | .branch _ _ thenBody (some elseBody) => by
    simp only [Stmt.nested, Stmt.annotate, Stmt.annotate_joined thenBody, Stmt.annotate_joined elseBody]
  | .forEach _ _ _ body => by simp only [Stmt.nested, Stmt.annotate, Stmt.annotate_joined body]
  | .whileLoop _ _ body => by simp only [Stmt.nested, Stmt.annotate, Stmt.annotate_joined body]
  | .attempt _ body handler none => by
    simp only [Stmt.nested, Stmt.annotate, Stmt.annotate_joined body, Handler.annotate_nested handler]
  | .attempt _ body handler (some finallyBody) => by
    simp only [Stmt.nested, Stmt.annotate, Stmt.annotate_joined body, Handler.annotate_nested handler,
      Stmt.annotate_joined finallyBody]
  | .function _ _ _ body => by simp only [Stmt.nested, Stmt.annotate, Stmt.annotate_joined body]
  | .expression .. | .assign .. | .declare .. | .return _ none | .return _ (some _) | .word .. | .comment .. => rfl

theorem Handler.annotate_nested : ∀ handler : Handler,
    handler.nested.annotate table words =
      ((handler.annotate table words).1.nested, (handler.annotate table words).2)
  | .absent => rfl
  | .present _ body => by simp only [Handler.nested, Handler.annotate, Stmt.annotate_joined body]

theorem Stmt.annotate_nestedParts : ∀ statements : List Stmt,
    let own := Stmt.annotateList table words (Stmt.nestedParts statements).1
    let after := Stmt.annotateList table words (Stmt.nestedParts statements).2
    Stmt.nestedParts (Stmt.annotateList table words statements).1 = (own.1, after.1) ∧
      (Stmt.annotateList table words statements).2 = own.2 + after.2
  | [] => ⟨rfl, rfl⟩
  | statement :: rest => by
    have first := Stmt.annotate_nested statement
    have others := Stmt.annotate_nestedParts rest
    obtain ⟨line, name, params, rfl⟩ | bodied | plain := statement.kinds
    · simp [Stmt.annotateList, Stmt.annotate, Stmt.nestedParts, others, Nat.add_assoc]
    · simp [Stmt.annotateList, Stmt.nestedParts_bodied bodied, Stmt.nestedParts_bodied (bodied.annotate table words),
        first, Stmt.joined, Stmt.annotateList_append, others]
    · have plain' := (Stmt.annotate_isFunction table words statement).trans plain
      simp [Stmt.annotateList, Stmt.nestedParts_plain plain, Stmt.nestedParts_plain plain', first, others,
        Nat.add_assoc]

theorem Stmt.annotate_joined : ∀ statements : List Stmt,
    Stmt.annotateList table words (Stmt.joined (Stmt.nestedParts statements)) =
      (Stmt.joined (Stmt.nestedParts (Stmt.annotateList table words statements).1),
        (Stmt.annotateList table words statements).2) := by
  intro statements
  obtain ⟨parts, count⟩ := Stmt.annotate_nestedParts statements
  simp only [Stmt.joined, Stmt.annotateList_append, parts, count]
end
end

/-- Resolution finds the same in a program with explicit ownership, and annotates it alike. -/
theorem Program.resolve_nested (settings : Settings) (program : Program) :
    program.nested.resolve settings =
      { program.resolve settings with program := (program.resolve settings).program.nested } := by
  have found (numbered : Program) (limit : Nat) : numbered.nested.findings limit = numbered.findings limit := by
    simp only [Program.findings, Program.nested, Program.declaredFunctions, Stmt.nestedList,
      Stmt.declaredFunctions_joined, Stmt.walk_joined]
  simp only [Program.resolve, Program.withIds_nested, found]
  simp only [Program.annotate, Program.nested, Stmt.nestedList, Stmt.annotate_joined]

end ArrayLift
