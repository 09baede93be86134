import ArrayLift.Proofs.Naming.Renaming
import ArrayLift.Resolution.Resolve

/-! Numbering and annotation under other names. Numbering does not look at names at all, and annotation only to decide
which of them are reserved. -/
namespace ArrayLift

section
variable (rename : Renaming)

mutual
/-- The numbers of a tree do not depend on its names. -/
theorem Ident.withIds_renamed : ∀ (ident : Ident) (next : Nat),
    (ident.renamed rename).withIds next = ((ident.withIds next).1.renamed rename, (ident.withIds next).2)
  | .mk _ none _ _ _, _ => rfl
  | .mk _ (some init) _ _ _, next => by
    simp only [Ident.withIds, Ident.renamed, Expr.withIds_renamed init]

theorem Expr.withIds_renamed : ∀ (expr : Expr) (next : Nat),
    (expr.renamed rename).withIds next = ((expr.withIds next).1.renamed rename, (expr.withIds next).2)
  | .ident _ named, _ => by simp only [Expr.withIds, Expr.renamed, Ident.withIds_renamed named]
  | .literal .., _ => rfl
  | .operation _ _ operands none, _ => by
    simp only [Expr.withIds, Expr.renamed, Expr.withIdsList_renamed operands]
  | .operation _ _ operands (some result), _ => by
    simp only [Expr.withIds, Expr.renamed, Expr.withIdsList_renamed operands, Ident.withIds_renamed result]
  | .field _ object _, _ => by simp only [Expr.withIds, Expr.renamed, Expr.withIds_renamed object]
  | .dynamicField _ object selector, _ => by
    simp only [Expr.withIds, Expr.renamed, Expr.withIds_renamed object, Expr.withIds_renamed selector]
  | .index _ _ target arguments, _ => by
    simp only [Expr.withIds, Expr.renamed, Expr.withIds_renamed target, Expr.withIdsList_renamed arguments]
  | .rows _ _ rows, _ => by simp only [Expr.withIds, Expr.renamed, Expr.withIdsRows_renamed rows]
  | .lambda _ params body, _ => by
    simp only [Expr.withIds, Expr.renamed, Ident.withIdsList_renamed params, Expr.withIds_renamed body]

theorem Expr.withIdsList_renamed : ∀ (exprs : List Expr) (next : Nat),
    Expr.withIdsList (Expr.renamedList rename exprs) next =
      (Expr.renamedList rename (Expr.withIdsList exprs next).1, (Expr.withIdsList exprs next).2)
  | [], _ => rfl
  | expr :: rest, _ => by
    simp only [Expr.withIdsList, Expr.renamedList, Expr.withIds_renamed expr, Expr.withIdsList_renamed rest]

theorem Expr.withIdsRows_renamed : ∀ (rows : List (List Expr)) (next : Nat),
    Expr.withIdsRows (Expr.renamedRows rename rows) next =
      (Expr.renamedRows rename (Expr.withIdsRows rows next).1, (Expr.withIdsRows rows next).2)
  | [], _ => rfl
  | row :: rest, _ => by
    simp only [Expr.withIdsRows, Expr.renamedRows, Expr.withIdsList_renamed row, Expr.withIdsRows_renamed rest]

theorem Ident.withIdsList_renamed : ∀ (idents : List Ident) (next : Nat),
    Ident.withIdsList (Ident.renamedList rename idents) next =
      (Ident.renamedList rename (Ident.withIdsList idents next).1, (Ident.withIdsList idents next).2)
  | [], _ => rfl
  | ident :: rest, _ => by
    simp only [Ident.withIdsList, Ident.renamedList, Ident.withIds_renamed ident, Ident.withIdsList_renamed rest]
end

mutual
theorem Stmt.withIds_renamed : ∀ (statement : Stmt) (next : Nat),
    (statement.renamed rename).withIds next = ((statement.withIds next).1.renamed rename, (statement.withIds next).2)
  | .expression .., _ => by simp only [Stmt.withIds, Stmt.renamed, Expr.withIds_renamed]
  | .assign .., _ => by simp only [Stmt.withIds, Stmt.renamed, Expr.withIdsList_renamed, Expr.withIds_renamed]
  | .branch _ _ thenBody none, _ => by
    simp only [Stmt.withIds, Stmt.renamed, Expr.withIds_renamed, Stmt.withIdsList_renamed thenBody]
  | .branch _ _ thenBody (some elseBody), _ => by
    simp only [Stmt.withIds, Stmt.renamed, Expr.withIds_renamed, Stmt.withIdsList_renamed thenBody,
      Stmt.withIdsList_renamed elseBody]
  | .forEach _ _ _ body, _ => by
    simp only [Stmt.withIds, Stmt.renamed, Ident.withIds_renamed, Expr.withIds_renamed, Stmt.withIdsList_renamed body]
  | .whileLoop _ _ body, _ => by
    simp only [Stmt.withIds, Stmt.renamed, Expr.withIds_renamed, Stmt.withIdsList_renamed body]
  | .attempt _ body handler none, _ => by
    simp only [Stmt.withIds, Stmt.renamed, Stmt.withIdsList_renamed body, Handler.withIds_renamed handler]
  | .attempt _ body handler (some finallyBody), _ => by
    simp only [Stmt.withIds, Stmt.renamed, Stmt.withIdsList_renamed body, Handler.withIds_renamed handler,
      Stmt.withIdsList_renamed finallyBody]
  | .function _ _ _ body, _ => by
    simp only [Stmt.withIds, Stmt.renamed, Ident.withIds_renamed, Ident.withIdsList_renamed,
      Stmt.withIdsList_renamed body]
  | .declare .., _ => by simp only [Stmt.withIds, Stmt.renamed, Ident.withIdsList_renamed]
  | .return _ none, _ | .word .., _ | .comment .., _ => rfl
  | .return _ (some value), _ => by simp only [Stmt.withIds, Stmt.renamed, Expr.withIds_renamed]

theorem Handler.withIds_renamed : ∀ (handler : Handler) (next : Nat),
    (handler.renamed rename).withIds next = ((handler.withIds next).1.renamed rename, (handler.withIds next).2)
  | .absent, _ => rfl
  | .present none body, _ => by
    simp only [Handler.withIds, Handler.renamed, Ident.withIdsOption, Stmt.withIdsList_renamed body]
  | .present (some _) body, _ => by
    simp only [Handler.withIds, Handler.renamed, Ident.withIdsOption, Ident.withIds_renamed,
      Stmt.withIdsList_renamed body]

theorem Stmt.withIdsList_renamed : ∀ (statements : List Stmt) (next : Nat),
    Stmt.withIdsList (Stmt.renamedList rename statements) next =
      (Stmt.renamedList rename (Stmt.withIdsList statements next).1, (Stmt.withIdsList statements next).2)
  | [], _ => rfl
  | statement :: rest, _ => by
    simp only [Stmt.withIdsList, Stmt.renamedList, Stmt.withIds_renamed statement, Stmt.withIdsList_renamed rest]
end

theorem Program.withIds_renamed (program : Program) :
    (program.renamed rename).withIds = (program.withIds.1.renamed rename, program.withIds.2) := by
  simp only [withIds, renamed, Stmt.withIdsList_renamed]

mutual
theorem Stmt.declaredFunctions_renamed : ∀ statement : Stmt,
    (statement.renamed rename).declaredFunctions = statement.declaredFunctions.map rename.name
  | .branch _ _ thenBody none => Stmt.declaredFunctionsList_renamed thenBody
  | .branch _ _ thenBody (some elseBody) => by
    simp only [Stmt.renamed, Stmt.declaredFunctions, Stmt.declaredFunctionsList_renamed thenBody,
      Stmt.declaredFunctionsList_renamed elseBody, List.map_append]
  | .forEach _ _ _ body | .whileLoop _ _ body => Stmt.declaredFunctionsList_renamed body
  | .attempt _ body handler none => by
    simp only [Stmt.renamed, Stmt.declaredFunctions, Stmt.declaredFunctionsList_renamed body,
      Handler.declaredFunctions_renamed handler, List.map_append]
  | .attempt _ body handler (some finallyBody) => by
    simp only [Stmt.renamed, Stmt.declaredFunctions, Stmt.declaredFunctionsList_renamed body,
      Handler.declaredFunctions_renamed handler, Stmt.declaredFunctionsList_renamed finallyBody, List.map_append]
  | .function _ name _ body => by
    simp only [Stmt.renamed, Stmt.declaredFunctions, Ident.name_renamed, Stmt.declaredFunctionsList_renamed body,
      List.map_cons]
  | .return _ none | .return _ (some _) | .expression .. | .assign .. | .declare .. | .word .. | .comment .. => rfl

theorem Handler.declaredFunctions_renamed : ∀ handler : Handler,
    (handler.renamed rename).declaredFunctions = handler.declaredFunctions.map rename.name
  | .absent => rfl
  | .present none body | .present (some _) body => Stmt.declaredFunctionsList_renamed body

theorem Stmt.declaredFunctionsList_renamed : ∀ statements : List Stmt,
    Stmt.declaredFunctionsList (Stmt.renamedList rename statements) =
      (Stmt.declaredFunctionsList statements).map rename.name
  | [] => rfl
  | statement :: rest => by
    simp only [Stmt.renamedList, Stmt.declaredFunctionsList, Stmt.declaredFunctions_renamed statement,
      Stmt.declaredFunctionsList_renamed rest, List.map_append]
end

end

section
variable (words : ReservedWords)

mutual
/-- The identifier with the flag that its name has among other reserved words. -/
def Ident.reflagged : Ident → Ident
  | .mk name none role _ id => .mk name none role (words.contains name) id
  | .mk name (some init) role _ id => .mk name (some (Expr.reflagged init)) role (words.contains name) id

def Expr.reflagged : Expr → Expr
  | .ident line named => .ident line (Ident.reflagged named)
  | .literal line value => .literal line value
  | .operation line spelling operands none => .operation line spelling (Expr.reflaggedList operands) none
  | .operation line spelling operands (some result) =>
    .operation line spelling (Expr.reflaggedList operands) (some (Ident.reflagged result))
  | .field line object name => .field line (Expr.reflagged object) name
  | .dynamicField line object selector => .dynamicField line (Expr.reflagged object) (Expr.reflagged selector)
  | .index line form target arguments => .index line form (Expr.reflagged target) (Expr.reflaggedList arguments)
  | .rows line brackets rows => .rows line brackets (Expr.reflaggedRows rows)
  | .lambda line params body => .lambda line (Ident.reflaggedList params) (Expr.reflagged body)

def Expr.reflaggedList : List Expr → List Expr
  | [] => []
  | expr :: rest => Expr.reflagged expr :: Expr.reflaggedList rest

def Expr.reflaggedRows : List (List Expr) → List (List Expr)
  | [] => []
  | row :: rest => Expr.reflaggedList row :: Expr.reflaggedRows rest

def Ident.reflaggedList : List Ident → List Ident
  | [] => []
  | ident :: rest => Ident.reflagged ident :: Ident.reflaggedList rest
end

mutual
def Stmt.reflagged : Stmt → Stmt
  | .expression line value => .expression line (value.reflagged words)
  | .assign line targets value => .assign line (Expr.reflaggedList words targets) (value.reflagged words)
  | .branch line condition thenBody none =>
    .branch line (condition.reflagged words) (Stmt.reflaggedList thenBody) none
  | .branch line condition thenBody (some elseBody) =>
    .branch line (condition.reflagged words) (Stmt.reflaggedList thenBody) (some (Stmt.reflaggedList elseBody))
  | .forEach line loopName columns body =>
    .forEach line (loopName.reflagged words) (columns.reflagged words) (Stmt.reflaggedList body)
  | .whileLoop line condition body => .whileLoop line (condition.reflagged words) (Stmt.reflaggedList body)
  | .attempt line body handler none => .attempt line (Stmt.reflaggedList body) (Handler.reflagged handler) none
  | .attempt line body handler (some finallyBody) =>
    .attempt line (Stmt.reflaggedList body) (Handler.reflagged handler) (some (Stmt.reflaggedList finallyBody))
  | .function line name params body =>
    .function line (name.reflagged words) (Ident.reflaggedList words params) (Stmt.reflaggedList body)
  | .declare line declaration names => .declare line declaration (Ident.reflaggedList words names)
  | .return line none => .return line none
  | .return line (some value) => .return line (some (value.reflagged words))
  | .word line word => .word line word
  | .comment line text => .comment line text

def Handler.reflagged : Handler → Handler
  | .absent => .absent
  | .present none body => .present none (Stmt.reflaggedList body)
  | .present (some name) body => .present (some (name.reflagged words)) (Stmt.reflaggedList body)

def Stmt.reflaggedList : List Stmt → List Stmt
  | [] => []
  | statement :: rest => Stmt.reflagged statement :: Stmt.reflaggedList rest
end

/-- The program with the flags that its names have among other reserved words. -/
def Program.reflagged (program : Program) : Program :=
  ⟨Stmt.reflaggedList words program.statements⟩

end

theorem Ident.role_reflagged_renamed (words : ReservedWords) (rename : Renaming) (ident : Ident) :
    ((ident.renamed rename).reflagged words).role = ident.role := by
  obtain ⟨name, init, role, reserved, id⟩ := ident
  cases init <;> rfl

theorem Expr.calleeRole?_reflagged_renamed (words : ReservedWords) (rename : Renaming) : ∀ expr : Expr,
    ((expr.renamed rename).reflagged words).calleeRole? = expr.calleeRole?
  | .ident _ named => congrArg some (named.role_reflagged_renamed words rename)
  | .field _ object _ | .dynamicField _ object _ => Expr.calleeRole?_reflagged_renamed words rename object
  | .operation _ _ _ none | .operation _ _ _ (some _) => rfl
  | .literal .. | .index .. | .rows .. | .lambda .. => rfl

theorem IndexForm.decided_reflagged_renamed (words : ReservedWords) (rename : Renaming) (form : IndexForm)
    (place : Place) (target : Expr) :
    form.decided place ((target.renamed rename).reflagged words) = form.decided place target := by
  cases form <;> cases place <;> simp [decided, Place.isCall, Expr.calleeRole?_reflagged_renamed]

theorem ScopeTable.roleFor_congr {table other : ScopeTable} (roles : ∀ id, other.roleOf id = table.roleOf id)
    (id : Option IdentId) (old : Role) : other.roleFor id old = table.roleFor id old := by
  cases id with
  | none => rfl
  | some id => simp only [roleFor, roles]

theorem Expr.length_renamedList (rename : Renaming) (exprs : List Expr) :
    (Expr.renamedList rename exprs).length = exprs.length := by
  rw [Expr.renamedList_eq_map, List.length_map]

section
variable (rename : Renaming) {table other : ScopeTable} (words theirs : ReservedWords)

mutual
/-- Tables that know the same roles give a tree and the renamed one the same annotations, up to what is reserved. -/
theorem Ident.annotate_renamed (roles : ∀ id, other.roleOf id = table.roleOf id) : ∀ ident : Ident,
    ((ident.renamed rename).annotate other theirs).1 =
      ((ident.annotate table words).1.renamed rename).reflagged theirs
  | .mk _ none _ _ _ => by
    simp only [Ident.renamed, Ident.annotate, Ident.reflagged, ScopeTable.roleFor_congr roles]
  | .mk _ (some init) _ _ _ => by
    simp only [Ident.renamed, Ident.annotate, Ident.reflagged, ScopeTable.roleFor_congr roles,
      Expr.annotate_renamed roles init]

theorem Expr.annotate_renamed (roles : ∀ id, other.roleOf id = table.roleOf id) : ∀ (expr : Expr) (place : Place),
    ((expr.renamed rename).annotate other theirs place).1 =
      ((expr.annotate table words place).1.renamed rename).reflagged theirs
  | .ident _ named, _ => by
    simp only [Expr.renamed, Expr.annotate, Expr.reflagged, Ident.annotate_renamed roles named]
  | .literal .., _ => rfl
  | .operation _ _ operands none, _ => by
    simp only [Expr.renamed, Expr.annotate, Expr.reflagged, Expr.annotateList_renamed roles operands]
  | .operation _ _ operands (some result), _ => by
    simp only [Expr.renamed, Expr.annotate, Expr.reflagged, Expr.annotateList_renamed roles operands,
      Ident.annotate_renamed roles result]
  | .field _ object _, _ => by
    simp only [Expr.renamed, Expr.annotate, Expr.reflagged, Expr.annotate_renamed roles object]
  | .dynamicField _ object selector, _ => by
    simp only [Expr.renamed, Expr.annotate, Expr.reflagged, Expr.annotate_renamed roles object,
      Expr.annotate_renamed roles selector]
  | .index _ form target arguments, place => by
    simp only [Expr.renamed, Expr.annotate, Expr.reflagged, Expr.annotate_renamed roles target,
      Expr.annotateList_renamed roles arguments, IndexForm.decided_reflagged_renamed]
  | .rows _ _ elements, _ => by
    simp only [Expr.renamed, Expr.annotate, Expr.reflagged, Expr.annotateRows_renamed roles elements]
  | .lambda _ params body, _ => by
    simp only [Expr.renamed, Expr.annotate, Expr.reflagged, Ident.annotateList_renamed roles params,
      Expr.annotate_renamed roles body]

theorem Expr.annotateList_renamed (roles : ∀ id, other.roleOf id = table.roleOf id) :
    ∀ (exprs : List Expr) (place : Place),
    (Expr.annotateList other theirs (Expr.renamedList rename exprs) place).1 =
      Expr.reflaggedList theirs (Expr.renamedList rename (Expr.annotateList table words exprs place).1)
  | [], _ => rfl
  | expr :: rest, _ => by
    simp only [Expr.renamedList, Expr.annotateList, Expr.reflaggedList, Expr.annotate_renamed roles expr,
      Expr.annotateList_renamed roles rest]

theorem Expr.annotateRows_renamed (roles : ∀ id, other.roleOf id = table.roleOf id) : ∀ rows : List (List Expr),
    (Expr.annotateRows other theirs (Expr.renamedRows rename rows)).1 =
      Expr.reflaggedRows theirs (Expr.renamedRows rename (Expr.annotateRows table words rows).1)
  | [] => rfl
  | row :: rest => by
    simp only [Expr.renamedRows, Expr.annotateRows, Expr.reflaggedRows, Expr.annotateList_renamed roles row,
      Expr.annotateRows_renamed roles rest]

theorem Ident.annotateList_renamed (roles : ∀ id, other.roleOf id = table.roleOf id) : ∀ idents : List Ident,
    (Ident.annotateList other theirs (Ident.renamedList rename idents)).1 =
      Ident.reflaggedList theirs (Ident.renamedList rename (Ident.annotateList table words idents).1)
  | [] => rfl
  | ident :: rest => by
    simp only [Ident.renamedList, Ident.annotateList, Ident.reflaggedList, Ident.annotate_renamed roles ident,
      Ident.annotateList_renamed roles rest]
end

mutual
theorem Stmt.annotate_renamed (roles : ∀ id, other.roleOf id = table.roleOf id) : ∀ statement : Stmt,
    ((statement.renamed rename).annotate other theirs).1 =
      ((statement.annotate table words).1.renamed rename).reflagged theirs
  | .expression _ value => by
    simp only [Stmt.renamed, Stmt.annotate, Stmt.reflagged, value.annotate_renamed rename words theirs roles]
  | .assign _ targets value => by
    simp only [Stmt.renamed, Stmt.annotate, Stmt.reflagged, Expr.length_renamedList,
      Expr.annotateList_renamed rename words theirs roles targets, value.annotate_renamed rename words theirs roles]
  | .branch _ condition thenBody none => by
    simp only [Stmt.renamed, Stmt.annotate, Stmt.reflagged, condition.annotate_renamed rename words theirs roles,
      Stmt.annotateList_renamed roles thenBody]
  | .branch _ condition thenBody (some elseBody) => by
    simp only [Stmt.renamed, Stmt.annotate, Stmt.reflagged, condition.annotate_renamed rename words theirs roles,
      Stmt.annotateList_renamed roles thenBody, Stmt.annotateList_renamed roles elseBody]
  | .forEach _ loopName columns body => by
    simp only [Stmt.renamed, Stmt.annotate, Stmt.reflagged, loopName.annotate_renamed rename words theirs roles,
      columns.annotate_renamed rename words theirs roles, Stmt.annotateList_renamed roles body]
  | .whileLoop _ condition body => by
    simp only [Stmt.renamed, Stmt.annotate, Stmt.reflagged, condition.annotate_renamed rename words theirs roles,
      Stmt.annotateList_renamed roles body]
  | .attempt _ body handler none => by
    simp only [Stmt.renamed, Stmt.annotate, Stmt.reflagged, Stmt.annotateList_renamed roles body,
      Handler.annotate_renamed roles handler]
  | .attempt _ body handler (some finallyBody) => by
    simp only [Stmt.renamed, Stmt.annotate, Stmt.reflagged, Stmt.annotateList_renamed roles body,
      Handler.annotate_renamed roles handler, Stmt.annotateList_renamed roles finallyBody]
  | .function _ name params body => by
    simp only [Stmt.renamed, Stmt.annotate, Stmt.reflagged, name.annotate_renamed rename words theirs roles,
      Ident.annotateList_renamed rename words theirs roles params, Stmt.annotateList_renamed roles body]
  | .declare _ _ names => by
    simp only [Stmt.renamed, Stmt.annotate, Stmt.reflagged,
      Ident.annotateList_renamed rename words theirs roles names]
  | .return _ none | .word .. | .comment .. => rfl
  | .return _ (some value) => by
    simp only [Stmt.renamed, Stmt.annotate, Stmt.reflagged, value.annotate_renamed rename words theirs roles]

theorem Handler.annotate_renamed (roles : ∀ id, other.roleOf id = table.roleOf id) : ∀ handler : Handler,
    ((handler.renamed rename).annotate other theirs).1 =
      ((handler.annotate table words).1.renamed rename).reflagged theirs
  | .absent => rfl
  | .present none body => by
    simp only [Handler.renamed, Handler.annotate, Handler.reflagged, Ident.annotateOption,
      Stmt.annotateList_renamed roles body]
  | .present (some name) body => by
    simp only [Handler.renamed, Handler.annotate, Handler.reflagged, Ident.annotateOption,
      name.annotate_renamed rename words theirs roles, Stmt.annotateList_renamed roles body]

theorem Stmt.annotateList_renamed (roles : ∀ id, other.roleOf id = table.roleOf id) : ∀ statements : List Stmt,
    (Stmt.annotateList other theirs (Stmt.renamedList rename statements)).1 =
      Stmt.reflaggedList theirs (Stmt.renamedList rename (Stmt.annotateList table words statements).1)
  | [] => rfl
  | statement :: rest => by
    simp only [Stmt.renamedList, Stmt.annotateList, Stmt.reflaggedList, Stmt.annotate_renamed roles statement,
      Stmt.annotateList_renamed roles rest]
end

theorem Program.annotate_renamed (roles : ∀ id, other.roleOf id = table.roleOf id) (program : Program) :
    ((program.renamed rename).annotate other theirs).1 =
      ((program.annotate table words).1.renamed rename).reflagged theirs :=
  congrArg Program.mk (Stmt.annotateList_renamed rename words theirs roles program.statements)

end
end ArrayLift
