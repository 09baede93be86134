import ArrayLift.Proofs.Annotation.Mentions

/-! Trees that are moved to another place: their identities are moved up by one number, and the lines on which they
stand are left out. Numbering from a later first number moves the whole tree, and annotation moves with it if the
two tables know the same roles. -/
namespace ArrayLift

section
variable (distance : Nat)

mutual
def Ident.shifted : Ident → Ident
  | .mk name none role reserved id => .mk name none role reserved (id.map (· + distance))
  | .mk name (some init) role reserved id =>
    .mk name (some (Expr.shifted init)) role reserved (id.map (· + distance))

def Expr.shifted : Expr → Expr
  | .ident _ named => .ident 0 (Ident.shifted named)
  | .literal _ value => .literal 0 value
  | .operation _ spelling operands none => .operation 0 spelling (Expr.shiftedList operands) none
  | .operation _ spelling operands (some result) =>
    .operation 0 spelling (Expr.shiftedList operands) (some (Ident.shifted result))
  | .field _ object name => .field 0 (Expr.shifted object) name
  | .dynamicField _ object selector => .dynamicField 0 (Expr.shifted object) (Expr.shifted selector)
  | .index _ form target arguments => .index 0 form (Expr.shifted target) (Expr.shiftedList arguments)
  | .rows _ brackets rows => .rows 0 brackets (Expr.shiftedRows rows)
  | .lambda _ params body => .lambda 0 (Ident.shiftedList params) (Expr.shifted body)

def Expr.shiftedList : List Expr → List Expr
  | [] => []
  | expr :: rest => Expr.shifted expr :: Expr.shiftedList rest

def Expr.shiftedRows : List (List Expr) → List (List Expr)
  | [] => []
  | row :: rest => Expr.shiftedList row :: Expr.shiftedRows rest

def Ident.shiftedList : List Ident → List Ident
  | [] => []
  | ident :: rest => Ident.shifted ident :: Ident.shiftedList rest
end

mutual
def Stmt.shifted : Stmt → Stmt
  | .expression _ value => .expression 0 (value.shifted distance)
  | .assign _ targets value => .assign 0 (Expr.shiftedList distance targets) (value.shifted distance)
  | .branch _ condition thenBody none =>
    .branch 0 (condition.shifted distance) (Stmt.shiftedList thenBody) none
  | .branch _ condition thenBody (some elseBody) =>
    .branch 0 (condition.shifted distance) (Stmt.shiftedList thenBody) (some (Stmt.shiftedList elseBody))
  | .forEach _ loopName columns body =>
    .forEach 0 (loopName.shifted distance) (columns.shifted distance) (Stmt.shiftedList body)
  | .whileLoop _ condition body => .whileLoop 0 (condition.shifted distance) (Stmt.shiftedList body)
  | .attempt _ body handler none => .attempt 0 (Stmt.shiftedList body) (Handler.shifted handler) none
  | .attempt _ body handler (some finallyBody) =>
    .attempt 0 (Stmt.shiftedList body) (Handler.shifted handler) (some (Stmt.shiftedList finallyBody))
  | .function _ name params body =>
    .function 0 (name.shifted distance) (Ident.shiftedList distance params) (Stmt.shiftedList body)
  | .declare _ declaration names => .declare 0 declaration (Ident.shiftedList distance names)
  | .return _ none => .return 0 none
  | .return _ (some value) => .return 0 (some (value.shifted distance))
  | .word _ word => .word 0 word
  | .comment _ text => .comment 0 text

def Handler.shifted : Handler → Handler
  | .absent => .absent
  | .present none body => .present none (Stmt.shiftedList body)
  | .present (some name) body => .present (some (name.shifted distance)) (Stmt.shiftedList body)

def Stmt.shiftedList : List Stmt → List Stmt
  | [] => []
  | statement :: rest => Stmt.shifted statement :: Stmt.shiftedList rest
end

/-! Numbering. -/

section
variable (old : Nat)

mutual
/-- Numbered from a later first number, a tree is moved as a whole, wherever it stood before. -/
theorem Ident.withIds_shifted : ∀ (ident : Ident) (next : Nat),
    (ident.shifted old).withIds (next + distance) =
      ((ident.withIds next).1.shifted distance, (ident.withIds next).2 + distance)
  | .mk _ none _ _ _, next => by
    simp only [Ident.withIds, Ident.shifted, Option.map_some, Nat.add_right_comm]
  | .mk _ (some init) _ _ _, next => by
    have inner := Expr.withIds_shifted init (next + 1)
    rw [Nat.add_right_comm] at inner
    simp only [Ident.withIds, Ident.shifted, Option.map_some, inner]

theorem Expr.withIds_shifted : ∀ (expr : Expr) (next : Nat),
    (expr.shifted old).withIds (next + distance) =
      ((expr.withIds next).1.shifted distance, (expr.withIds next).2 + distance)
  | .ident line named, next => by simp only [Expr.withIds, Expr.shifted, Ident.withIds_shifted named]
  | .literal .., _ => rfl
  | .operation line spelling operands none, next => by
    simp only [Expr.withIds, Expr.shifted, Expr.withIdsList_shifted operands]
  | .operation line spelling operands (some result), next => by
    simp only [Expr.withIds, Expr.shifted, Expr.withIdsList_shifted operands, Ident.withIds_shifted result]
  | .field line object name, next => by simp only [Expr.withIds, Expr.shifted, Expr.withIds_shifted object]
  | .dynamicField line object selector, next => by
    simp only [Expr.withIds, Expr.shifted, Expr.withIds_shifted object, Expr.withIds_shifted selector]
  | .index line form target arguments, next => by
    simp only [Expr.withIds, Expr.shifted, Expr.withIds_shifted target, Expr.withIdsList_shifted arguments]
  | .rows line brackets rows, next => by simp only [Expr.withIds, Expr.shifted, Expr.withIdsRows_shifted rows]
  | .lambda line params body, next => by
    simp only [Expr.withIds, Expr.shifted, Ident.withIdsList_shifted params, Expr.withIds_shifted body]

theorem Expr.withIdsList_shifted : ∀ (exprs : List Expr) (next : Nat),
    Expr.withIdsList (Expr.shiftedList old exprs) (next + distance) =
      (Expr.shiftedList distance (Expr.withIdsList exprs next).1, (Expr.withIdsList exprs next).2 + distance)
  | [], _ => rfl
  | expr :: rest, next => by
    simp only [Expr.withIdsList, Expr.shiftedList, Expr.withIds_shifted expr, Expr.withIdsList_shifted rest]

theorem Expr.withIdsRows_shifted : ∀ (rows : List (List Expr)) (next : Nat),
    Expr.withIdsRows (Expr.shiftedRows old rows) (next + distance) =
      (Expr.shiftedRows distance (Expr.withIdsRows rows next).1, (Expr.withIdsRows rows next).2 + distance)
  | [], _ => rfl
  | row :: rest, next => by
    simp only [Expr.withIdsRows, Expr.shiftedRows, Expr.withIdsList_shifted row, Expr.withIdsRows_shifted rest]

theorem Ident.withIdsList_shifted : ∀ (idents : List Ident) (next : Nat),
    Ident.withIdsList (Ident.shiftedList old idents) (next + distance) =
      (Ident.shiftedList distance (Ident.withIdsList idents next).1, (Ident.withIdsList idents next).2 + distance)
  | [], _ => rfl
  | ident :: rest, next => by
    simp only [Ident.withIdsList, Ident.shiftedList, Ident.withIds_shifted ident, Ident.withIdsList_shifted rest]
end

mutual
theorem Stmt.withIds_shifted : ∀ (statement : Stmt) (next : Nat),
    (statement.shifted old).withIds (next + distance) =
      ((statement.withIds next).1.shifted distance, (statement.withIds next).2 + distance)
  | .expression line value, next => by simp only [Stmt.withIds, Stmt.shifted, Expr.withIds_shifted]
  | .assign line targets value, next => by
    simp only [Stmt.withIds, Stmt.shifted, Expr.withIdsList_shifted, Expr.withIds_shifted]
  | .branch line condition thenBody none, next => by
    simp only [Stmt.withIds, Stmt.shifted, Expr.withIds_shifted, Stmt.withIdsList_shifted thenBody]
  | .branch line condition thenBody (some elseBody), next => by
    simp only [Stmt.withIds, Stmt.shifted, Expr.withIds_shifted, Stmt.withIdsList_shifted thenBody,
      Stmt.withIdsList_shifted elseBody]
  | .forEach line loopName columns body, next => by
    simp only [Stmt.withIds, Stmt.shifted, Ident.withIds_shifted, Expr.withIds_shifted,
      Stmt.withIdsList_shifted body]
  | .whileLoop line condition body, next => by
    simp only [Stmt.withIds, Stmt.shifted, Expr.withIds_shifted, Stmt.withIdsList_shifted body]
  | .attempt line body handler none, next => by
    simp only [Stmt.withIds, Stmt.shifted, Stmt.withIdsList_shifted body, Handler.withIds_shifted handler]
  | .attempt line body handler (some finallyBody), next => by
    simp only [Stmt.withIds, Stmt.shifted, Stmt.withIdsList_shifted body, Handler.withIds_shifted handler,
      Stmt.withIdsList_shifted finallyBody]
  | .function line name params body, next => by
    simp only [Stmt.withIds, Stmt.shifted, Ident.withIds_shifted, Ident.withIdsList_shifted,
      Stmt.withIdsList_shifted body]
  | .declare line declaration names, next => by simp only [Stmt.withIds, Stmt.shifted, Ident.withIdsList_shifted]
  | .return _ none, _ | .word .., _ | .comment .., _ => rfl
  | .return line (some value), next => by simp only [Stmt.withIds, Stmt.shifted, Expr.withIds_shifted]

theorem Handler.withIds_shifted : ∀ (handler : Handler) (next : Nat),
    (handler.shifted old).withIds (next + distance) =
      ((handler.withIds next).1.shifted distance, (handler.withIds next).2 + distance)
  | .absent, _ => rfl
  | .present none body, next => by
    simp only [Handler.withIds, Handler.shifted, Ident.withIdsOption, Stmt.withIdsList_shifted body]
  | .present (some name) body, next => by
    simp only [Handler.withIds, Handler.shifted, Ident.withIdsOption, Ident.withIds_shifted,
      Stmt.withIdsList_shifted body]

theorem Stmt.withIdsList_shifted : ∀ (statements : List Stmt) (next : Nat),
    Stmt.withIdsList (Stmt.shiftedList old statements) (next + distance) =
      (Stmt.shiftedList distance (Stmt.withIdsList statements next).1, (Stmt.withIdsList statements next).2 + distance)
  | [], _ => rfl
  | statement :: rest, next => by
    simp only [Stmt.withIdsList, Stmt.shiftedList, Stmt.withIds_shifted statement, Stmt.withIdsList_shifted rest]
end

end

/-! Annotation. -/

theorem Ident.role_shifted (ident : Ident) : (ident.shifted distance).role = ident.role := by
  obtain ⟨name, init, role, reserved, id⟩ := ident
  cases init <;> rfl

theorem Expr.calleeRole?_shifted : ∀ expr : Expr, (expr.shifted distance).calleeRole? = expr.calleeRole?
  | .ident _ named => congrArg some (named.role_shifted distance)
  | .field _ object _ | .dynamicField _ object _ => Expr.calleeRole?_shifted object
  | .operation _ _ _ none | .operation _ _ _ (some _) => rfl
  | .literal .. | .index .. | .rows .. | .lambda .. => rfl

theorem Place.isCall_shifted (place : Place) (target : Expr) :
    place.isCall (target.shifted distance) = place.isCall target := by
  cases place <;> simp [isCall, Expr.calleeRole?_shifted]

theorem IndexForm.decided_shifted (form : IndexForm) (place : Place) (target : Expr) :
    form.decided place (target.shifted distance) = form.decided place target := by
  cases form <;> cases place <;> simp only [decided, Place.isCall_shifted]

/-- What the one table knows of identities that are moved up, the other knows of the identities mentioned. -/
def ScopeTable.Agrees (table other : ScopeTable) (mentions : List Mention) : Prop :=
  ∀ mention ∈ mentions, ∀ id, mention.ident.id = some id → table.roleOf (id + distance) = other.roleOf id

variable {distance} {table other : ScopeTable}

theorem ScopeTable.Agrees.append {first second : List Mention} :
    table.Agrees distance other (first ++ second) ↔
      table.Agrees distance other first ∧ table.Agrees distance other second :=
  List.forall_mem_append

theorem ScopeTable.Agrees.passedBy {mentions : List Mention} :
    table.Agrees distance other (mentions.map Mention.passedBy) ↔ table.Agrees distance other mentions :=
  List.forall_mem_map

theorem ScopeTable.Agrees.params {params : List Ident}
    (agrees : table.Agrees distance other (params.flatMap Ident.paramMentions)) :
    table.Agrees distance other (Ident.mentionsList params) :=
  Ident.all_mentionsList_of_paramMentions (show Mention.All (fun ident =>
    ∀ id, ident.id = some id → table.roleOf (id + distance) = other.roleOf id) _ from agrees)

theorem ScopeTable.roleFor_shifted {id : Option IdentId}
    (agrees : ∀ own, id = some own → table.roleOf (own + distance) = other.roleOf own) (old : Role) :
    table.roleFor (id.map (· + distance)) old = other.roleFor id old := by
  cases id with
  | none => rfl
  | some own => simp only [Option.map_some, roleFor, agrees own rfl]

variable (words : ReservedWords)

mutual
/-- A tree that is moved up is annotated like the tree in its old place. -/
theorem Ident.annotate_shifted : ∀ ident : Ident, table.Agrees distance other ident.mentions →
    (ident.shifted distance).annotate table words =
      ((ident.annotate other words).1.shifted distance, (ident.annotate other words).2)
  | .mk _ none old _ id, agrees => by
    have role : table.roleFor (id.map (· + distance)) old = other.roleFor id old :=
      table.roleFor_shifted (agrees _ (List.mem_singleton_self _)) old
    simp only [Ident.shifted, Ident.annotate, role]
  | .mk _ (some init) old _ id, agrees => by
    obtain ⟨own, inner⟩ := List.forall_mem_cons.mp agrees
    have role : table.roleFor (id.map (· + distance)) old = other.roleFor id old := table.roleFor_shifted own old
    have value := Expr.annotate_shifted init (.value 1) (ScopeTable.Agrees.passedBy.mp inner)
    simp only [Ident.shifted, Ident.annotate, role, value]

theorem Expr.annotate_shifted : ∀ (expr : Expr) (place : Place), table.Agrees distance other expr.mentions →
    (expr.shifted distance).annotate table words place =
      ((expr.annotate other words place).1.shifted distance, (expr.annotate other words place).2)
  | .ident _ named, _, agrees => by
    simp only [Expr.shifted, Expr.annotate, Ident.annotate_shifted named agrees]
  | .literal .., _, _ => rfl
  | .operation _ _ operands none, _, agrees => by
    simp only [Expr.shifted, Expr.annotate, Expr.annotateList_shifted operands (.value 1) agrees]
  | .operation _ _ operands (some result), _, agrees => by
    obtain ⟨inOperands, inResult⟩ := ScopeTable.Agrees.append.mp agrees
    simp only [Expr.shifted, Expr.annotate, Expr.annotateList_shifted operands (.value 1) inOperands,
      Ident.annotate_shifted result inResult]
  | .field _ object _, place, agrees => by
    simp only [Expr.shifted, Expr.annotate, Expr.annotate_shifted object place.inner agrees]
  | .dynamicField _ object selector, place, agrees => by
    obtain ⟨inObject, inSelector⟩ := ScopeTable.Agrees.append.mp agrees
    simp only [Expr.shifted, Expr.annotate, Expr.annotate_shifted object place.inner inObject,
      Expr.annotate_shifted selector (.value 1) inSelector]
  | .index _ form target arguments, place, agrees => by
    obtain ⟨inTarget, inArguments⟩ := ScopeTable.Agrees.append.mp agrees
    simp only [Expr.shifted, Expr.annotate, Expr.annotate_shifted target place.inner inTarget,
      Expr.annotateList_shifted arguments (.value 1) inArguments, IndexForm.decided_shifted]
  | .rows _ _ elements, _, agrees => by
    simp only [Expr.shifted, Expr.annotate, Expr.annotateRows_shifted elements agrees]
  | .lambda _ params body, _, agrees => by
    obtain ⟨inParams, inBody⟩ := ScopeTable.Agrees.append.mp agrees
    simp only [Expr.shifted, Expr.annotate, Ident.annotateList_shifted params inParams,
      Expr.annotate_shifted body (.value 1) inBody]

theorem Expr.annotateList_shifted : ∀ (exprs : List Expr) (place : Place),
    table.Agrees distance other (Expr.mentionsList exprs) →
    Expr.annotateList table words (Expr.shiftedList distance exprs) place =
      (Expr.shiftedList distance (Expr.annotateList other words exprs place).1,
        (Expr.annotateList other words exprs place).2)
  | [], _, _ => rfl
  | expr :: rest, place, agrees => by
    obtain ⟨inFirst, inRest⟩ := ScopeTable.Agrees.append.mp agrees
    simp only [Expr.shiftedList, Expr.annotateList, Expr.annotate_shifted expr place inFirst,
      Expr.annotateList_shifted rest place inRest]

theorem Expr.annotateRows_shifted : ∀ rows : List (List Expr),
    table.Agrees distance other (Expr.mentionsRows rows) →
    Expr.annotateRows table words (Expr.shiftedRows distance rows) =
      (Expr.shiftedRows distance (Expr.annotateRows other words rows).1, (Expr.annotateRows other words rows).2)
  | [], _ => rfl
  | row :: rest, agrees => by
    obtain ⟨inFirst, inRest⟩ := ScopeTable.Agrees.append.mp agrees
    simp only [Expr.shiftedRows, Expr.annotateRows, Expr.annotateList_shifted row (.value 1) inFirst,
      Expr.annotateRows_shifted rest inRest]

theorem Ident.annotateList_shifted : ∀ idents : List Ident,
    table.Agrees distance other (Ident.mentionsList idents) →
    Ident.annotateList table words (Ident.shiftedList distance idents) =
      (Ident.shiftedList distance (Ident.annotateList other words idents).1,
        (Ident.annotateList other words idents).2)
  | [], _ => rfl
  | ident :: rest, agrees => by
    obtain ⟨inFirst, inRest⟩ := ScopeTable.Agrees.append.mp agrees
    simp only [Ident.shiftedList, Ident.annotateList, Ident.annotate_shifted ident inFirst,
      Ident.annotateList_shifted rest inRest]
end

theorem Expr.length_shiftedList (exprs : List Expr) : (Expr.shiftedList distance exprs).length = exprs.length := by
  induction exprs with
  | nil => rfl
  | cons expr rest ih => exact congrArg (· + 1) ih

mutual
theorem Stmt.annotate_shifted : ∀ statement : Stmt, table.Agrees distance other statement.mentions →
    (statement.shifted distance).annotate table words =
      ((statement.annotate other words).1.shifted distance, (statement.annotate other words).2)
  | .expression _ value, agrees => by
    simp only [Stmt.shifted, Stmt.annotate, value.annotate_shifted words (.value 1) agrees]
  | .assign _ targets value, agrees => by
    obtain ⟨inTargets, inValue⟩ := ScopeTable.Agrees.append.mp agrees
    simp only [Stmt.shifted, Stmt.annotate, Expr.length_shiftedList,
      Expr.annotateList_shifted words targets .assigned inTargets, value.annotate_shifted words _ inValue]
  | .branch _ condition thenBody none, agrees => by
    obtain ⟨inCondition, inThen⟩ := ScopeTable.Agrees.append.mp agrees
    simp only [Stmt.shifted, Stmt.annotate, condition.annotate_shifted words (.value 1) inCondition,
      Stmt.annotateList_shifted thenBody inThen]
  | .branch _ condition thenBody (some elseBody), agrees => by
    obtain ⟨before, inElse⟩ := ScopeTable.Agrees.append.mp agrees
    obtain ⟨inCondition, inThen⟩ := ScopeTable.Agrees.append.mp before
    simp only [Stmt.shifted, Stmt.annotate, condition.annotate_shifted words (.value 1) inCondition,
      Stmt.annotateList_shifted thenBody inThen, Stmt.annotateList_shifted elseBody inElse]
  | .forEach _ loopName columns body, agrees => by
    obtain ⟨before, inBody⟩ := ScopeTable.Agrees.append.mp agrees
    obtain ⟨inName, inColumns⟩ := ScopeTable.Agrees.append.mp before
    simp only [Stmt.shifted, Stmt.annotate, loopName.annotate_shifted words inName,
      columns.annotate_shifted words (.value 1) inColumns, Stmt.annotateList_shifted body inBody]
  | .whileLoop _ condition body, agrees => by
    obtain ⟨inCondition, inBody⟩ := ScopeTable.Agrees.append.mp agrees
    simp only [Stmt.shifted, Stmt.annotate, condition.annotate_shifted words (.value 1) inCondition,
      Stmt.annotateList_shifted body inBody]
  | .attempt _ body handler none, agrees => by
    obtain ⟨inBody, inHandler⟩ := ScopeTable.Agrees.append.mp agrees
    simp only [Stmt.shifted, Stmt.annotate, Stmt.annotateList_shifted body inBody,
      Handler.annotate_shifted handler inHandler]
  | .attempt _ body handler (some finallyBody), agrees => by
    obtain ⟨before, inFinally⟩ := ScopeTable.Agrees.append.mp agrees
    obtain ⟨inBody, inHandler⟩ := ScopeTable.Agrees.append.mp before
    simp only [Stmt.shifted, Stmt.annotate, Stmt.annotateList_shifted body inBody,
      Handler.annotate_shifted handler inHandler, Stmt.annotateList_shifted finallyBody inFinally]
  | .function _ name params body, agrees => by
    obtain ⟨before, inBody⟩ := ScopeTable.Agrees.append.mp agrees
    obtain ⟨inName, inParams⟩ := ScopeTable.Agrees.append.mp before
    simp only [Stmt.shifted, Stmt.annotate, name.annotate_shifted words inName,
      Ident.annotateList_shifted words params inParams.params, Stmt.annotateList_shifted body inBody]
  | .declare _ _ names, agrees => by
    simp only [Stmt.shifted, Stmt.annotate, Ident.annotateList_shifted words names agrees]
  | .return _ none, _ | .word .., _ | .comment .., _ => rfl
  | .return _ (some value), agrees => by
    simp only [Stmt.shifted, Stmt.annotate, value.annotate_shifted words (.value 1) agrees]

theorem Handler.annotate_shifted : ∀ handler : Handler, table.Agrees distance other handler.mentions →
    (handler.shifted distance).annotate table words =
      ((handler.annotate other words).1.shifted distance, (handler.annotate other words).2)
  | .absent, _ => rfl
  | .present none body, agrees => by
    simp only [Handler.shifted, Handler.annotate, Ident.annotateOption, Stmt.annotateList_shifted body agrees]
  | .present (some name) body, agrees => by
    obtain ⟨inName, inBody⟩ := ScopeTable.Agrees.append.mp agrees
    simp only [Handler.shifted, Handler.annotate, Ident.annotateOption, name.annotate_shifted words inName,
      Stmt.annotateList_shifted body inBody]

theorem Stmt.annotateList_shifted : ∀ statements : List Stmt,
    table.Agrees distance other (Stmt.mentionsList statements) →
    Stmt.annotateList table words (Stmt.shiftedList distance statements) =
      (Stmt.shiftedList distance (Stmt.annotateList other words statements).1,
        (Stmt.annotateList other words statements).2)
  | [], _ => rfl
  | statement :: rest, agrees => by
    obtain ⟨inFirst, inRest⟩ := ScopeTable.Agrees.append.mp agrees
    simp only [Stmt.shiftedList, Stmt.annotateList, Stmt.annotate_shifted statement inFirst,
      Stmt.annotateList_shifted rest inRest]
end

end
end ArrayLift
