import ArrayLift.Proofs.Rendering.Assembly

/-! Renaming of identifiers and fields throughout a tree. It keeps the kinds of expressions and statements. -/
namespace ArrayLift

/-- What becomes of the names of identifiers and of the names of fields. -/
structure Renaming where
  name : String → String
  field : String → String

variable (rename : Renaming)

mutual
/-- The identifier under its new name, its default value included. -/
def Ident.renamed : Ident → Ident
  | .mk name none role reserved id => .mk (rename.name name) none role reserved id
  | .mk name (some init) role reserved id => .mk (rename.name name) (some (Expr.renamed init)) role reserved id

def Expr.renamed : Expr → Expr
  | .ident line named => .ident line (Ident.renamed named)
  | .literal line value => .literal line value
  | .operation line spelling operands none => .operation line spelling (Expr.renamedList operands) none
  | .operation line spelling operands (some result) =>
    .operation line spelling (Expr.renamedList operands) (some (Ident.renamed result))
  | .field line object name => .field line (Expr.renamed object) (rename.field name)
  | .dynamicField line object selector => .dynamicField line (Expr.renamed object) (Expr.renamed selector)
  | .index line form target arguments => .index line form (Expr.renamed target) (Expr.renamedList arguments)
  | .rows line brackets rows => .rows line brackets (Expr.renamedRows rows)
  | .lambda line params body => .lambda line (Ident.renamedList params) (Expr.renamed body)

def Expr.renamedList : List Expr → List Expr
  | [] => []
  | expr :: rest => Expr.renamed expr :: Expr.renamedList rest

def Expr.renamedRows : List (List Expr) → List (List Expr)
  | [] => []
  | row :: rest => Expr.renamedList row :: Expr.renamedRows rest

def Ident.renamedList : List Ident → List Ident
  | [] => []
  | ident :: rest => Ident.renamed ident :: Ident.renamedList rest
end

mutual
def Stmt.renamed : Stmt → Stmt
  | .expression line value => .expression line (value.renamed rename)
  | .assign line targets value => .assign line (Expr.renamedList rename targets) (value.renamed rename)
  | .branch line condition thenBody none =>
    .branch line (condition.renamed rename) (Stmt.renamedList thenBody) none
  | .branch line condition thenBody (some elseBody) =>
    .branch line (condition.renamed rename) (Stmt.renamedList thenBody) (some (Stmt.renamedList elseBody))
  | .forEach line loopName columns body =>
    .forEach line (loopName.renamed rename) (columns.renamed rename) (Stmt.renamedList body)
  | .whileLoop line condition body => .whileLoop line (condition.renamed rename) (Stmt.renamedList body)
  | .attempt line body handler none => .attempt line (Stmt.renamedList body) (Handler.renamed handler) none
  | .attempt line body handler (some finallyBody) =>
    .attempt line (Stmt.renamedList body) (Handler.renamed handler) (some (Stmt.renamedList finallyBody))
  | .function line name params body =>
    .function line (name.renamed rename) (Ident.renamedList rename params) (Stmt.renamedList body)
  | .declare line declaration names => .declare line declaration (Ident.renamedList rename names)
  | .return line none => .return line none
  | .return line (some value) => .return line (some (value.renamed rename))
  | .word line word => .word line word
  | .comment line text => .comment line text

def Handler.renamed : Handler → Handler
  | .absent => .absent
  | .present none body => .present none (Stmt.renamedList body)
  | .present (some name) body => .present (some (name.renamed rename)) (Stmt.renamedList body)

def Stmt.renamedList : List Stmt → List Stmt
  | [] => []
  | statement :: rest => Stmt.renamed statement :: Stmt.renamedList rest
end

/-- The program with new names for its identifiers and fields. -/
def Program.renamed (program : Program) : Program :=
  ⟨Stmt.renamedList rename program.statements⟩

theorem Expr.renamedList_eq_map (exprs : List Expr) :
    Expr.renamedList rename exprs = exprs.map (Expr.renamed rename) := by
  induction exprs with
  | nil => rfl
  | cons expr rest ih => exact congrArg (Expr.renamed rename expr :: ·) ih

theorem Expr.renamedRows_eq_map (rows : List (List Expr)) :
    Expr.renamedRows rename rows = rows.map (List.map (Expr.renamed rename)) := by
  induction rows with
  | nil => rfl
  | cons row rest ih => exact congrArg₂ List.cons (Expr.renamedList_eq_map rename row) ih

theorem Expr.isTextLiteral_renamed (expr : Expr) : (expr.renamed rename).isTextLiteral = expr.isTextLiteral := by
  match expr with
  | .operation _ _ _ none | .operation _ _ _ (some _) => rfl
  | .ident .. | .literal .. | .field .. | .dynamicField .. | .index .. | .rows .. | .lambda .. => rfl

theorem Code.isAtomic_renamed (expr : Expr) : isAtomic (expr.renamed rename) = isAtomic expr := by
  match expr with
  | .operation _ spelling operands result =>
    have empty : (operands.map (Expr.renamed rename)).isEmpty = operands.isEmpty := List.isEmpty_map
    cases result <;> simp only [Expr.renamed, isAtomic, Expr.renamedList_eq_map, empty]
  | .rows _ .matrix rows =>
    simp only [Expr.renamed, isAtomic, Expr.renamedRows_eq_map, List.any_map, Function.comp_def,
      Expr.isTextLiteral_renamed]
  | .rows _ .cell _ | .ident .. | .literal .. | .field .. | .dynamicField .. | .index .. | .lambda .. => rfl

theorem Code.literal?_renamed (expr : Expr) : literal? (expr.renamed rename) = literal? expr := by
  match expr with
  | .operation _ _ _ none | .operation _ _ _ (some _) => rfl
  | .ident .. | .literal .. | .field .. | .dynamicField .. | .index .. | .rows .. | .lambda .. => rfl

theorem Expr.isSome_ident?_renamed (expr : Expr) : (expr.renamed rename).ident?.isSome = expr.ident?.isSome := by
  match expr with
  | .operation _ _ _ none | .operation _ _ _ (some _) => rfl
  | .ident .. | .literal .. | .field .. | .dynamicField .. | .index .. | .rows .. | .lambda .. => rfl

theorem Ident.name_renamed (ident : Ident) : (ident.renamed rename).name = rename.name ident.name := by
  obtain ⟨_, init, _, _, _⟩ := ident
  cases init <;> rfl

theorem Stmt.isNoop_renamed (statement : Stmt) : (statement.renamed rename).isNoop = statement.isNoop := by
  match statement with
  | .branch _ _ _ none | .branch _ _ _ (some _) | .attempt _ _ _ none | .attempt _ _ _ (some _) | .return _ none
  | .return _ (some _) | .expression .. | .assign .. | .forEach .. | .whileLoop .. | .function .. | .declare ..
  | .word .. | .comment .. => rfl

theorem Stmt.all_isNoop_renamed (statements : List Stmt) :
    (Stmt.renamedList rename statements).all isNoop = statements.all isNoop := by
  induction statements with
  | nil => rfl
  | cons statement rest ih => simp only [Stmt.renamedList, List.all_cons, Stmt.isNoop_renamed, ih]

theorem Stmt.isFunction_renamed (statement : Stmt) : (statement.renamed rename).isFunction = statement.isFunction := by
  match statement with
  | .branch _ _ _ none | .branch _ _ _ (some _) | .attempt _ _ _ none | .attempt _ _ _ (some _) | .return _ none
  | .return _ (some _) | .expression .. | .assign .. | .forEach .. | .whileLoop .. | .function .. | .declare ..
  | .word .. | .comment .. => rfl

theorem Stmt.isFlatFunction_renamed (statement : Stmt) :
    (statement.renamed rename).isFlatFunction = statement.isFlatFunction := by
  match statement with
  | .function _ _ _ [] | .function _ _ _ (_ :: _) => rfl
  | .branch _ _ _ none | .branch _ _ _ (some _) | .attempt _ _ _ none | .attempt _ _ _ (some _) | .return _ none
  | .return _ (some _) | .expression .. | .assign .. | .forEach .. | .whileLoop .. | .declare .. | .word ..
  | .comment .. => rfl

theorem Code.isBranch_renamed (statement : Stmt) : isBranch (statement.renamed rename) = isBranch statement := by
  match statement with
  | .branch _ _ _ none | .branch _ _ _ (some _) | .attempt _ _ _ none | .attempt _ _ _ (some _) | .return _ none
  | .return _ (some _) | .expression .. | .assign .. | .forEach .. | .whileLoop .. | .function .. | .declare ..
  | .word .. | .comment .. => rfl

namespace Code

/-- The expression of the operand renamed, with the text as it was. -/
def Operand.renamed (operand : Operand) : Operand :=
  ⟨operand.expr.renamed rename, operand.text⟩

theorem Operand.kept_renamed : Operand.Kept (Operand.renamed rename) where
  text _ := rfl
  atomic operand := isAtomic_renamed rename operand.expr
  literal operand := literal?_renamed rename operand.expr

end Code
end ArrayLift
