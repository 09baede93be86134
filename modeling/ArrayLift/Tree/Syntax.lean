import ArrayLift.Numeral.Number

/-! The syntax tree of a program. Indexing and calling are one form of expression, told apart by a
tag, because the source language spells both alike. -/
namespace ArrayLift

/-- A line of the source text, counted from one. -/
abbrev SourceLine := UInt32

/-- The number that resolution gives to one occurrence of an identifier. -/
abbrev IdentId := Nat

/-- What an occurrence of an identifier denotes. -/
inductive Role where
  | unknown
  | variable
  | function
  deriving DecidableEq, Repr

/-- How an indexed expression is to be read. -/
inductive IndexForm where
  /-- Parentheses that may index or call. -/
  | apply
  | arrayRef
  /-- Braces, which always index. -/
  | cellRef
  /-- A call and the number of results that its context asks for. -/
  | call (results : Nat)
  deriving DecidableEq, Repr

/-- The brackets around rows of elements. -/
inductive Brackets where
  | matrix
  | cell
  deriving DecidableEq, Repr

inductive Literal where
  | number (value : Number)
  | text (value : String)
  | logical (value : Bool)
  deriving DecidableEq

mutual
/-- One occurrence of an identifier: its name, the default value of a formal parameter, and the
annotations that resolution leaves on it. -/
inductive Ident where
  | mk (name : String) (init : Option Expr) (role : Role) (reserved : Bool) (id : Option IdentId)

inductive Expr where
  | ident (line : SourceLine) (ident : Ident)
  | literal (line : SourceLine) (value : Literal)
  /-- An operator by its source spelling; a name is bound to the result if one is given. -/
  | operation (line : SourceLine) (spelling : String) (operands : List Expr) (result : Option Ident)
  | field (line : SourceLine) (object : Expr) (name : String)
  /-- A field whose name is computed. -/
  | dynamicField (line : SourceLine) (object selector : Expr)
  | index (line : SourceLine) (form : IndexForm) (target : Expr) (arguments : List Expr)
  | rows (line : SourceLine) (brackets : Brackets) (rows : List (List Expr))
  | lambda (line : SourceLine) (params : List Ident) (body : Expr)
end

/-- The two kinds of declaration of names. -/
inductive Declaration where
  | global
  | persistent
  deriving DecidableEq, Repr

/-- The statements that consist of one word, and the statement of none. -/
inductive Word where
  | break
  | continue
  | pass
  | nothing
  deriving DecidableEq, Repr

mutual
inductive Stmt where
  | expression (line : SourceLine) (value : Expr)
  | assign (line : SourceLine) (targets : List Expr) (value : Expr)
  /-- A condition with its two branches; a further condition is a single branch inside the second. -/
  | branch (line : SourceLine) (condition : Expr) (thenBody : List Stmt) (elseBody : Option (List Stmt))
  /-- A loop over the columns of an array. -/
  | forEach (line : SourceLine) (loopName : Ident) (columns : Expr) (body : List Stmt)
  | whileLoop (line : SourceLine) (condition : Expr) (body : List Stmt)
  | attempt (line : SourceLine) (body : List Stmt) (handler : Handler) (finallyBody : Option (List Stmt))
  /-- A function. With an empty body it owns the statements that follow it in its list, up to the
  next function. -/
  | function (line : SourceLine) (name : Ident) (params : List Ident) (body : List Stmt)
  | declare (line : SourceLine) (declaration : Declaration) (names : List Ident)
  | return (line : SourceLine) (value : Option Expr)
  | word (line : SourceLine) (word : Word)
  /-- A comment with its marker. -/
  | comment (line : SourceLine) (text : String)

/-- What an attempt does with an error. -/
inductive Handler where
  | absent
  | present (name : Option Ident) (body : List Stmt)
end

/-- A program is a list of statements, functions among them. -/
structure Program where
  statements : List Stmt

namespace Ident

def name : Ident → String
  | .mk name .. => name

def init : Ident → Option Expr
  | .mk _ init .. => init

def role : Ident → Role
  | .mk _ _ role .. => role

def reserved : Ident → Bool
  | .mk _ _ _ reserved _ => reserved

def id : Ident → Option IdentId
  | .mk _ _ _ _ id => id

/-- An occurrence of a name without annotations. -/
def named (name : String) : Ident :=
  .mk name none .unknown false none

def withInit (ident : Ident) (init : Expr) : Ident :=
  .mk ident.name (some init) ident.role ident.reserved ident.id

end Ident

namespace Expr

def line : Expr → SourceLine
  | .ident line _ => line
  | .literal line _ => line
  | .operation line .. => line
  | .field line .. => line
  | .dynamicField line .. => line
  | .index line .. => line
  | .rows line .. => line
  | .lambda line .. => line

def ident? : Expr → Option Ident
  | .ident _ named => some named
  | _ => none

def isTextLiteral : Expr → Bool
  | .literal _ (.text _) => true
  | _ => false

def isIndexed : Expr → Bool
  | .index .. => true
  | _ => false

/-- The identifier that a chain of fields and indices starts from. -/
def root? : Expr → Option Ident
  | .ident _ named => some named
  | .field _ object _ => root? object
  | .dynamicField _ object _ => root? object
  | .index _ _ target _ => root? target
  | _ => none

/-- A name as an expression. -/
def named (name : String) (line : SourceLine) : Expr :=
  .ident line (Ident.named name)

def text (value : String) (line : SourceLine) : Expr :=
  .literal line (.text value)

def ofSpelling (spelling : String) (operands : List Expr) (line : SourceLine) : Expr :=
  .operation line spelling operands none

/-- An operation on two operands stands on the line of the first. -/
def binary (spelling : String) (left right : Expr) : Expr :=
  ofSpelling spelling [left, right] left.line

/-- Parentheses behind an expression stand on its line. -/
def applied (target : Expr) (arguments : List Expr) : Expr :=
  .index target.line .apply target arguments

def cellOf (target : Expr) (arguments : List Expr) : Expr :=
  .index target.line .cellRef target arguments

def fieldOf (object : Expr) (name : String) : Expr :=
  .field object.line object name

def matrix (rows : List (List Expr)) (line : SourceLine) : Expr :=
  .rows line .matrix rows

end Expr

namespace Stmt

def line : Stmt → SourceLine
  | .expression line _ => line
  | .assign line .. => line
  | .branch line .. => line
  | .forEach line .. => line
  | .whileLoop line .. => line
  | .attempt line .. => line
  | .function line .. => line
  | .declare line .. => line
  | .return line _ => line
  | .word line _ => line
  | .comment line _ => line

/-- Comments and empty statements do nothing. -/
def isNoop : Stmt → Bool
  | .comment .. => true
  | .word _ .nothing => true
  | _ => false

def isFunction : Stmt → Bool
  | .function .. => true
  | _ => false

/-- A function whose body is the statements that follow it. -/
def isFlatFunction : Stmt → Bool
  | .function _ _ _ body => body.isEmpty
  | _ => false

/-- An expression as a statement stands on the line of the expression. -/
def ofExpr (value : Expr) : Stmt :=
  .expression value.line value

/-- An assignment to one target stands on the line of the target. -/
def assignOne (target value : Expr) : Stmt :=
  .assign target.line [target] value

/-- An assignment to several targets stands on the line of the value. -/
def assignMany (targets : List Expr) (value : Expr) : Stmt :=
  .assign value.line targets value

def functionOf (name : String) (params : List String) (body : List Stmt) (line : SourceLine) : Stmt :=
  .function line (Ident.named name) (params.map Ident.named) body

end Stmt
end ArrayLift
