import Skiff.Source.Span
import Skiff.Token.Literal
import Skiff.Tree.Operators

/-!
# Syntax trees

Expressions, statements and blocks, each with the span of the source text it was read from.
-/

namespace Skiff

/-- An identifier and where it stands. -/
structure Ident where
  name : String
  span : Span
  deriving DecidableEq, Repr, Inhabited

/-- The name that binds nothing. -/
def Ident.isBlank (ident : Ident) : Bool := ident.name == "_"

mutual

inductive Expr where
  | literal (span : Span) (value : Literal)
  | name (span : Span) (name : String)
  | array (span : Span) (items : List Expr)
  | map (span : Span) (entries : List Entry)
  | func (span : Span) (params : List Ident) (variadic : Bool) (body : Block)
  | unary (span : Span) (op : UnaryOp) (operand : Expr)
  | binary (span : Span) (op : BinaryOp) (left right : Expr)
  | cond (span : Span) (test yes no : Expr)
  | call (span : Span) (callee : Expr) (args : Args)
  | index (span : Span) (object index : Expr)
  | select (span : Span) (object : Expr) (field : Ident)
  | slice (span : Span) (object : Expr) (low high : Option Expr)
  | paren (span : Span) (inner : Expr)
  | error (span : Span) (inner : Expr)
  | immutable (span : Span) (inner : Expr)
  | importModule (span : Span) (name : String)

/-- An entry of a map expression. -/
inductive Entry where
  | mk (key : String) (keySpan : Span) (value : Expr)

/-- An argument that is passed by name. -/
inductive NamedArg where
  | mk (name : Ident) (value : Expr)

/-- The arguments of a call in the order in which they may stand: positional ones, of which the
last may be spread, named ones, and a map of further named ones. -/
inductive Args where
  | mk (positional : List Expr) (spread : Bool) (named : List NamedArg) (namedSpread : Option Expr)

/-- Statements between braces. -/
inductive Block where
  | mk (span : Span) (stmts : List Stmt)

inductive Stmt where
  | expr (span : Span) (value : Expr)
  | assign (span : Span) (op : AssignOp) (target value : Expr)
  /-- The target goes up or down by one. -/
  | count (span : Span) (up : Bool) (target : Expr)
  | block (body : Block)
  /-- The last part is a block or another conditional statement. -/
  | cond (span : Span) (init : Option Stmt) (test : Expr) (yes : Block) (no : Option Stmt)
  | loop (span : Span) (init : Option Stmt) (test : Option Expr) (post : Option Stmt)
    (body : Block)
  | forEach (span : Span) (key value : Ident) (iterable : Expr) (body : Block)
  | result (span : Span) (value : Option Expr)
  | publish (span : Span) (value : Expr)
  | leave (span : Span)
  | next (span : Span)
  | empty (span : Span)

end

instance : Inhabited Expr := ⟨.literal {} .undefined⟩
instance : Inhabited Stmt := ⟨.empty {}⟩
instance : Inhabited Block := ⟨.mk {} []⟩

def Expr.span : Expr → Span
  | literal span _ | name span _ | array span _ | map span _ | func span _ _ _ | unary span _ _
  | binary span _ _ _ | cond span _ _ _ | call span _ _ | index span _ _ | select span _ _
  | slice span _ _ _ | paren span _ | error span _ | immutable span _ | importModule span _ => span

def Block.span : Block → Span
  | mk span _ => span

def Block.stmts : Block → List Stmt
  | mk _ stmts => stmts

def Stmt.span : Stmt → Span
  | expr span _ | assign span _ _ _ | count span _ _ | cond span _ _ _ _ | loop span _ _ _ _
  | forEach span _ _ _ _ | result span _ | publish span _ | leave span | next span
  | empty span => span
  | block body => body.span

/-- A whole source file. -/
structure Script where
  stmts : List Stmt
  span : Span
  deriving Inhabited

end Skiff
