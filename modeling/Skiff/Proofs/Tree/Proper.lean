import Skiff.Proofs.Tree.Print

/-!
# Proper trees

The trees that reading can build. An operand binds at least as tightly as its place asks for, dots
and named arguments stand where a call allows them, and no statement starts with the brace of a map,
which would be read as a block.
-/

namespace Skiff

namespace Level

theorem toNat_le_access (level : Level) : level.toNat ≤ Level.access.toNat := by
  cases level <;> decide

end Level

namespace BinaryOp

theorem level_bounds (op : BinaryOp) :
    Level.ternary.toNat < op.level.toNat ∧ op.level.toNat < Level.unary.toNat := by
  cases op with
  | strict op => cases op <;> decide
  | _ => decide

theorem toNat_ofRightOperand (op : BinaryOp) :
    op.level.ofRightOperand.toNat = op.level.toNat + 1 := by
  cases op with
  | strict op => cases op <;> rfl
  | _ => rfl

end BinaryOp

namespace Expr

/-- How tightly the outermost operator of an expression binds. -/
def level : Expr → Level
  | .unary .. => .unary
  | .binary _ op _ _ => op.level
  | .cond .. => .ternary
  | _ => .access

/-- The tightest level at which an expression can be continued as a whole: what binds tighter goes
with its last operand. -/
def limit : Expr → Nat
  | .unary .. => Level.factor.toNat
  | .binary _ op _ _ => op.level.toNat
  | .cond .. => Level.lowest.toNat
  | _ => Level.access.toNat

theorem limit_le_level (expr : Expr) : expr.limit ≤ expr.level.toNat := by
  cases expr <;> simp [limit, level, Level.toNat]

theorem level_le_limit (expr : Expr) : expr.level.toNat ≤ expr.limit + 1 := by
  cases expr <;> simp [limit, level, Level.toNat]

/-- An expression that starts with the brace of a map. -/
def braced : Expr → Bool
  | .map .. => true
  | .binary _ _ left _ => left.braced
  | .cond _ test _ _ => test.braced
  | .call _ callee _ => callee.braced
  | .index _ object _ => object.braced
  | .select _ object _ => object.braced
  | .slice _ object _ _ => object.braced
  | _ => false

end Expr

def Entry.value : Entry → Expr
  | .mk _ _ value => value

def NamedArg.value : NamedArg → Expr
  | .mk _ value => value

namespace Stmt

/-- A simple statement that starts with the brace of a map. -/
def braced : Stmt → Bool
  | .expr _ value => value.braced
  | .assign _ _ target _ => target.braced
  | .count _ _ target => target.braced
  | _ => false

/-- What may stand behind `else`. -/
def isAlternative : Stmt → Bool
  | .block _ | .cond .. => true
  | _ => false

end Stmt

mutual

/-- An expression that reading can build. -/
inductive Expr.Proper : Expr → Prop
  | literal {span : Span} {value : Literal} (token : Token) :
    (Piece.literal value).Spells token → Expr.Proper (.literal span value)
  | name {span : Span} {name : String} : Expr.Proper (.name span name)
  | array {span : Span} {items : List Expr} :
    (∀ item ∈ items, item.Proper) → Expr.Proper (.array span items)
  | map {span : Span} {entries : List Entry} :
    (∀ entry ∈ entries, entry.value.Proper) → Expr.Proper (.map span entries)
  | func {span : Span} {params : List Ident} {variadic : Bool} {body : Block} :
    (variadic = true → params ≠ []) → (∀ stmt ∈ body.stmts, stmt.Proper) →
    Expr.Proper (.func span params variadic body)
  | unary {span : Span} {op : UnaryOp} {operand : Expr} :
    Level.unary.toNat ≤ operand.level.toNat → operand.Proper → Expr.Proper (.unary span op operand)
  | binary {span : Span} {op : BinaryOp} {left right : Expr} :
    op.level.toNat ≤ left.limit → op.level.ofRightOperand.toNat ≤ right.level.toNat →
    left.Proper → right.Proper → Expr.Proper (.binary span op left right)
  | cond {span : Span} {test yes no : Expr} :
    Level.ternary.toNat ≤ test.limit → Level.ternary.toNat ≤ no.level.toNat →
    test.Proper → yes.Proper → no.Proper → Expr.Proper (.cond span test yes no)
  | call {span : Span} {callee : Expr} {positional : List Expr} {spread : Bool}
      {named : List NamedArg} {namedSpread : Option Expr} :
    Level.access.toNat ≤ callee.limit → callee.Proper → (∀ arg ∈ positional, arg.Proper) →
    (∀ arg ∈ named, arg.value.Proper) → (∀ arg ∈ namedSpread, arg.Proper) →
    (spread = true → positional ≠ []) →
    (namedSpread.isSome = true → spread = true ∨ named ≠ []) →
    Expr.Proper (.call span callee (.mk positional spread named namedSpread))
  | index {span : Span} {object index : Expr} :
    Level.access.toNat ≤ object.limit → object.Proper → index.Proper →
    Expr.Proper (.index span object index)
  | select {span : Span} {object : Expr} {field : Ident} :
    Level.access.toNat ≤ object.limit → object.Proper → Expr.Proper (.select span object field)
  | slice {span : Span} {object : Expr} {low high : Option Expr} :
    Level.access.toNat ≤ object.limit → object.Proper → (∀ bound ∈ low, bound.Proper) →
    (∀ bound ∈ high, bound.Proper) → Expr.Proper (.slice span object low high)
  | paren {span : Span} {inner : Expr} : inner.Proper → Expr.Proper (.paren span inner)
  | error {span : Span} {inner : Expr} : inner.Proper → Expr.Proper (.error span inner)
  | immutable {span : Span} {inner : Expr} : inner.Proper → Expr.Proper (.immutable span inner)
  | importModule {span : Span} {name : String} (token : Token) :
    (Piece.quoted name).Spells token → Expr.Proper (.importModule span name)

/-- A simple statement that reading can build: an expression, an assignment or a count. -/
inductive Stmt.Simple : Stmt → Prop
  | expr {span : Span} {value : Expr} : value.Proper → Stmt.Simple (.expr span value)
  | assign {span : Span} {op : AssignOp} {mark : Mark} {target value : Expr} :
    op.mark? = some mark → target.Proper → value.Proper →
    Stmt.Simple (.assign span op target value)
  | count {span : Span} {up : Bool} {target : Expr} :
    target.Proper → Stmt.Simple (.count span up target)

/-- A statement that reading can build. -/
inductive Stmt.Proper : Stmt → Prop
  | simple {stmt : Stmt} : stmt.Simple → stmt.braced = false → stmt.Proper
  | block {body : Block} : (∀ stmt ∈ body.stmts, stmt.Proper) → Stmt.Proper (.block body)
  | cond {span : Span} {init : Option Stmt} {test : Expr} {yes : Block} {no : Option Stmt} :
    (∀ stmt ∈ init, stmt.Simple) → test.Proper → (∀ stmt ∈ yes.stmts, stmt.Proper) →
    (∀ stmt ∈ no, stmt.Proper) → (∀ stmt ∈ no, stmt.isAlternative = true) →
    Stmt.Proper (.cond span init test yes no)
  | loop {span : Span} {init : Option Stmt} {test : Option Expr} {post : Option Stmt}
      {body : Block} :
    (∀ stmt ∈ init, stmt.Simple) → (∀ stmt ∈ init, stmt.braced = false) →
    (∀ value ∈ test, value.Proper) →
    (∀ stmt ∈ post, stmt.Simple) → (∀ stmt ∈ post, stmt.braced = false) →
    (∀ stmt ∈ body.stmts, stmt.Proper) → Stmt.Proper (.loop span init test post body)
  | forEach {span : Span} {key value : Ident} {iterable : Expr} {body : Block} :
    iterable.Proper → (∀ stmt ∈ body.stmts, stmt.Proper) →
    Stmt.Proper (.forEach span key value iterable body)
  | result {span : Span} {value : Option Expr} :
    (∀ expr ∈ value, expr.Proper) → Stmt.Proper (.result span value)
  | publish {span : Span} {value : Expr} : value.Proper → Stmt.Proper (.publish span value)
  | leave {span : Span} : Stmt.Proper (.leave span)
  | next {span : Span} : Stmt.Proper (.next span)
  | empty {span : Span} : Stmt.Proper (.empty span)

end

/-- A block of proper statements. -/
def Block.Proper (body : Block) : Prop := ∀ stmt ∈ body.stmts, stmt.Proper

/-! ## Where expressions end -/

namespace Token

/-- The expression before a token ends there if only what binds at `bound` or tighter continues it:
the token continues no expression, binds more loosely, or stands on a new line. -/
def Ends (token : Token) (bound : Nat) : Prop :=
  ∀ continuation, token.kind.continuation? = some continuation → token.newlineBefore = false →
    continuation.level.toNat < bound

variable {token : Token} {bound : Nat}

theorem Ends.mono {bound' : Nat} (ends : token.Ends bound)
    (le : bound ≤ bound') : token.Ends bound' := by
  intro continuation continues inline
  exact Nat.lt_of_lt_of_le (ends continuation continues inline) le

theorem ends_of_none (none : token.kind.continuation? = none) :
    token.Ends bound := by
  intro continuation continues
  rw [none] at continues
  cases continues

theorem ends_of_some {continuation : Continuation}
    (continues : token.kind.continuation? = some continuation)
    (loose : continuation.level.toNat < bound) : token.Ends bound := by
  intro other others _
  cases continues.symm.trans others
  exact loose

end Token

end Skiff
