import Skiff.Operator
import Skiff.Token.Kind

/-!
# Operators in expressions

The operators that stand between, before or behind operands, how tightly they bind, and the
tokens that denote them.
-/

namespace Skiff

/-- How tightly an operator binds, the loosest first. -/
inductive Level where
  | lowest | ternary | either | both | comparison | term | factor | unary | access
  deriving DecidableEq, Repr

namespace Level

def toNat : Level → Nat
  | lowest => 0
  | ternary => 1
  | either => 2
  | both => 3
  | comparison => 4
  | term => 5
  | factor => 6
  | unary => 7
  | access => 8

/-- The next tighter level; nothing is tighter than `access`. -/
def next : Level → Level
  | lowest => ternary
  | ternary => either
  | either => both
  | both => comparison
  | comparison => term
  | term => factor
  | factor => unary
  | unary | access => access

/-- Only conditional expressions group from the right. -/
def groupsRight : Level → Bool
  | ternary => true
  | _ => false

/-- The loosest level that the operand to the right of an operator of this level may have. -/
def ofRightOperand (level : Level) : Level := if level.groupsRight then level else level.next

end Level

/-- Operators between two operands. `both` and `either` evaluate the right operand only if the
left one does not decide. -/
inductive BinaryOp where
  | strict (op : Operator)
  | equal
  | notEqual
  | both
  | either
  deriving DecidableEq, Repr

namespace BinaryOp

def text : BinaryOp → String
  | strict op => op.text
  | equal => "=="
  | notEqual => "!="
  | both => "&&"
  | either => "||"

def level : BinaryOp → Level
  | either => .either
  | both => .both
  | equal | notEqual => .comparison
  | strict op =>
    match op with
    | .less | .greater | .lessEq | .greaterEq => .comparison
    | .add | .sub | .or | .xor => .term
    | .mul | .quo | .rem | .shl | .shr | .and | .andNot => .factor

end BinaryOp

/-- The forms of assignment: to an existing variable, to a new one, or through an operator. -/
inductive AssignOp where
  | assign
  | define
  | update (op : Operator)
  deriving DecidableEq, Repr

def AssignOp.text : AssignOp → String
  | assign => "="
  | define => ":="
  | update op => op.text ++ "="

/-- What may follow a complete operand and continue the expression. -/
inductive Continuation where
  | binary (op : BinaryOp)
  | question
  | call
  | index
  | select
  deriving DecidableEq, Repr

def Continuation.level : Continuation → Level
  | binary op => op.level
  | question => .ternary
  | call | index | select => .access

namespace Mark

def binary? : Mark → Option BinaryOp
  | add => some (.strict .add)
  | sub => some (.strict .sub)
  | mul => some (.strict .mul)
  | quo => some (.strict .quo)
  | rem => some (.strict .rem)
  | and => some (.strict .and)
  | or => some (.strict .or)
  | xor => some (.strict .xor)
  | andNot => some (.strict .andNot)
  | shl => some (.strict .shl)
  | shr => some (.strict .shr)
  | less => some (.strict .less)
  | greater => some (.strict .greater)
  | lessEq => some (.strict .lessEq)
  | greaterEq => some (.strict .greaterEq)
  | equal => some .equal
  | notEqual => some .notEqual
  | logicalAnd => some .both
  | logicalOr => some .either
  | _ => none

def continuation? (mark : Mark) : Option Continuation :=
  match mark with
  | question => some .question
  | leftParen => some .call
  | leftBracket => some .index
  | period => some .select
  | _ => mark.binary?.map .binary

def unary? : Mark → Option UnaryOp
  | sub => some .negate
  | add => some .plus
  | not => some .not
  | xor => some .complement
  | _ => none

def assignment? : Mark → Option AssignOp
  | assign => some .assign
  | define => some .define
  | addAssign => some (.update .add)
  | subAssign => some (.update .sub)
  | mulAssign => some (.update .mul)
  | quoAssign => some (.update .quo)
  | remAssign => some (.update .rem)
  | andAssign => some (.update .and)
  | orAssign => some (.update .or)
  | xorAssign => some (.update .xor)
  | andNotAssign => some (.update .andNot)
  | shlAssign => some (.update .shl)
  | shrAssign => some (.update .shr)
  | _ => none

end Mark

namespace Kind

def continuation? : Kind → Option Continuation
  | mark sign => sign.continuation?
  | _ => none

def unary? : Kind → Option UnaryOp
  | mark sign => sign.unary?
  | _ => none

def assignment? : Kind → Option AssignOp
  | mark sign => sign.assignment?
  | _ => none

end Kind

end Skiff
