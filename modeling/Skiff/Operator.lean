/-!
# Operators on values

The binary operators that work on two evaluated operands, and the unary ones. Instructions name
a binary operator by its number.
-/

namespace Skiff

inductive Operator where
  | add | sub | mul | quo | rem | and | or | xor | andNot | shl | shr
  | less | greater | lessEq | greaterEq
  deriving DecidableEq, Repr

namespace Operator

def text : Operator → String
  | add => "+"
  | sub => "-"
  | mul => "*"
  | quo => "/"
  | rem => "%"
  | and => "&"
  | or => "|"
  | xor => "^"
  | andNot => "&^"
  | shl => "<<"
  | shr => ">>"
  | less => "<"
  | greater => ">"
  | lessEq => "<="
  | greaterEq => ">="

/-- All operators by number. -/
def all : List Operator :=
  [add, sub, mul, quo, rem, and, or, xor, andNot, shl, shr, less, greater, lessEq, greaterEq]

def number : Operator → Nat
  | add => 0
  | sub => 1
  | mul => 2
  | quo => 3
  | rem => 4
  | and => 5
  | or => 6
  | xor => 7
  | andNot => 8
  | shl => 9
  | shr => 10
  | less => 11
  | greater => 12
  | lessEq => 13
  | greaterEq => 14

def ofNumber? (number : Nat) : Option Operator := all[number]?

end Operator

/-- Operators before one operand. -/
inductive UnaryOp where
  | negate | plus | not | complement
  deriving DecidableEq, Repr

def UnaryOp.text : UnaryOp → String
  | negate => "-"
  | plus => "+"
  | not => "!"
  | complement => "^"

end Skiff
