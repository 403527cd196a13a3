import Skiff.Token.Literal
import Skiff.Value.Error
import Skiff.Value.Text

/-!
# Operators on values

Integers wrap around at 64 bits; division and remainder go towards zero. Mixed integers and
doubles are computed as doubles. Strings take any right operand of `+` by its text, arrays and
bytes are joined, characters and times are moved by integers.
-/

namespace Skiff

/-- The comparison that an operator makes, given which of two operands is less. -/
def Operator.compare? (op : Operator) (less lessEq greater greaterEq : Bool) : Option Value :=
  match op with
  | .less => some (.bool less)
  | .lessEq => some (.bool lessEq)
  | .greater => some (.bool greater)
  | .greaterEq => some (.bool greaterEq)
  | _ => none

/-- Compares integers, codes of characters or instants. -/
def Operator.compareInt? (op : Operator) (a b : Int) : Option Value :=
  op.compare? (a < b) (a ≤ b) (b < a) (b ≤ a)

namespace Value

/-- Operators on integers: `none` for those that integers do not have. -/
def intOperator (op : Operator) (a b : Int64) : Except RuntimeError (Option Value) :=
  match op with
  | .add => .ok (some (.int (a + b)))
  | .sub => .ok (some (.int (a - b)))
  | .mul => .ok (some (.int (a * b)))
  | .quo => if b = 0 then .error .divisionByZero else .ok (some (.int (a / b)))
  | .rem => if b = 0 then .error .divisionByZero else .ok (some (.int (a % b)))
  | .and => .ok (some (.int (a &&& b)))
  | .or => .ok (some (.int (a ||| b)))
  | .xor => .ok (some (.int (a ^^^ b)))
  | .andNot => .ok (some (.int (a &&& ~~~b)))
  | .shl =>
    if b < 0 then .error (.negativeShift b)
    else .ok (some (.int (if 64 ≤ b then 0 else a <<< b)))
  | .shr =>
    if b < 0 then .error (.negativeShift b)
    else .ok (some (.int (if 64 ≤ b then (if a < 0 then -1 else 0) else a >>> b)))
  | .less | .lessEq | .greater | .greaterEq => .ok (op.compareInt? a.toInt b.toInt)

def floatOperator (op : Operator) (a b : Double) : Option Value :=
  match op with
  | .add => some (.float (a.add b))
  | .sub => some (.float (a.sub b))
  | .mul => some (.float (a.mul b))
  | .quo => some (.float (a.div b))
  | _ => op.compare? (a.less b) (a.lessEq b) (b.less a) (b.lessEq a)

/-- The character whose code is a number cut to 32 bits. -/
def charOfInt? (code : Int) : Option Value :=
  (Literal.charOfCode? (code % 0x100000000).toNat).map Value.char

/-- A string value, unless the text is too long for one. -/
def ofText (text : String) : Except RuntimeError Value :=
  if maxTextSize < text.utf8ByteSize then .error .stringLimit else .ok (.string text)

/-- The text `a` with `b` behind it. -/
def concat (a b : String) : Except RuntimeError Value :=
  if maxTextSize < a.utf8ByteSize + b.utf8ByteSize then .error .stringLimit
  else .ok (.string (a ++ b))

def negate : Value → Except RuntimeError Value
  | .int n => .ok (.int (-n))
  | .float x => .ok (.float x.negate)
  | other => .error (.unaryOperator .negate other.type)

def complement : Value → Except RuntimeError Value
  | .int n => .ok (.int (~~~n))
  | other => .error (.unaryOperator .complement other.type)

end Value

namespace Heap

/-- Operators whose result needs no new storage: `none` for operands that the operator does not
take. -/
def scalarOperator (heap : Heap) (op : Operator) (left right : Value) :
    Except RuntimeError (Option Value) :=
  match left, right with
  | .int a, .int b => Value.intOperator op a b
  | .int a, .float b => .ok (Value.floatOperator op (.ofInt64 a) b)
  | .float a, .int b => .ok (Value.floatOperator op a (.ofInt64 b))
  | .float a, .float b => .ok (Value.floatOperator op a b)
  | .int a, .char b =>
    match op with
    | .add => .ok (Value.charOfInt? (a.toInt + b.toNat))
    | _ => .ok (op.compareInt? a.toInt b.toNat)
  | .char a, .int b =>
    match op with
    | .add => .ok (Value.charOfInt? (a.toNat + b.toInt))
    | .sub => .ok (Value.charOfInt? (a.toNat - b.toInt))
    | _ => .ok (op.compareInt? a.toNat b.toInt)
  | .char a, .char b =>
    match op with
    | .sub => .ok (some (.int (Int64.ofInt (a.toNat - b.toNat))))
    | _ => .ok (op.compareInt? a.toNat b.toNat)
  | .string a, .string b =>
    match op with
    | .add => (Value.concat a b).map some
    | _ => .ok (op.compare? (a < b) (a ≤ b) (b < a) (b ≤ a))
  | .string a, other =>
    match op with
    | .add => (Value.concat a (heap.text other)).map some
    | _ => .ok none
  | .bytes a, .bytes b =>
    match op with
    | .add =>
      if maxTextSize < a.size + b.size then .error .bytesLimit else .ok (some (.bytes (a ++ b)))
    | _ => .ok none
  | .time t, .int n =>
    match op with
    | .add => .ok (some (.time (t.offset n.toInt)))
    | .sub => .ok (some (.time (t.offset (-n).toInt)))
    | _ => .ok none
  | .time a, .time b =>
    match op with
    | .sub => .ok (some (.int (a.difference b)))
    | _ => .ok (op.compareInt? a.nanos b.nanos)
  | _, _ => .ok none

/-- Applies a binary operator. -/
def binary (op : Operator) (left right : Value) : HeapM Value := fun heap =>
  -- A string takes its right operand as it is, a cell included.
  let left := heap.resolve left
  let right := match left, op with
    | .string _, .add => right
    | _, _ => heap.resolve right
  match left, right, op with
  | .array a, .array b, .add | .array a, .immutableArray b, .add
  | .immutableArray a, .array b, .add | .immutableArray a, .immutableArray b, .add =>
    let items := heap.array a ++ heap.array b
    let (value, heap) := heap.newArray items
    .ok value heap
  | _, _, _ =>
    match heap.scalarOperator op left right with
    | .ok (some value) => .ok value heap
    | .ok none => .error (.operator op left.type right.type) heap
    | .error e => .error e heap

end Heap

end Skiff
