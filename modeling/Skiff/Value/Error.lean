import Skiff.Operator
import Skiff.Value.Basic

/-!
# Errors at run time

Why a running program stops. Failures that a script can handle are error values instead.
-/

namespace Skiff

inductive RuntimeError where
  | operator (op : Operator) (left right : ValueType)
  | unaryOperator (op : UnaryOp) (operand : ValueType)
  | argumentCount (want got : Nat)
  | tooFewArguments (want got : Nat)
  | argumentType (name expected : String) (found : ValueType)
  | namedArguments
  | indexOutOfBounds
  | indexType (found : ValueType)
  | errorIndex
  | notIndexable (found : ValueType)
  | notAssignable (found : ValueType)
  | notSliceable (found : ValueType)
  | sliceOrder (low high : Nat)
  | notCallable (found : ValueType)
  | notIterable (found : ValueType)
  | divisionByZero
  | negativeShift (amount : Int64)
  | stackOverflow
  | stackUnderflow
  | allocationLimit
  | stringLimit
  | bytesLimit
  | closedChannel
  | aborted
  | opcode (byte : UInt8)
  | rangeStep
  /-- A failure that a host function reports. -/
  | host (message : String)
  /-- Faults of byte code that no compiled program has. -/
  | codeEnd
  | constantIndex (index : Nat)
  | functionConstant (index : Nat)
  | freeIndex (index : Nat)
  | builtinIndex (index : Nat)
  | iteratorExpected
  | outsideBuffer
  deriving DecidableEq, Repr

namespace RuntimeError

def message : RuntimeError → String
  | operator op left right =>
    "invalid operation: " ++ left.name ++ " " ++ op.text ++ " " ++ right.name
  | unaryOperator op operand => "invalid operation: " ++ op.text ++ operand.name
  | argumentCount want got => s!"wrong number of arguments: want={want}, got={got}"
  | tooFewArguments want got => s!"wrong number of arguments: want>={want}, got={got}"
  | argumentType name expected found =>
    "invalid type for argument '" ++ name ++ "': expected " ++ expected ++ ", found " ++ found.name
  | namedArguments => "function does not accept keyword arguments"
  | indexOutOfBounds => "index out of bounds"
  | indexType found => "invalid index type: " ++ found.name
  | errorIndex => "invalid index on error"
  | notIndexable found => "not indexable: " ++ found.name
  | notAssignable found => "not index-assignable: " ++ found.name
  | notSliceable found => "not sliceable: " ++ found.name
  | sliceOrder low high => s!"invalid slice index: {low} > {high}"
  | notCallable found => "not callable: " ++ found.name
  | notIterable found => "not iterable: " ++ found.name
  | divisionByZero => "division by zero"
  | negativeShift amount => "negative shift amount: " ++ toString amount.toInt
  | stackOverflow => "stack overflow"
  | stackUnderflow => "stack underflow"
  | allocationLimit => "allocation limit exceeded"
  | stringLimit => "exceeding string size limit"
  | bytesLimit => "exceeding bytes size limit"
  | closedChannel => "send on closed channel"
  | aborted => "aborted"
  | opcode byte => "invalid opcode: " ++ toString byte.toNat
  | rangeStep => "invalid range step: must be > 0"
  | host message => message
  | codeEnd => "instruction pointer out of range"
  | constantIndex index => s!"invalid constant index: {index}"
  | functionConstant index => s!"not a function constant: {index}"
  | freeIndex index => s!"invalid free variable index: {index}"
  | builtinIndex index => s!"invalid builtin index: {index}"
  | iteratorExpected => "iterator expected"
  | outsideBuffer => "access outside a buffer"

/-- Limits that whoever runs a program may want to raise. -/
def isResourceLimit : RuntimeError → Bool
  | stackOverflow | allocationLimit => true
  | _ => false

end RuntimeError

/-- Computations on the heap; the heap is kept when they fail. -/
abbrev HeapM := EStateM RuntimeError Heap

end Skiff
