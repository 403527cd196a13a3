import Skiff.Code.Instr
import Skiff.Value.Error

/-!
# Elements and slices

Reading an element that is not there gives undefined; writing one is an error for arrays and
adds an entry to maps. The bounds of a slice are moved into the sequence.
-/

namespace Skiff

/-- The place that an index names in a sequence, if it has that place. -/
def indexIn? (index : Int64) (size : Nat) : Option Nat :=
  if 0 ≤ index ∧ index.toInt < size then some index.toInt.toNat else none

namespace Heap

/-- A new method of a routine or channel, or undefined if there is none of that name. -/
def methodValue (name? : Option MethodName) (target : Nat) (heap : Heap) : Value × Heap :=
  match name? with
  | some name => heap.newMethod ⟨name, target⟩
  | none => (.undefined, heap)

/-- The element of a value at an index. -/
def getIndex (value index : Value) : HeapM Value := fun heap =>
  match heap.resolve value, index with
  | .array ref, .int i | .immutableArray ref, .int i =>
    let items := heap.array ref
    .ok ((indexIn? i items.size).elim .undefined fun place => items.getD place .undefined) heap
  | .bytes b, .int i =>
    .ok ((indexIn? i b.size).elim .undefined fun place =>
      .int (Int64.ofNat (byteAt b place).toNat)) heap
  | .string s, .int i =>
    .ok (if 0 ≤ i then (s.toList[i.toInt.toNat]?).elim .undefined Value.char else .undefined) heap
  | .map ref, .string key | .immutableMap ref, .string key =>
    .ok (((heap.map ref).get? key).getD .undefined) heap
  | .error inner, .string "value" => .ok inner heap
  | .error _, _ => .error .errorIndex heap
  | .routine ref, .string name =>
    let (method, heap) := heap.methodValue (MethodName.ofRoutine? name) ref
    .ok method heap
  | .channel ref, .string name =>
    let (method, heap) := heap.methodValue (MethodName.ofChannel? name) ref
    .ok method heap
  | .undefined, _ => .ok .undefined heap
  | .array _, other | .immutableArray _, other | .bytes _, other | .string _, other
  | .map _, other | .immutableMap _, other | .routine _, other | .channel _, other =>
    .error (.indexType other.type) heap
  | other, _ => .error (.notIndexable other.type) heap

/-- Changes the element of a value at an index. -/
def setIndex (value index item : Value) : HeapM Unit := fun heap =>
  match heap.resolve value, index with
  | .array ref, .int i =>
    match indexIn? i (heap.array ref).size with
    | some place => .ok () (heap.modifyArray ref fun items => items.setIfInBounds place item)
    | none => .error .indexOutOfBounds heap
  | .map ref, .string key => .ok () (heap.modifyMap ref fun entries => entries.insert key item)
  | .array _, other | .map _, other => .error (.indexType other.type) heap
  | other, _ => .error (.notAssignable other.type) heap

/-- The place of a slice bound: undefined stands for a default, and integers are moved into the
sequence. -/
def sliceBound (size default : Nat) : Value → Except RuntimeError Nat
  | .undefined => .ok default
  | .int i => .ok (if i < 0 then 0 else min i.toInt.toNat size)
  | other => .error (.indexType other.type)

/-- Both places of a slice in order. -/
def sliceBounds (size : Nat) (low high : Value) : Except RuntimeError (Nat × Nat) := do
  let start ← sliceBound size 0 low
  let stop ← sliceBound size size high
  if stop < start then throw (.sliceOrder start stop)
  return (start, stop)

/-- The part of a value between two bounds. -/
def getSlice (value low high : Value) : HeapM Value := fun heap =>
  match heap.resolve value with
  | .array ref | .immutableArray ref =>
    let items := heap.array ref
    match sliceBounds items.size low high with
    | .ok (start, stop) =>
      let (value, heap) := heap.newArray (items.extract start stop)
      .ok value heap
    | .error e => .error e heap
  | .string s =>
    match sliceBounds s.length low high with
    | .ok (start, stop) =>
      .ok (.string (String.ofList ((s.toList.drop start).take (stop - start)))) heap
    | .error e => .error e heap
  | .bytes b =>
    match sliceBounds b.size low high with
    | .ok (start, stop) => .ok (.bytes (b.extract start stop)) heap
    | .error e => .error e heap
  | other => .error (.notSliceable other.type) heap

end Heap

end Skiff
