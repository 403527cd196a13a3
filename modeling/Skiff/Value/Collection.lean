import Skiff.Value.Error

/-!
# Collections

Lengths, appending to arrays, removing keys of maps, replacing a part of an array, and arrays of
equally spaced integers.
-/

namespace Skiff

/-- An argument of a wrong type. -/
def RuntimeError.ofArgument (name expected : String) (found : Value) : RuntimeError :=
  .argumentType name expected found.type

namespace Heap

/-- The number of elements, characters or bytes of a value. -/
def length (heap : Heap) : Value → Except RuntimeError Nat
  | .array ref | .immutableArray ref => .ok (heap.array ref).size
  | .map ref | .immutableMap ref => .ok (heap.map ref).size
  | .string s => .ok s.length
  | .bytes b => .ok b.size
  | other => .error (.ofArgument "first" "array/string/bytes/map" other)

/-- A new array with the elements of an array and the arguments behind it. -/
def append : List Value → HeapM Value
  | [] => throw (.tooFewArguments 1 0)
  | first :: rest => fun heap =>
    let items? := match first with
      | .array ref | .immutableArray ref => some (heap.array ref)
      | .undefined => some #[]
      | _ => none
    match items? with
    | some items =>
      let (value, heap) := heap.newArray (items ++ rest.toArray)
      .ok value heap
    | none => .error (.ofArgument "first" "array" first) heap

/-- Removes a key of a map. -/
def delete (map key : Value) : HeapM Value := fun heap =>
  match map, key with
  | .map ref, .string key => .ok .undefined (heap.modifyMap ref fun entries => entries.erase key)
  | .map _, other => .error (.ofArgument "second" "string" other) heap
  | other, _ => .error (.ofArgument "first" "map" other) heap

/-- The place at which a splice starts. -/
def spliceStart (size : Nat) : List Value → Except RuntimeError Nat
  | [] => .ok 0
  | .int n :: _ => if 0 ≤ n ∧ n.toInt ≤ size then .ok n.toInt.toNat else .error .indexOutOfBounds
  | other :: _ => .error (.ofArgument "second" "int" other)

/-- The number of elements that a splice removes, of which there are `rest`. -/
def spliceCount (rest : Nat) : List Value → Except RuntimeError Nat
  | [] => .ok rest
  | .int n :: _ => if 0 ≤ n then .ok (min n.toInt.toNat rest) else .error .indexOutOfBounds
  | other :: _ => .error (.ofArgument "third" "int" other)

/-- Removes elements of an array, puts others in their place and returns what was removed. The
arguments are the array, the place, the number of elements to remove and the new elements. -/
def splice : List Value → HeapM Value
  | [] => throw (.tooFewArguments 1 0)
  | .array ref :: args => fun heap =>
    let items := heap.array ref
    match spliceStart items.size args with
    | .error e => .error e heap
    | .ok start =>
      match spliceCount (items.size - start) (args.drop 1) with
      | .error e => .error e heap
      | .ok count =>
        let removed := items.extract start (start + count)
        let left := items.extract 0 start ++ (args.drop 2).toArray
          ++ items.extract (start + count) items.size
        let (value, heap) := (heap.modifyArray ref fun _ => left).newArray removed
        .ok value heap
  | other :: _ => throw (.ofArgument "first" "array" other)

end Heap

/-- How many values lie from `start` towards `stop`, which is left out, `step` apart. -/
def rangeCount (start stop step : Int64) : Nat :=
  ((stop.toInt - start.toInt).natAbs + step.toInt.toNat - 1) / step.toInt.toNat

/-- The value at a place of a range. -/
def rangeItem (start stop step : Int64) (place : Nat) : Int64 :=
  let distance : Int := step.toInt * place
  Int64.ofInt (if start ≤ stop then start.toInt + distance else start.toInt - distance)

/-- The values of a range. -/
def rangeItems (start stop step : Int64) : Array Value :=
  (Array.range (rangeCount start stop step)).map fun place =>
    .int (rangeItem start stop step place)

end Skiff
