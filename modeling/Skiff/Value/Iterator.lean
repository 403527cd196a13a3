import Skiff.Value.Error

/-!
# Iteration

An iterator steps through the elements of a container. The keys of a map are those it had when
the iterator was made; keys that have gone since are passed over.
-/

namespace Skiff

namespace Heap

/-- What an iterator over a value runs over. -/
def iterSource? (heap : Heap) (value : Value) : Option IterSource :=
  match heap.resolve value with
  | .array ref | .immutableArray ref => some (.array ref)
  | .bytes b => some (.bytes b)
  | .map ref | .immutableMap ref => some (.map ref (heap.map ref).keys)
  | .string s => some (.chars s.toList.toArray)
  | _ => none

/-- A new iterator over a value. -/
def iterate (value : Value) : HeapM Value := fun heap =>
  match heap.iterSource? value with
  | some source =>
    let (iterator, heap) := heap.newIterator { source }
    .ok iterator heap
  | none => .error (.notIterable (heap.resolve value).type) heap

/-- The first key from a place on that a dictionary still has, with the place behind it. -/
def nextKey (dict : Dict Value) (keys : Array String) (pos : Nat) : Nat × Option (Value × Value) :=
  if h : pos < keys.size then
    match dict.get? keys[pos] with
    | some value => (pos + 1, some (.string keys[pos], value))
    | none => nextKey dict keys (pos + 1)
  else (pos + 1, none)
termination_by keys.size - pos

/-- The key and value from a place on, with the place behind them. -/
def elementAt (heap : Heap) (source : IterSource) (pos : Nat) : Nat × Option (Value × Value) :=
  let key := Value.int (Int64.ofNat pos)
  match source with
  | .array ref => (pos + 1, (heap.array ref)[pos]?.map fun item => (key, item))
  | .bytes b =>
    (pos + 1, if inside : pos < b.size then some (key, .int (Int64.ofNat b[pos].toNat)) else none)
  | .chars cs => (pos + 1, cs[pos]?.map fun c => (key, .char c))
  | .map ref keys => nextKey (heap.map ref) keys pos

/-- Moves an iterator to its next element; false if there is none. -/
def advance (ref : Nat) (heap : Heap) : Bool × Heap :=
  let iterator := heap.iterator ref
  let (pos, current) := heap.elementAt iterator.source iterator.pos
  (current.isSome, heap.setIterator ref { iterator with pos, current })

def currentKey (heap : Heap) (ref : Nat) : Value :=
  (heap.iterator ref).current.elim .undefined Prod.fst

def currentValue (heap : Heap) (ref : Nat) : Value :=
  (heap.iterator ref).current.elim .undefined Prod.snd

end Heap

end Skiff
