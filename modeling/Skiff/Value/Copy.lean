import Skiff.Value.Basic

/-!
# Copies of values

A copy has new storage for every array and map in it, however deep, and all of it is mutable.
Everything else is shared.
-/

namespace Skiff

namespace Heap

/-- Copies a value. Nested containers are followed at most `fuel` levels deep, and between them at
most `cells` cells. -/
def copyFrom (fuel cells : Nat) (value : Value) (heap : Heap) : Value × Heap :=
  match fuel, cells, value with
  | fuel, cells, .error inner =>
    let (inner, heap) := copyFrom fuel cells inner heap
    (.error inner, heap)
  | fuel + 1, _, .array ref | fuel + 1, _, .immutableArray ref =>
    let (items, heap) := (heap.array ref).toList.foldl (fun (items, heap) item =>
      let (item, heap) := copyFrom fuel heap.reach item heap
      (items.push item, heap)) (#[], heap)
    heap.newArray items
  | fuel + 1, _, .map ref | fuel + 1, _, .immutableMap ref =>
    let (entries, heap) := (heap.map ref).entries.toList.foldl (fun (entries, heap) (key, item) =>
      let (item, heap) := copyFrom fuel heap.reach item heap
      (Dict.insert entries key item, heap)) (Dict.empty, heap)
    heap.newMap entries
  | fuel, cells + 1, .cell ref => copyFrom fuel cells (heap.cell ref) heap
  | _, _, value => (value, heap)
termination_by (fuel, cells, value)

/-- Copies a value. -/
def copy (heap : Heap) (value : Value) : Value × Heap :=
  copyFrom heap.depth heap.reach value heap

end Heap

end Skiff
