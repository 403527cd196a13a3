import Skiff.Value.Basic

/-!
# Equality of values

Scalars are equal by value, arrays and maps by their contents whether or not they are
immutable, and everything else by identity. An object equals itself without a look at its
contents.
-/

namespace Skiff

namespace Heap

/-- Equality of values, nested containers being followed at most `fuel` levels deep. -/
def equalFrom (heap : Heap) (fuel : Nat) (left right : Value) : Bool :=
  match fuel, left, right with
  | _, .undefined, .undefined => true
  | _, .bool a, .bool b => a == b
  | _, .int a, .int b => a == b
  | _, .float a, .float b => a.sameNumber b
  | _, .char a, .char b => a == b
  | _, .string a, .string b => a == b
  | _, .bytes a, .bytes b => a == b
  | fuel, .error a, .error b => heap.equalFrom fuel a b
  | _, .time a, .time b => a == b
  | _, .function a, .function b => a == b
  | _, .builtin a, .builtin b => a == b
  | _, .host a _, .host b _ => a == b
  | _, .method a, .method b => a == b
  | _, .iterator a, .iterator b => a == b
  | _, .routine a, .routine b => a == b
  | _, .channel a, .channel b => a == b
  | _, .cell a, .cell b => a == b
  | fuel, .array a, .array b | fuel, .array a, .immutableArray b
  | fuel, .immutableArray a, .array b | fuel, .immutableArray a, .immutableArray b =>
    a == b || match fuel with
      | 0 => false
      | fuel + 1 =>
        let items := heap.array a
        let others := heap.array b
        items.size == others.size
          && (items.toList.zip others.toList).all fun (item, other) =>
            heap.equalFrom fuel item other
  | fuel, .map a, .map b | fuel, .map a, .immutableMap b
  | fuel, .immutableMap a, .map b | fuel, .immutableMap a, .immutableMap b =>
    a == b || match fuel with
      | 0 => false
      | fuel + 1 =>
        let entries := heap.map a
        let others := heap.map b
        entries.size == others.size
          && entries.entries.toList.all fun (key, item) =>
            match others.get? key with
            | some other => heap.equalFrom fuel item other
            | none => false
  | _, _, _ => false
termination_by (fuel, left)

/-- Equality of values. -/
def equal (heap : Heap) (left right : Value) : Bool := heap.equalFrom heap.depth left right

end Heap

end Skiff
