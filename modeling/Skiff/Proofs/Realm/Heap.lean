import Skiff.Proofs.Heap.Dict
import Skiff.Proofs.Realm.Basic

/-!
# Heaps inside of a realm

What is read from a heap inside of a realm may occur, and the heap stays inside of the realm when
something new is made of what may occur, or when something changes that can be changed.
-/

namespace Skiff

open Array Heap

variable {realm : Realm} {heap : Heap} {value : Value}

/-! ## Entries -/

namespace Dict.Inside

variable {dict : Dict Value} {key : String}

section
variable (inside : dict.Inside realm)
include inside

theorem get? (found : dict.get? key = some value) : value.Inside realm := by
  rw [get?_eq] at found
  obtain ⟨entry, here, rfl⟩ := Option.map_eq_some_iff.1 found
  exact (inside entry (List.mem_of_find?_eq_some here)).2

/-- The keys of a map may be met. -/
theorem keys : ∀ key ∈ dict.keys, realm.size key.utf8ByteSize := by
  intro key member
  obtain ⟨entry, here, rfl⟩ := mem_map.1 member
  exact (inside entry here.val).1

end

end Dict.Inside

/-! ## Storage -/

namespace Heap.Inside

/-- The value of a cell. -/
theorem deref (inside : heap.Inside realm) (known : value.Inside realm) :
    (heap.deref value).Inside realm := by
  cases value with
  | cell ref => exact inside.cells known.2
  | _ => exact known

theorem derefAll (inside : heap.Inside realm) (fuel : Nat) (known : value.Inside realm) :
    (heap.derefAll fuel value).Inside realm := by
  induction fuel generalizing value with
  | zero => exact known
  | succ fuel ih =>
    cases value with
    | cell ref => exact ih (inside.cells known.2)
    | _ => exact known

theorem resolve (inside : heap.Inside realm) (known : value.Inside realm) :
    (heap.resolve value).Inside realm := by
  cases value with
  | cell ref => exact inside.derefAll _ known
  | _ => exact known

variable {ref : Nat}

section
variable (inside : heap.Inside realm)
include inside

theorem newMap {entries : Dict Value} (known : entries.Inside realm) :
    (heap.newMap entries).1.Inside realm ∧ (heap.newMap entries).2.Inside realm := by
  have fresh := @inside.freshMap
  refine ⟨fresh le_rfl, { inside with entries := ?_, sealedMap := ?_, freshMap := ?_ }⟩
  · intro ref seen
    exact getD_push_of (motive := Dict.Inside realm) (fun _ => known) (inside.entries seen)
  · intro ref closed
    exact getD_push_of (motive := (· = _)) (fun last => absurd (fresh last.ge).2 closed)
      (inside.sealedMap closed)
  · intro ref new
    exact fresh (size_le_of_push new)

theorem newCell (known : value.Inside realm) :
    realm.cell (heap.newCell value).1 ∧ (heap.newCell value).2.Inside realm := by
  refine ⟨inside.freshCell le_rfl, { inside with cells := ?_, freshCell := ?_ }⟩
  · intro ref seen
    exact getD_push_of (motive := Value.Inside realm) (fun _ => known) (inside.cells seen)
  · intro ref new
    exact inside.freshCell (size_le_of_push new)

theorem newFunction {function : Function} (known : function.Inside realm)
    (table : realm.table (heap.functions.push function)) :
      (heap.newFunction function).2.Inside realm := by
  refine { inside with functions := ?_, table, freshFunction := ?_ }
  · intro ref seen
    exact getD_push_of (motive := Function.Inside realm) (fun _ => known) (inside.functions seen)
  · intro ref may new
    exact inside.freshFunction may (size_le_of_push new)

theorem setCell (ref : Nat) (known : value.Inside realm) :
    (heap.setCell ref value).Inside realm := by
  refine { inside with cells := ?_, freshCell := ?_ }
  · intro other seen
    exact getD_setIfInBounds_of (motive := Value.Inside realm) (inside.cells seen) fun _ => known
  · intro other new
    simp only [Heap.setCell, size_setIfInBounds] at new
    exact inside.freshCell new

end

end Heap.Inside

end Skiff
