import Mathlib
import Skiff.Machine.Step
import Skiff.Proofs.Stateful

/-!
# Slots of the stack, and frames that are left
-/

namespace Skiff

theorem size_clearSlots (stack : Array Value) (low high : Nat) :
    (Thread.clearSlots stack low high).size = stack.size := by
  unfold Thread.clearSlots
  generalize List.range' low (high - low) = slots
  induction slots generalizing stack with
  | nil => rfl
  | cons slot _ ih => rw [List.foldl_cons, ih, Array.size_setIfInBounds]

namespace Exec

variable {machine : Machine}

theorem leave_none (none : machine.thread.frames.back? = none) (depth : Nat)
    (value : Value) : leave depth value machine = .error .stackUnderflow machine := by
  simp only [leave, get_bind, none]
  rfl

theorem leave_some {frame : Frame}
    (last : machine.thread.frames.back? = some frame) (depth : Nat) (value : Value) :
    leave depth value machine
      = (do
          restoreFrame
          if machine.thread.frames.pop.size ≤ depth then
            return .halt (if frame.discard then .undefined else value)
          push (if frame.discard then .undefined else value)
          return .next : Exec Signal)
        (machine.mapThread fun thread =>
          { thread with frames := thread.frames.pop }.cut (frame.base - 1)) := by
  simp only [leave, get_bind, last]
  rfl

end Exec

end Skiff
