import Mathlib
import Skiff.Machine.Native
import Skiff.Proofs.Stateful

/-!
# Ranges

A range holds the integers from one bound towards another, as far as they lie before it.
-/

namespace Skiff

/-- The number so many steps away from `start`, in the direction of `stop`. -/
def rangeNumber (start stop step : Int) (place : Nat) : Int :=
  if start ≤ stop then start + place * step else start - place * step

/-- Whether the number at a place lies before the end of a range. -/
def BeforeStop (start stop step : Int) (place : Nat) : Prop :=
  if start ≤ stop then rangeNumber start stop step place < stop
  else stop < rangeNumber start stop step place

/-- The host has room for so many values at once. -/
def Machine.HasRoom (machine : Machine) (count : Nat) :
    Prop := count ≤ machine.thread.config.maxReserve

variable {start stop step : Int64} {place : Nat}

theorem beforeStop_iff {start stop step : Int} : BeforeStop start stop step place ↔
    place * step < (stop - start).natAbs := by
  unfold BeforeStop rangeNumber
  split <;> omega

/-- The count is the distance divided by the step, rounded up. -/
theorem lt_rangeCount_iff (positive : 0 < step.toInt) : place < rangeCount start stop step ↔
    BeforeStop start.toInt stop.toInt step.toInt place := by
  obtain ⟨size, same⟩ := Int.eq_ofNat_of_zero_le positive.le
  rw [same] at positive
  rw [beforeStop_iff, rangeCount, same, Int.toNat_natCast, Nat.lt_div_iff_mul_lt (by omega)]
  norm_cast
  omega

theorem toInt_rangeItem (positive : 0 < step.toInt)
    (before : BeforeStop start.toInt stop.toInt step.toInt place) :
    (rangeItem start stop step place).toInt = rangeNumber start.toInt stop.toInt
      step.toInt place := by
  have here : 0 ≤ place * step.toInt := Int.mul_nonneg (Int.natCast_nonneg place) positive.le
  have distance := beforeStop_iff.1 before
  have low := start.le_toInt
  have high := start.toInt_lt
  have low' := stop.le_toInt
  have high' := stop.toInt_lt
  simp only [rangeItem, rangeNumber, Int64.le_iff_toInt_le, Int.mul_comm step.toInt]
  split <;> rw [Int64.toInt_ofInt_of_le (by omega) (by omega)]

namespace Exec

theorem range_eq (positive : 0 < step) (machine : Machine) :
    callBuiltin .range [.int start, .int stop, .int step] machine =
      (do
        charge (rangeCount start stop step)
        if (← get).thread.config.maxReserve < rangeCount start stop step then
          throw RuntimeError.allocationLimit
        allocate fun heap => heap.newArray (rangeItems start stop step)) machine := by
  simp only [callBuiltin, range, intArgument, pure_bind, if_neg (Int64.not_le.2 positive)]

/-- A range charges for as many elements as it has: the numbers from the first bound towards the
second, a step apart, as far as they lie before it. They fit in 64 bits, and so does their count; on
the way 128 bits are enough. A step must be positive, and the host must have room for the
elements. -/
theorem range_exact (machine : Machine) (start stop step : Int64) :
    callBuiltin .range [.int start, .int stop] machine =
      callBuiltin .range [.int start, .int stop, .int 1] machine ∧
    (step ≤ 0 →
      callBuiltin .range [.int start, .int stop, .int step] machine = .error .rangeStep machine) ∧
    (0 < step → ∃ (count : Nat) (items : Array Value),
      (∀ place, place < count ↔ BeforeStop start.toInt stop.toInt step.toInt place) ∧
      items.size = count ∧ (∀ place < count, ∃ n : Int64, items[place]? = some (.int n) ∧
        n.toInt = rangeNumber start.toInt stop.toInt step.toInt place) ∧
      count < 2 ^ 64 ∧ (stop.toInt - start.toInt).natAbs + step.toInt - 1 < 2 ^ 127 ∧
      (∀ place < count, step.toInt * place < 2 ^ 127) ∧
      ∀ paid,
        (charge count machine = .ok () paid →
          (paid.HasRoom count →
            callBuiltin .range [.int start, .int stop, .int step] machine =
                .ok (.array paid.heap.arrays.size)
                  { paid with heap := (paid.heap.newArray items).2 } ∧
              (paid.heap.newArray items).2.arrays[paid.heap.arrays.size]? = some items) ∧
          (¬paid.HasRoom count →
            callBuiltin .range [.int start, .int stop, .int step] machine
              = .error .allocationLimit paid)) ∧
        ∀ e, charge count machine = .error e paid →
          callBuiltin .range [.int start, .int stop, .int step] machine = .error e paid) := by
  refine ⟨rfl, fun low => ?_, fun positive => ?_⟩
  · simp only [callBuiltin, range, intArgument, pure_bind, if_pos low]
    rfl
  have positive' : 0 < step.toInt := Int64.lt_iff_toInt_lt.1 positive
  have low := start.le_toInt
  have high := start.toInt_lt
  have low' := stop.le_toInt
  have high' := stop.toInt_lt
  have small := step.toInt_lt
  have near {place : Nat} (inside : place < rangeCount start stop step) :
      place * step.toInt < 2 ^ 64 - 1 :=
    (beforeStop_iff.1 ((lt_rangeCount_iff positive').1 inside)).trans_le (by omega)
  refine ⟨rangeCount start stop step, rangeItems start stop step, fun place =>
    lt_rangeCount_iff positive',
    by simp [rangeItems], fun place inside => ?_, ?_, by omega,
    fun place inside => ?_, fun paid => ⟨?_, ?_⟩⟩
  · refine ⟨_, ?_, toInt_rangeItem positive' ((lt_rangeCount_iff positive').1 inside)⟩
    simp [rangeItems, inside]
  · by_contra large
    have last := near (Nat.lt_of_lt_of_le (by decide : 2 ^ 64 - 1 < 2 ^ 64) (Nat.not_lt.1 large))
    omega
  · rw [Int.mul_comm]
    exact (near inside).trans (by decide)
  · intro done
    rw [range_eq positive, bind_ok done, get_bind]
    refine ⟨fun room => ?_, fun tooMany => ?_⟩
    · rw [if_neg (Nat.not_lt.2 room)]
      exact ⟨rfl, Array.getElem?_push_size⟩
    · rw [if_pos (Nat.not_le.1 tooMany)]
      rfl
  · intro e failed
    rw [range_eq positive, bind_error failed]

/-- Over all integers, in the largest steps, there are three elements. -/
theorem range_exact_widest : ∃ (paid : Machine) (items : Array Value),
    charge 3 default = .ok () paid ∧ items.size = 3 ∧
    callBuiltin .range [.int .minValue, .int .maxValue, .int .maxValue] default =
      .ok (.array paid.heap.arrays.size) { paid with heap := (paid.heap.newArray items).2 } := by
  obtain ⟨count, items, before, size, -, -, -, -, rest⟩ :=
    (range_exact default .minValue .maxValue .maxValue).2.2 (by decide)
  have third : 2 < count := (before 2).2 (beforeStop_iff.2 (by decide))
  have last : ¬3 < count := mt (beforeStop_iff.1 ∘ (before 3).1) (by decide)
  obtain rfl : count = 3 := by omega
  exact ⟨_, items, rfl, size, (((rest _).1 rfl).1 (by decide +kernel : 3 ≤ Config.maxReserve {})).1⟩

end Exec

end Skiff
