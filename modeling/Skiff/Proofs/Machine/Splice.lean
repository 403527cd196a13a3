import Skiff.Machine.Native
import Skiff.Proofs.Heap.Sequence

/-!
# Splicing

A splice cuts elements out of an array and pastes others in their place. It is undone by a splice
that pastes what was cut out. What it is not meant for, it refuses without a change.
-/

namespace Skiff

open List

/-- The arguments of a splice behind the array: the place at which it cuts, how many elements it
cuts out, of as many as there are behind that place, and what it pastes. -/
inductive SpliceArgs (size : Nat) : List Value → (start count : Nat) → List Value → Prop where
  | all : SpliceArgs size [] 0 size []
  | tail {start : Int64} (low : 0 ≤ start.toInt) (high : start.toInt ≤ size) :
      SpliceArgs size [.int start] start.toInt.toNat (size - start.toInt.toNat) []
  | part {start count : Int64} {items : List Value} (low : 0 ≤ start.toInt)
      (high : start.toInt ≤ size)
      (counts : 0 ≤ count.toInt) :
        SpliceArgs size (.int start :: .int count :: items) start.toInt.toNat
        (min count.toInt.toNat (size - start.toInt.toNat)) items

/-- The elements of an array in three parts: those before a cut, those that are cut out, and the
others. -/
structure CutAt (whole front removed back : List Value) (start count : Nat) : Prop where
  whole : whole = front ++ removed ++ back
  start : front.length = start
  count : removed.length = count

theorem CutAt.unique {whole front removed back front' removed' back' : List Value}
    {start count : Nat} (parts : CutAt whole front removed back start count)
    (parts' : CutAt whole front' removed' back' start count) :
    front = front' ∧ removed = removed' ∧ back = back' := by
  have same := parts.whole.symm.trans parts'.whole
  obtain ⟨same, last⟩ := append_inj same (by
    rw [length_append, length_append, parts.start, parts.count, parts'.start, parts'.count])
  obtain ⟨first, middle⟩ := append_inj same (parts.start.trans parts'.start.symm)
  exact ⟨first, middle, last⟩

namespace Heap

/-- What was cut out of an array is a new array, other elements are in its place, and everything
else is as it was. -/
structure Spliced (heap heap' : Heap) (ref start count : Nat) (items : List Value) : Prop where
  parts : ∃ front removed back, CutAt (heap.array ref).toList front removed back start count ∧
    heap'.arrays[heap.arrays.size]? = some removed.toArray ∧
    heap'.arrays[ref]? = some (front ++ items ++ back).toArray
  others (other : Nat) : other < heap.arrays.size → other ≠ ref →
    heap'.arrays[other]? = heap.arrays[other]?
  rest : heap' = { heap with arrays := heap'.arrays }

variable {heap : Heap} {ref start count : Nat} {args items : List Value}

theorem SpliceArgs.count_le {size : Nat} (takes : SpliceArgs size args start count items) :
    start + count ≤ size := by
  cases takes <;> omega

/-- Exactly these arguments pass the checks. -/
theorem spliceArgs_iff {size : Nat} : SpliceArgs size args start count items ↔
    spliceStart size args = .ok start ∧ spliceCount (size - start) (args.drop 1) = .ok count ∧
      args.drop 2 = items := by
  have positive {n : Int64} : 0 ≤ n ↔ 0 ≤ n.toInt := Int64.le_iff_toInt_le
  constructor
  · intro takes
    cases takes with
    | all => exact ⟨rfl, rfl, rfl⟩
    | tail low high => exact ⟨if_pos ⟨positive.2 low, high⟩, rfl, rfl⟩
    | part low high counts =>
      exact ⟨if_pos ⟨positive.2 low, high⟩, if_pos (positive.2 counts), rfl⟩
  · rintro ⟨starts, counts, rfl⟩
    cases args with
    | nil =>
      cases starts
      cases counts
      exact .all
    | cons first rest =>
      cases first with
      | int n =>
        simp only [spliceStart] at starts
        split at starts <;> cases starts
        obtain ⟨low, high⟩ := ‹_ ∧ _›
        cases rest with
        | nil =>
          cases counts
          exact .tail (positive.1 low) high
        | cons second items =>
          cases second with
          | int m =>
            simp only [drop_succ_cons, drop_zero, spliceCount] at counts
            split at counts <;> cases counts
            exact .part (positive.1 low) high (positive.1 ‹_›)
          | _ => cases counts
      | _ => cases starts

/-- The elements of an array fall into three parts, of which a splice exchanges the middle one. -/
theorem splice_eq (takes : SpliceArgs (heap.array ref).size args start count items) :
    ∃ front removed back, CutAt (heap.array ref).toList front removed back start count ∧
      splice (.array ref :: args) heap = .ok (.array heap.arrays.size)
        ((heap.modifyArray ref fun _ => (front ++ items ++ back).toArray).newArray
          removed.toArray).2 := by
  have within := SpliceArgs.count_le takes
  obtain ⟨starts, counts, pastes⟩ := spliceArgs_iff.1 takes
  generalize same : heap.array ref = whole at within starts counts
  refine ⟨whole.toList.take start, (whole.toList.drop start).take count,
    whole.toList.drop (start + count), ⟨?_, by simp; omega, by simp; omega⟩, ?_⟩
  · rw [append_assoc, ← drop_drop, take_append_drop, take_append_drop]
  · have removed :
        whole.extract start (start + count) = ((whole.toList.drop start).take count).toArray := by
      apply Array.toList_inj.1
      simp [extract_eq_take_drop]
    have left : whole.extract 0 start ++ items.toArray ++ whole.extract (start + count) whole.size =
        (whole.toList.take start ++ items ++ whole.toList.drop (start + count)).toArray := by
      apply Array.toList_inj.1
      simp [extract_eq_take_drop]
    simp only [splice, same, starts, counts, pastes, removed, left]
    simp [newArray, modifyArray]

theorem spliced_of_parts (here : ref < heap.arrays.size) {front removed back : List Value}
    (parts : CutAt (heap.array ref).toList front removed back start count) (items : List Value) :
    heap.Spliced
      ((heap.modifyArray ref fun _ => (front ++ items ++ back).toArray).newArray removed.toArray).2
      ref start count items := by
  have size : (heap.modifyArray ref fun _ => (front ++ items ++ back).toArray).arrays.size =
      heap.arrays.size :=
    Array.size_modify ..
  have older {other : Nat} (made : other < heap.arrays.size) : ((heap.modifyArray ref fun _ =>
      (front ++ items ++ back).toArray).newArray removed.toArray).2.arrays[other]? =
        (heap.modifyArray ref fun _ => (front ++ items ++ back).toArray).arrays[other]? :=
    Array.getElem?_push.trans (if_neg (by omega))
  refine ⟨⟨front, removed, back, parts, ?_, (older here).trans ?_⟩,
    fun other made different => (older made).trans ?_, rfl⟩
  · rw [← size]
    exact Array.getElem?_push_size
  · rw [modifyArray, Array.getElem?_modify, if_pos rfl, Array.getElem?_eq_getElem here]
    rfl
  · rw [modifyArray, Array.getElem?_modify, if_neg (Ne.symm different)]

/-- Pasting back what was cut out. -/
theorem Spliced.undone {heap' : Heap} (spliced : heap.Spliced heap' ref start count items)
    {start' count' : Int64} (starts : start'.toInt = start) (counts : count'.toInt = items.length) :
    ∃ value heap'', splice (.array ref :: .int start' :: .int count' ::
        (heap'.array heap.arrays.size).toList) heap' = .ok value heap'' ∧
      heap''.array ref = heap.array ref := by
  obtain ⟨front, removed, back, parts, new, changed⟩ := spliced.parts
  have pasted : CutAt (heap'.array ref).toList front items back start items.length :=
    ⟨by rw [array_of_getElem? changed], parts.start, rfl⟩
  have size : (heap'.array ref).size = start + items.length + back.length := by
    rw [← Array.length_toList, pasted.whole, length_append, length_append, pasted.start]
  have takes : SpliceArgs (heap'.array ref).size (.int start' :: .int count' :: removed) start
      items.length removed := by
    have args : SpliceArgs (heap'.array ref).size (.int start' :: .int count' :: removed) _ _ _ :=
      .part (by omega) (by omega) (by omega)
    rwa [starts, counts, Int.toNat_natCast, Int.toNat_natCast, Nat.min_eq_left (by omega)] at args
  obtain ⟨front', items', back', parts', run⟩ := splice_eq takes
  obtain ⟨rfl, rfl, rfl⟩ := parts'.unique pasted
  obtain ⟨here, -⟩ := Array.getElem?_eq_some_iff.1 changed
  rw [array_of_getElem? new]
  refine ⟨_, _, run, ?_⟩
  obtain ⟨front'', removed'', back'', parts'', -, restored⟩ :=
    (spliced_of_parts here parts' removed).parts
  obtain ⟨rfl, rfl, rfl⟩ := parts''.unique parts'
  rw [array_of_getElem? restored, ← Array.toList_inj, parts.whole]

theorem splice_refuses (refused : ∀ ref rest, args = .array ref :: rest → ∀ start count items,
    ¬SpliceArgs (heap.array ref).size rest start count items) : ∃ e,
      splice args heap = .error e heap := by
  cases args with
  | nil => exact ⟨_, rfl⟩
  | cons first rest =>
    cases first with
    | array ref =>
      simp only [splice]
      cases starts : spliceStart (heap.array ref).size rest with
      | error e => exact ⟨e, rfl⟩
      | ok start =>
        dsimp only
        cases counts : spliceCount ((heap.array ref).size - start) (rest.drop 1) with
        | error e => exact ⟨e, rfl⟩
        | ok count =>
          exact absurd (spliceArgs_iff.2 ⟨starts, counts, rfl⟩) (refused ref rest rfl _ _ _)
    | _ => exact ⟨_, rfl⟩

end Heap

namespace Exec

variable {machine : Machine} {args : List Value} {named : Dict Value}

theorem callNative_splice (none : named.size = 0) :
    callNative (.builtin .splice) args named machine =
      (Reply.value <$> onHeap (Heap.splice args) : Exec Reply) machine := by
  simp only [callNative, none]
  rfl

theorem callNative_spliced {value : Value} {heap : Heap} (none : named.size = 0)
    (run : Heap.splice args machine.heap = .ok value heap) :
    callNative (.builtin .splice) args named machine = .ok (.value value)
      { machine with heap } := by
  rw [callNative_splice none]
  simp only [Functor.map, EStateM.map, onHeap, run]

theorem callNative_refused {e : RuntimeError}
    (run : Heap.splice args machine.heap = .error e machine.heap) :
    ∃ e, callNative (.builtin .splice) args named machine = .error e machine := by
  by_cases none : named.size = 0
  · rw [callNative_splice none]
    simp only [Functor.map, EStateM.map, onHeap, run]
    exact ⟨e, rfl⟩
  · simp only [callNative, if_pos none]
    exact ⟨.namedArguments, rfl⟩

/-- A splice cuts elements out of an array, which it returns in a new one, and pastes its other
arguments in their place; pasting back what was cut out restores the array. Other arguments are
refused, and then nothing has changed. -/
theorem splice_exact (machine : Machine) (args : List Value) (named : Dict Value) :
    (∀ ref rest start count items, args = .array ref :: rest → ref < machine.heap.arrays.size →
      named.size = 0 → SpliceArgs (machine.heap.array ref).size rest start count items →
      ∃ heap', callNative (.builtin .splice) args named machine =
          .ok (.value (.array machine.heap.arrays.size)) { machine with heap := heap' } ∧
        machine.heap.Spliced heap' ref start count items ∧
        ∀ start' count' : Int64, start'.toInt = start → count'.toInt = items.length →
          ∃ value heap'', callNative (.builtin .splice) (.array ref :: .int start' :: .int count' ::
              (heap'.array machine.heap.arrays.size).toList) .empty { machine with heap := heap' } =
              .ok (.value value) { machine with heap := heap'' } ∧
            heap''.array ref = machine.heap.array ref) ∧
    (named.size ≠ 0 ∨ (∀ ref rest, args = .array ref :: rest → ∀ start count items,
        ¬SpliceArgs (machine.heap.array ref).size rest start count items) →
      ∃ e, callNative (.builtin .splice) args named machine = .error e machine) := by
  refine ⟨?_, ?_⟩
  · rintro ref rest start count items rfl here none takes
    obtain ⟨front, removed, back, parts, run⟩ := Heap.splice_eq takes
    have spliced := Heap.spliced_of_parts here parts items
    refine ⟨_, callNative_spliced none run, spliced, ?_⟩
    intro start' count' starts counts
    obtain ⟨value, heap'', run, restored⟩ := spliced.undone starts counts
    exact ⟨value, heap'', callNative_spliced rfl run, restored⟩
  · rintro (given | refused)
    · simp only [callNative, if_pos given]
      exact ⟨.namedArguments, rfl⟩
    · obtain ⟨e, run⟩ := Heap.splice_refuses refused
      exact callNative_refused run

/-- An array can be pasted into itself. -/
theorem splice_exact_alias :
    let machine :
      Machine := { (default : Machine) with heap := { arrays := #[#[.int 1, .int 2, .int 3]] } }
    ∃ heap', callNative (.builtin .splice)
        [.array 0, .int 1, .int 0x7fffffffffffffff, .array 0] .empty
        machine = .ok (.value (.array 1)) { machine with heap := heap' } ∧
      machine.heap.Spliced heap' 0 1 2 [.array 0] := by
  intro machine
  obtain ⟨heap', run, spliced, -⟩ := (splice_exact machine
    [.array 0, .int 1, .int 0x7fffffffffffffff, .array 0] .empty).1 0 _ 1 2 [.array 0] rfl
    (by decide) rfl (.part (by decide) (by decide) (by decide))
  exact ⟨heap', run, spliced⟩

end Exec

end Skiff
