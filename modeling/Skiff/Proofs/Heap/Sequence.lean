import Skiff.Proofs.Code.Bytes
import Skiff.Proofs.Heap.Operations

/-!
# Sequences

Arrays, strings and bytes hold elements one behind the other. What their length is, what is found at
an index, what an iterator runs over, what a slice holds and what two parts give when they are
joined is all said by the list of these elements.
-/

namespace Skiff

open List Option Nat

/-- A value is a sequence that holds elements. -/
inductive Heap.Holds (heap : Heap) : Value → List Value → Prop where
  | array {ref : Nat} {items : Array Value} (here : heap.arrays[ref]? = some items) :
      Holds heap (.array ref) items.toList
  | immutableArray {ref : Nat} {items : Array Value} (here : heap.arrays[ref]? = some items) :
      Holds heap (.immutableArray ref) items.toList
  | string (text : String) : Holds heap (.string text) (text.toList.map Value.char)
  | bytes (data : ByteArray) :
      Holds heap (.bytes data) (data.data.toList.map fun byte => .int (Int64.ofNat byte.toNat))

/-- A string or bytes that are not longer than values may be. -/
def Value.WithinLimit : Value → Prop
  | .string text => text.utf8ByteSize ≤ maxTextSize
  | .bytes data => data.size ≤ maxTextSize
  | _ => True

/-- The element at an index, which is undefined where there is none. -/
def elementOf (items : List Value) (index : Int64) : Value :=
  if 0 ≤ index.toInt then items.getD index.toInt.toNat .undefined else .undefined

/-- Every index with the element there, in order. -/
def indexed (items : List Value) : List (Value × Value) :=
  (range items.length).map fun place =>
    (.int (Int64.ofNat place), elementOf items (Int64.ofNat place))

/-- The index of a place with the element there, if there is one. -/
def pairAt (items : List Value) (place : Nat) : Option (Value × Value) :=
  items[place]?.map fun item => (.int (Int64.ofNat place), item)

/-- The elements from one place up to another one. -/
def partOf {α : Type} (items : List α) (start stop : Nat) : List α :=
  (items.drop start).take (stop - start)

/-- A bound moved into a sequence; a missing one stands for a default. -/
def clampBound (size default : Nat) : Option Int64 → Nat
  | none => default
  | some bound => (max 0 (min bound.toInt size)).toNat

/-- The value that stands for a bound of a slice. -/
def boundValue : Option Int64 → Value
  | none => .undefined
  | some bound => .int bound

namespace Heap

variable {heap heap' : Heap} {x y : Value} {items others : List Value}

/-- The pairs that an iterator gives, for as many steps or until it stops. -/
def drain (ref : Nat) : Nat → Heap → List (Value × Value)
  | 0, _ => []
  | steps + 1, heap =>
    let later := (heap.advance ref).2
    if (heap.advance ref).1 then (later.currentKey ref, later.currentValue ref) :: drain
      ref steps later
    else []

/-- All arrays are still there. -/
def KeepsArrays (heap heap' : Heap) : Prop :=
  ∀ (ref : Nat) (items : Array Value), heap.arrays[ref]? = some items →
    heap'.arrays[ref]? = some items

variable {place a b c ref size start stop : Nat} {index : Int64}

theorem array_of_getElem? {found : Array Value} (here : heap.arrays[ref]? = some found) :
    heap.array ref = found := by
  rw [array, Array.getD_eq_getD_getElem?, here, getD_some]

theorem Holds.later (holds : heap.Holds x items) (keeps : heap.KeepsArrays heap') :
    heap'.Holds x items := by
  cases holds with
  | array here => exact .array (keeps _ _ here)
  | immutableArray here => exact .immutableArray (keeps _ _ here)
  | string text => exact .string text
  | bytes bytes => exact .bytes bytes

theorem keepsArrays_newArray (heap : Heap) (found : Array Value) :
    heap.KeepsArrays (heap.newArray found).2 := by
  intro ref items here
  have inside := (Array.getElem?_eq_some_iff.1 here).1
  exact (Array.getElem?_push_lt inside).trans ((Array.getElem?_eq_getElem inside).symm.trans here)

theorem holds_newArray (heap : Heap) (found : Array Value) :
    (heap.newArray found).2.Holds (heap.newArray found).1 found.toList :=
  .array Array.getElem?_push_size

theorem length_of_holds (holds : heap.Holds x items) : heap.length x = .ok items.length := by
  cases holds with
  | array here | immutableArray here => rw [length, array_of_getElem? here, Array.length_toList]
  | string text => rw [length, length_map, String.length_toList]
  | bytes bytes =>
    rw [length, length_map, Array.length_toList]
    rfl

/-! ## Elements -/

theorem elim_indexIn? (items : List Value) (index : Int64) :
    (indexIn? index items.length).elim .undefined (items.getD · .undefined)
      = elementOf items index := by
  have zero : 0 ≤ index ↔ 0 ≤ index.toInt := Int64.le_iff_toInt_le
  rw [indexIn?, elementOf]
  by_cases low : 0 ≤ index.toInt
  · by_cases high : index.toInt < items.length
    · rw [if_pos ⟨zero.2 low, high⟩, if_pos low, elim_some]
    · rw [if_neg fun both => high both.2, if_pos low, elim_none, getD_eq_default]
      omega
  · rw [if_neg fun both => low (zero.1 both.1), if_neg low, elim_none]

theorem lt_of_indexIn? (found : indexIn? index size = some place) : place < size := by
  rw [indexIn?] at found
  split at found
  · rename_i inside
    have low : 0 ≤ index.toInt := Int64.le_iff_toInt_le.1 inside.1
    cases found
    omega
  · cases found

theorem getIndex_of_holds (holds : heap.Holds x items) (index : Int64) :
    getIndex x (.int index) heap = .ok (elementOf items index) heap := by
  have arrays {ref : Nat} {found : Array Value} (here : heap.arrays[ref]? = some found) :
      (indexIn? index (heap.array ref).size).elim .undefined (fun place =>
        (heap.array ref).getD place .undefined) = elementOf found.toList index := by
    rw [array_of_getElem? here, ← elim_indexIn?, Array.length_toList]
    simp
  cases holds with
  | array here | immutableArray here => exact congrArg (EStateM.Result.ok · heap) (arrays here)
  | string text =>
    have run : getIndex (.string text) (.int index) heap = .ok (if 0 ≤ index then
      (text.toList[index.toInt.toNat]?).elim .undefined Value.char else .undefined) heap := rfl
    have zero : 0 ≤ index ↔ 0 ≤ index.toInt := Int64.le_iff_toInt_le
    rw [run, elementOf]
    by_cases low : 0 ≤ index.toInt
    · rw [if_pos (zero.2 low), if_pos low, getD_eq_getElem?_getD, getElem?_map]
      cases text.toList[index.toInt.toNat]? <;> rfl
    · rw [if_neg (low ∘ zero.1), if_neg low]
  | bytes data =>
    have run : getIndex (.bytes data) (.int index) heap = .ok
      ((indexIn? index data.size).elim .undefined
      fun place => .int (Int64.ofNat (byteAt data place).toNat)) heap := rfl
    rw [run, ← elim_indexIn?, length_map, ← size_eq_length]
    cases found : indexIn? index data.size with
    | none => rfl
    | some place =>
      have inside := lt_of_indexIn? found
      rw [size_eq_length] at inside
      rw [elim_some, elim_some, getD_eq_getElem?_getD, getElem?_map, byteAt_eq,
        getElem?_eq_getElem inside]
      rfl

/-! ## Iteration -/

theorem elementOf_ofNat (short : place < 2 ^ 63) (items : List Value) :
    elementOf items (Int64.ofNat place) = items.getD place .undefined := by
  rw [elementOf, Int64.toInt_ofNat_of_lt short, if_pos (Int.natCast_nonneg _), Int.toNat_natCast]

theorem getElem?_indexed (short : items.length < 2 ^ 63) (place : Nat) :
    (indexed items)[place]? = pairAt items place := by
  rw [indexed, pairAt, getElem?_map]
  by_cases inside : place < items.length
  · rw [getElem?_range inside, getElem?_eq_getElem inside, map_some, map_some,
      elementOf_ofNat (lt_trans inside short), getD_eq_getElem _ _ inside]
  · rw [getElem?_eq_none (by simpa using inside), getElem?_eq_none (by simpa using inside)]
    rfl

/-- An iterator that has come to a place of a sequence. -/
def Runs (heap : Heap) (ref : Nat) (items : List Value) (place : Nat) : Prop :=
  ∃ source current, heap.iterators[ref]? = some { source, pos := place, current } ∧
    ∀ place, heap.elementAt source place
      = (place + 1, pairAt items place)

theorem elementAt_of_holds (holds : heap.Holds x items) :
    ∃ source, heap.iterSource? x = some source ∧ ∀ place, heap.elementAt source place
      = (place + 1, pairAt items place) := by
  have arrays {ref : Nat} {found : Array Value} (here : heap.arrays[ref]? = some found)
      (place : Nat) : heap.elementAt (.array ref) place
        = (place + 1, pairAt found.toList place) := by
    rw [elementAt, array_of_getElem? here, pairAt, Array.getElem?_toList]
  cases holds with
  | array here | immutableArray here => exact ⟨_, rfl, arrays here⟩
  | string text =>
    refine ⟨_, rfl, fun place => ?_⟩
    rw [elementAt, pairAt, getElem?_toArray, getElem?_map, Option.map_map]
    rfl
  | bytes data =>
    refine ⟨_, rfl, fun place => ?_⟩
    rw [elementAt, pairAt, getElem?_map, Option.map_map]
    by_cases inside : place < data.size
    · have inside' := inside
      rw [size_eq_length] at inside'
      rw [dif_pos inside, getElem?_eq_getElem inside']
      rfl
    · have outside := inside
      rw [size_eq_length, not_lt] at outside
      rw [dif_neg inside, getElem?_eq_none outside]
      rfl

theorem iterate_of_holds (holds : heap.Holds x items) :
    ∃ ref heap', iterate x heap = .ok (.iterator ref) heap' ∧ heap'.Runs ref items 0 := by
  obtain ⟨source, found, elements⟩ := elementAt_of_holds holds
  refine ⟨heap.iterators.size, (heap.newIterator { source }).2, ?_, source, none,
    Array.getElem?_push_size, elements⟩
  rw [iterate, found]
  rfl

/-- What a step of an iterator gives. -/
theorem Runs.step (runs : heap.Runs ref items place) :
    (heap.advance ref).1 = (pairAt items place).isSome ∧ (heap.advance ref).2.Runs ref items
      (place + 1) ∧ ∀ pair ∈ pairAt items place,
        ((heap.advance ref).2.currentKey ref, (heap.advance ref).2.currentValue ref) = pair := by
  obtain ⟨source, current, here, elements⟩ := runs
  have found : heap.iterator ref = { source, pos := place, current } := by
    rw [iterator, Array.getD_eq_getD_getElem?, here, getD_some]
  have step : heap.advance ref = ((pairAt items place).isSome,
      heap.setIterator ref { source, pos := place + 1, current := pairAt items place }) := by
    rw [advance, found]
    simp only [elements]
  have inside := (Array.getElem?_eq_some_iff.1 here).1
  have after {new : Iterator} : (heap.setIterator ref new).iterators[ref]? = some new :=
    Array.getElem?_setIfInBounds_self_of_lt inside
  rw [step]
  refine ⟨rfl, ⟨source, _, after, elements⟩, fun pair member => ?_⟩
  rw [currentKey, currentValue, iterator, Array.getD_eq_getD_getElem?, after, getD_some,
    mem_def.1 member]
  rfl

/-- By induction on the number of steps: an iterator gives what is left from its place on. -/
theorem Runs.drain (short : items.length < 2 ^ 63) (steps : Nat)
    (runs : heap.Runs ref items place) :
      drain ref steps heap = ((indexed items).drop place).take steps := by
  induction steps generalizing heap place with
  | zero => rfl
  | succ steps ih =>
    obtain ⟨more, later, current⟩ := runs.step
    have element := getElem?_indexed short place
    rw [Heap.drain, more]
    cases here : pairAt items place with
    | none =>
      rw [here, getElem?_eq_none_iff] at element
      rw [drop_eq_nil_of_le element]
      rfl
    | some pair =>
      rw [here] at element
      obtain ⟨inside, same⟩ := List.getElem?_eq_some_iff.1 element
      rw [drop_eq_getElem_cons inside, take_succ_cons, same, ← ih later, ← current pair here]
      rfl

/-! ## Slices -/

theorem sliceBound_eq (size default : Nat) (bound : Option Int64) :
    sliceBound size default (boundValue bound) = .ok (clampBound size default bound) := by
  cases bound with
  | none => rfl
  | some bound =>
    have below : bound < 0 ↔ bound.toInt < 0 := Int64.lt_iff_toInt_lt
    rw [boundValue, sliceBound, clampBound]
    by_cases low : bound.toInt < 0
    · rw [if_pos (below.2 low)]
      congr 1
      omega
    · rw [if_neg (low ∘ below.1)]
      congr 1
      omega

theorem sliceBounds_eq (size : Nat) (low high : Option Int64) :
    sliceBounds size (boundValue low) (boundValue high)
      = if clampBound size size high < clampBound size 0 low
        then .error (.sliceOrder (clampBound size 0 low) (clampBound size size high))
        else .ok (clampBound size 0 low, clampBound size size high) := by
  rw [sliceBounds, sliceBound_eq, sliceBound_eq]
  change (if clampBound size size high < clampBound size 0 low then _ else _) = _
  split <;> rfl

/-- The part of a sequence between two places, on the heap on which it lies. -/
def slice (heap : Heap) (start stop : Nat) : Value → Value × Heap
  | .array ref | .immutableArray ref => heap.newArray ((heap.array ref).extract start stop)
  | .string text => (.string (String.ofList (partOf text.toList start stop)), heap)
  | .bytes data => (.bytes (data.extract start stop), heap)
  | _ => (.undefined, heap)

theorem getSlice_eq (holds : heap.Holds x items) (low high : Option Int64) :
    getSlice x (boundValue low) (boundValue high) heap =
      if clampBound items.length items.length high < clampBound items.length 0 low
      then .error (.sliceOrder (clampBound items.length 0 low)
        (clampBound items.length items.length high)) heap
      else .ok (heap.slice (clampBound items.length 0 low)
        (clampBound items.length items.length high) x).1
        (heap.slice (clampBound items.length 0 low)
          (clampBound items.length items.length high) x).2 := by
  have bounds := sliceBounds_eq items.length low high
  generalize clampBound items.length 0 low = start at bounds ⊢
  generalize clampBound items.length items.length high = stop at bounds ⊢
  by_cases disorder : stop < start
  all_goals
    simp only [disorder, if_true, if_false] at bounds ⊢
    cases holds with
    | array here | immutableArray here =>
      rw [Array.length_toList, ← array_of_getElem? here] at bounds
      simp only [getSlice, resolve, bounds, slice]
    | string text =>
      rw [length_map, String.length_toList] at bounds
      simp only [getSlice, resolve, bounds, slice, partOf]
    | bytes data =>
      rw [length_map, ← size_eq_length] at bounds
      simp only [getSlice, resolve, bounds, slice]

theorem keepsArrays_slice (heap : Heap) (start stop : Nat) (x : Value) :
    heap.KeepsArrays (heap.slice start stop x).2 := by
  cases x with
  | array ref | immutableArray ref => exact keepsArrays_newArray heap _
  | _ => exact fun _ _ here => here

theorem holds_slice (holds : heap.Holds x items) (start stop : Nat) :
    (heap.slice start stop x).2.Holds (heap.slice start stop x).1 (partOf items start stop) := by
  have arrays {ref : Nat} {found : Array Value} (here : heap.arrays[ref]? = some found) :
      ((heap.array ref).extract start stop).toList = partOf found.toList start stop := by
    rw [array_of_getElem? here, Array.toList_extract, extract_eq_take_drop, partOf]
  cases holds with
  | array here | immutableArray here => exact arrays here ▸ holds_newArray heap _
  | string text =>
    have part : (String.ofList (partOf text.toList start stop)).toList.map Value.char
        = partOf (text.toList.map Value.char) start stop := by
      rw [String.toList_ofList, partOf, partOf, map_take, map_drop]
    exact part ▸ .string _
  | bytes data =>
    have part : (data.extract start stop).data.toList.map
        (fun byte => Value.int (Int64.ofNat byte.toNat))
        = partOf (data.data.toList.map fun byte => .int (Int64.ofNat byte.toNat)) start stop := by
      rw [ByteArray.data_extract, Array.toList_extract, extract_eq_take_drop, partOf, map_take,
        map_drop]
    exact part ▸ .bytes _

/-! ## Joining -/

theorem partOf_append {α : Type} (items : List α) (first : a ≤ b) (second : b ≤ c) :
    partOf items a b ++ partOf items b c = partOf items a c := by
  have rest : items.drop b = (items.drop a).drop (b - a) := by
    rw [drop_drop, Nat.add_sub_cancel' first]
  have sum : c - a = (b - a) + (c - b) := by omega
  rw [partOf, partOf, partOf, rest, sum, take_add]

theorem add_arrays {left right : Nat} {xs ys : Array Value} (first : heap.arrays[left]? = some xs)
    (second : heap.arrays[right]? = some ys) :
    binary .add (.array left) (.array right) heap
      = .ok (heap.newArray (xs ++ ys)).1 (heap.newArray (xs ++ ys)).2 := by
  rw [← array_of_getElem? first, ← array_of_getElem? second]
  rfl

theorem add_texts {left right : String}
    (limit : left.utf8ByteSize + right.utf8ByteSize ≤ maxTextSize) :
    binary .add (.string left) (.string right) heap = .ok (.string (left ++ right)) heap := by
  have joined : heap.scalarOperator .add (.string left) (.string right)
      = .ok (some (.string (left ++ right))) := congrArg (Except.map some) (if_neg (not_lt.2 limit))
  simp only [binary_eq, resolve, rightOperand, joined]
  rfl

theorem add_bytes {left right : ByteArray} (limit : left.size + right.size ≤ maxTextSize) :
    binary .add (.bytes left) (.bytes right) heap = .ok (.bytes (left ++ right)) heap := by
  have joined :
      heap.scalarOperator .add (.bytes left) (.bytes right) = .ok (some (.bytes (left ++ right))) :=
    if_neg (not_lt.2 limit)
  simp only [binary_eq, resolve, rightOperand, joined]
  rfl

/-- Two parts of a list are not longer than it is, as bytes. -/
theorem utf8ByteSize_parts (text : String) (first : a ≤ b) (second : b ≤ c) :
    (String.ofList (partOf text.toList a b)).utf8ByteSize
      + (String.ofList (partOf text.toList b c)).utf8ByteSize ≤ text.utf8ByteSize := by
  have whole : text = String.ofList (text.toList.take a) ++ (String.ofList (partOf text.toList a b)
      ++ String.ofList (partOf text.toList b c) ++
        String.ofList ((text.toList.drop a).drop (c - a))) := by
    rw [← String.ofList_append, ← String.ofList_append, ← String.ofList_append,
      partOf_append text.toList first second, partOf, take_append_drop, take_append_drop,
      String.ofList_toList]
  have sizes := congrArg String.utf8ByteSize whole
  simp only [String.utf8ByteSize_append] at sizes
  omega

/-- Two parts of a sequence, one behind the other. -/
theorem add_slices (holds : heap.Holds x items) (limit : x.WithinLimit) (first : a ≤ b)
    (second : b ≤ c) {later : Heap} (keeps : (heap.slice a b x).2.KeepsArrays later) :
    ∃ sum last, binary .add (heap.slice a b x).1 (later.slice b c x).1 (later.slice b c x).2
      = .ok sum last ∧
      (later.slice b c x).2.KeepsArrays last ∧ last.Holds sum (partOf items a c) := by
  have left := ((holds_slice holds a b).later keeps).later (keepsArrays_slice later b c x)
  have right := holds_slice ((holds.later (keepsArrays_slice heap a b x)).later keeps) b c
  rw [← partOf_append items first second]
  have arrays {ref ref' : Nat} {at_ : Heap} (left : at_.Holds (.array ref) (partOf items a b))
      (right : at_.Holds (.array ref') (partOf items b c)) :
      ∃ sum last, binary .add (.array ref) (.array ref') at_ = .ok sum last ∧ at_.KeepsArrays last ∧
        last.Holds sum (partOf items a b ++ partOf items b c) := by
    generalize partOf items a b = xs at left
    generalize partOf items b c = ys at right
    cases left with
    | array here =>
      cases right with
      | array there =>
        refine ⟨_, _, add_arrays here there, keepsArrays_newArray _ _, ?_⟩
        rw [← Array.toList_append]
        exact holds_newArray _ _
  cases holds with
  | array here | immutableArray here => exact arrays left right
  | string text =>
    refine ⟨_, _, add_texts (le_trans (utf8ByteSize_parts text first second) limit),
      fun _ _ here => here, ?_⟩
    have joined := partOf_append text.toList first second
    rw [partOf_append _ first second, ← String.ofList_append, joined]
    exact holds_slice (.string text) a c
  | bytes data =>
    have size : (data.extract a b).size + (data.extract b c).size ≤ data.size := by
      simp only [ByteArray.size_extract]
      omega
    refine ⟨_, _, add_bytes (le_trans size limit), fun _ _ here => here, ?_⟩
    have joined : data.extract a b ++ data.extract b c = data.extract a c := by
      rw [ByteArray.extract_append_extract, min_eq_left first, max_eq_right second]
    rw [partOf_append _ first second, joined]
    exact holds_slice (.bytes data) a c

/-! ## All views of a sequence -/

theorem clampBound_of_inside {default : Nat} {bound : Int64} (low : 0 ≤ bound.toInt)
    (high : bound.toInt ≤ size) : clampBound size default (some bound) = bound.toInt.toNat := by
  rw [clampBound, Int.min_eq_left high, Int.max_eq_right low]

theorem getD_partOf (inside : place < stop - start) :
    (partOf items start stop).getD place .undefined = items.getD (start + place) .undefined := by
  rw [partOf, getD_eq_getElem?_getD, getD_eq_getElem?_getD, getElem?_take_of_lt inside,
    getElem?_drop]

theorem length_partOf (inside : stop ≤ items.length) :
    (partOf items start stop).length = stop - start := by
  rw [partOf, length_take, length_drop]
  omega

/-- What is found at an index of a part is found behind its start in the whole. -/
theorem elementOf_partOf (short : items.length < 2 ^ 63) {start stop : Int64}
    (first : 0 ≤ start.toInt) (last : stop.toInt ≤ items.length) (low : 0 ≤ index.toInt)
    (high : index.toInt < stop.toInt - start.toInt) :
    elementOf (partOf items start.toInt.toNat stop.toInt.toNat) index = elementOf items
      (start + index) := by
  have sum : (start + index).toInt = start.toInt + index.toInt := by
    rw [Int64.toInt_add]
    apply Int.bmod_eq_of_le <;> omega
  have place : (start.toInt + index.toInt).toNat = start.toInt.toNat + index.toInt.toNat := by omega
  rw [elementOf, elementOf, sum, if_pos low, if_pos (Int.add_nonneg first low), place, getD_partOf]
  omega

theorem getSlice_inside (holds : heap.Holds x items) {low high : Int64} (first : 0 ≤ low.toInt)
    (order : low.toInt ≤ high.toInt) (last : high.toInt ≤ items.length) :
    getSlice x (.int low) (.int high) heap = .ok (heap.slice low.toInt.toNat high.toInt.toNat x).1
      (heap.slice low.toInt.toNat high.toInt.toNat x).2 := by
  have run := getSlice_eq holds (some low) (some high)
  rw [clampBound_of_inside first (Int.le_trans order last),
    clampBound_of_inside (Int.le_trans first order) last, if_neg (by omega)] at run
  exact run

/-- The views of a sequence agree. An iterator gives every index with its element, in order, and
stops; there is nothing at any other index; a slice holds the elements between its bounds, which are
moved into the sequence and have to be in order; and what is cut at a place can be joined again. -/
theorem views_agree (holds : heap.Holds x items) (short : items.length < 2 ^ 63)
    (limit : x.WithinLimit) : heap.length x = .ok items.length ∧
    (∃ ref started, iterate x heap = .ok (.iterator ref) started ∧
      ∀ steps, drain ref steps started = (indexed items).take steps) ∧
    (∀ index, getIndex x (.int index) heap = .ok (elementOf items index) heap) ∧
    (∀ low high, let start := clampBound items.length 0 low
      let stop := clampBound items.length items.length high
      if stop < start then
        getSlice x (boundValue low) (boundValue high) heap = .error (.sliceOrder start stop) heap
      else ∃ part later, getSlice x (boundValue low) (boundValue high) heap = .ok part later ∧
        later.Holds part (partOf items start stop)) ∧
    ∀ a b c : Int64, 0 ≤ a.toInt → a.toInt ≤ b.toInt → b.toInt ≤ c.toInt → c.toInt ≤ items.length →
      ∃ left heap₁ right heap₂ sum heap₃ whole heap₄,
        getSlice x (.int a) (.int b) heap = .ok left heap₁ ∧
        heap₁.length left = .ok (b.toInt - a.toInt).toNat ∧
        (∀ i : Int64, 0 ≤ i.toInt → i.toInt < b.toInt - a.toInt → getIndex left (.int i) heap₁
          = .ok (elementOf items (a + i)) heap₁) ∧
        getSlice x (.int b) (.int c) heap₁ = .ok right heap₂ ∧
        binary .add left right heap₂ = .ok sum heap₃ ∧
        getSlice x (.int a) (.int c) heap₃ = .ok whole heap₄ ∧
        heap₄.Holds sum (partOf items a.toInt.toNat c.toInt.toNat) ∧
        heap₄.Holds whole (partOf items a.toInt.toNat c.toInt.toNat) := by
  refine ⟨length_of_holds holds, ?_, getIndex_of_holds holds, fun low high => ?_,
    fun a b c first ab bc last => ?_⟩
  · obtain ⟨ref, started, run, runs⟩ := iterate_of_holds holds
    refine ⟨ref, started, run, fun steps => ?_⟩
    rw [runs.drain short, drop_zero]
  · have run := getSlice_eq holds low high
    dsimp only
    split <;> rename_i order
    · rw [run, if_pos order]
    · exact ⟨_, _, run.trans (if_neg order), holds_slice holds _ _⟩
  · have part := holds_slice holds a.toInt.toNat b.toInt.toNat
    have keeps := keepsArrays_slice heap a.toInt.toNat b.toInt.toNat x
    have holds₁ := holds.later keeps
    obtain ⟨sum, heap₃, joined, kept, joins⟩ := add_slices (a := a.toInt.toNat) (b := b.toInt.toNat)
      (c := c.toInt.toNat) holds limit (by omega) (by omega) (fun _ _ here => here)
    have holds₃ := (holds₁.later (keepsArrays_slice _ _ _ _)).later kept
    refine ⟨_, _, _, _, sum, heap₃, _, _, getSlice_inside holds first ab (Int.le_trans bc last), ?_,
      fun i low high => ?_, getSlice_inside holds₁ (Int.le_trans first ab) bc last, joined,
      getSlice_inside holds₃ first (Int.le_trans ab bc) last,
        joins.later (keepsArrays_slice _ _ _ _),
      holds_slice holds₃ _ _⟩
    · rw [length_of_holds part, length_partOf (by omega)]
      congr 1
      omega
    · rw [getIndex_of_holds part, elementOf_partOf short first (Int.le_trans bc last) low high]

/-- A text of two characters, one of which has two bytes. -/
theorem views_agree_text :
    ({} : Heap).Holds (.string (String.ofList ['a', 'é'])) [.char 'a', .char 'é'] ∧
    ∃ ref started, iterate (.string (String.ofList ['a', 'é'])) {} = .ok (.iterator ref) started ∧
      drain ref 9 started = [(.int 0, .char 'a'), (.int 1, .char 'é')] := by
  have holds : ({} : Heap).Holds (.string (String.ofList ['a', 'é'])) [.char 'a', .char 'é'] := by
    have text := @Holds.string {} (String.ofList ['a', 'é'])
    rwa [String.toList_ofList] at text
  have limit : (Value.string (String.ofList ['a', 'é'])).WithinLimit := by
    rw [Value.WithinLimit, String.utf8ByteSize_ofList]
    decide
  obtain ⟨-, ⟨ref, started, run, pairs⟩, -⟩ := views_agree holds (by decide) limit
  exact ⟨holds, ref, started, run, pairs 9⟩

end Heap

end Skiff
