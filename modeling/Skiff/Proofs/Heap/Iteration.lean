import Mathlib
import Skiff.Value.Collection
import Skiff.Value.Index
import Skiff.Value.Iterator

/-!
# Maps that change while they are iterated over

An iterator walks along the keys that its map had when the iterator was made, and looks each of them
up in the map as it is by then. So it shows some of these keys, each at most once and in their
order, whatever happens to the map in between.
-/

namespace Skiff

open List

namespace Heap

/-- What a program does while an iterator is in use. -/
inductive Touch where
  | next
  | set (object index item : Value)
  | delete (object key : Value)

/-- The heap that an operation leaves, also where it fails. -/
def leftBehind {α : Type} : EStateM.Result RuntimeError Heap α → Heap
  | .ok _ heap => heap
  | .error _ heap => heap

def Touch.run (it : Nat) (heap : Heap) : Touch → Heap
  | .next => (heap.advance it).2
  | .set object index item => leftBehind (setIndex object index item heap)
  | .delete object key => leftBehind (Heap.delete object key heap)

def after (it : Nat) (heap : Heap) (touches : List Touch) :
    Heap := touches.foldl (Touch.run it) heap

/-- What an iterator shows, one key and value for every step to an element. -/
def delivered (it : Nat) : Heap → List Touch → List (Value × Value)
  | _, [] => []
  | heap, touch :: rest =>
    let later := touch.run it heap
    match touch with
    | .next =>
      if (heap.advance it).1 then (later.currentKey it, later.currentValue it) :: delivered
        it later rest
      else delivered it later rest
    | _ => delivered it later rest

/-- A walk along keys. A step passes keys that the map does not have at that moment, up to one that
it has or to the end; nothing else moves on. -/
inductive Walks (map it : Nat) : List String → Heap → List Touch →
    List (String × Value) → Prop where
  | stop {left : List String} {heap : Heap} : Walks map it left heap [] []
  | found {passed left : List String} {key : String} {value : Value} {heap : Heap}
      {touches : List Touch}
      {entries : List (String × Value)}
        (absent : ∀ other ∈ passed, (heap.map map).get? other = none)
      (here : (heap.map map).get? key = some value)
      (rest : Walks map it left (Touch.next.run it heap) touches entries) :
      Walks map it (passed ++ key :: left) heap (.next :: touches) ((key, value) :: entries)
  | ended {left : List String} {heap : Heap} {touches : List Touch}
      {entries : List (String × Value)} (absent : ∀ other ∈ left, (heap.map map).get? other = none)
      (rest : Walks map it [] (Touch.next.run it heap) touches entries) :
      Walks map it left heap (.next :: touches) entries
  | other {left : List String} {heap : Heap} {touch : Touch} {touches : List Touch}
      {entries : List (String × Value)} (stays : touch ≠ .next)
      (rest : Walks map it left (touch.run it heap) touches entries) :
      Walks map it left heap (touch :: touches) entries

/-- An iterator over a map with some keys left to go. -/
structure Watches (map it : Nat) (left : List String) (heap : Heap) : Prop where
  inside : it < heap.iterators.size
  ahead : ∃ keys, (heap.iterator it).source = .map map keys ∧
    keys.toList.drop (heap.iterator it).pos = left

variable {map it : Nat} {left : List String} {heap : Heap} {touches : List Touch}

theorem Walks.sublist {entries : List (String × Value)}
    (walks : Walks map it left heap touches entries) : (entries.map Prod.fst).Sublist left := by
  induction walks with
  | stop => exact nil_sublist _
  | found _ _ _ ih => exact (ih.cons_cons _).trans (sublist_append_right ..)
  | ended _ _ ih => exact ih.trans (nil_sublist _)
  | other _ _ ih => exact ih

/-! ## One step -/

theorem nextKey_spec (dict : Dict Value) (keys : Array String) (pos : Nat) :
    ∃ passed, (∀ other ∈ passed, dict.get? other = none) ∧
      (((nextKey dict keys pos).2 = none ∧ keys.toList.drop pos = passed ∧
          keys.toList.drop (nextKey dict keys pos).1 = []) ∨
        ∃ key value, (nextKey dict keys pos).2 = some (.string key, value) ∧
          dict.get? key = some value ∧
          keys.toList.drop pos = passed ++ key :: keys.toList.drop (nextKey dict keys pos).1) := by
  fun_induction nextKey dict keys pos with
  | case1 pos inside value found =>
    refine ⟨[], by simp, .inr ⟨keys[pos], value, rfl, found, ?_⟩⟩
    rw [drop_eq_getElem_cons (by simpa using inside)]
    simp
  | case2 pos inside missing ih =>
    obtain ⟨passed, absent, last | ⟨key, value, entry, here, split⟩⟩ := ih
    · refine ⟨keys[pos] :: passed, forall_mem_cons.2 ⟨missing, absent⟩, .inl ⟨last.1, ?_, last.2.2⟩⟩
      rw [drop_eq_getElem_cons (by simpa using inside), last.2.1]
      simp
    · refine ⟨keys[pos] :: passed, forall_mem_cons.2 ⟨missing, absent⟩,
        .inr ⟨key, value, entry, here, ?_⟩⟩
      rw [drop_eq_getElem_cons (by simpa using inside), split]
      simp
  | case3 pos outside =>
    have length : keys.toList.length ≤ pos := by simpa using outside
    exact ⟨[], by simp, .inl ⟨rfl, drop_of_length_le length, drop_of_length_le (by omega)⟩⟩

theorem iterator_setIterator (inside : it < heap.iterators.size) (iterator : Iterator) :
    (heap.setIterator it iterator).iterator it = iterator := by
  simp [setIterator, Heap.iterator, inside]

/-- A step shows the first of the keys left that the map has, or it ends the walk. -/
theorem Watches.advance (watches : Watches map it left heap) :
    (∃ passed key value left', left = passed ++ key :: left' ∧
      (∀ other ∈ passed, (heap.map map).get? other = none) ∧ (heap.map map).get? key = some value ∧
      Watches map it left' (heap.advance it).2 ∧ (heap.advance it).1 = true ∧
      ((heap.advance it).2.iterator it).current = some (.string key, value)) ∨
    ((∀ other ∈ left, (heap.map map).get? other = none) ∧ Watches map it [] (heap.advance it).2 ∧
      (heap.advance it).1 = false ∧ ((heap.advance it).2.iterator it).current = none) := by
  obtain ⟨inside, keys, source, rfl⟩ := watches
  have inside' : it < (heap.advance it).2.iterators.size := by
    simpa [Heap.advance, setIterator] using inside
  obtain ⟨passed, absent, ⟨entry, rfl, last⟩ | ⟨key, value, entry, here, split⟩⟩ :=
    nextKey_spec (heap.map map) keys (heap.iterator it).pos
  · refine .inr ⟨absent, ⟨inside', keys, ?_⟩, ?_⟩ <;>
      simp [Heap.advance, iterator_setIterator inside, elementAt, source, entry, last]
  · refine .inl ⟨passed, key, value, _, split, absent, here, ⟨inside', keys, ?_⟩, ?_⟩ <;>
      simp [Heap.advance, iterator_setIterator inside, elementAt, source, entry]

theorem Touch.iterators_run {touch : Touch} (stays : touch ≠ .next) (it : Nat) (heap : Heap) :
    (touch.run it heap).iterators = heap.iterators := by
  cases touch with
  | next => exact absurd rfl stays
  | set object index item =>
    simp only [run]
    fun_cases setIndex object index item heap <;> rfl
  | delete object key =>
    simp only [run]
    fun_cases Heap.delete object key heap <;> rfl

theorem Touch.iterator_run {touch : Touch} (stays : touch ≠ .next) (it : Nat) (heap : Heap) :
    (touch.run it heap).iterator it = heap.iterator it := by
  rw [Heap.iterator, iterators_run stays, Heap.iterator]

theorem Watches.touch {touch : Touch} (watches : Watches map it left heap) (stays : touch ≠ .next) :
    Watches map it left (touch.run it heap) := by
  refine ⟨?_, ?_⟩
  · rw [Touch.iterators_run stays]
    exact watches.inside
  · rw [Touch.iterator_run stays]
    exact watches.ahead

/-! ## Whole runs -/

theorem Watches.walks (watches : Watches map it left heap) (touches : List Touch) :
    (∃ entries, delivered it heap touches = entries.map (fun entry => (.string entry.1, entry.2)) ∧
      Walks map it left heap touches entries) ∧
        ∃ left', Watches map it left' (after it heap touches) := by
  induction touches generalizing left heap with
  | nil => exact ⟨⟨[], rfl, .stop⟩, left, watches⟩
  | cons touch touches ih =>
    by_cases stays : touch = .next
    · subst stays
      rcases watches.advance with
        ⟨passed, key, value, left', rfl, absent, here, watches', found, current⟩ | ⟨absent,
          watches', found, -⟩
      · obtain ⟨⟨entries, shown, walks⟩, last⟩ := ih watches'
        refine ⟨⟨(key, value) :: entries, ?_, .found absent here walks⟩, last⟩
        simp only [delivered, Touch.run, found, if_pos, currentKey, currentValue, current, shown]
        rfl
      · obtain ⟨⟨entries, shown, walks⟩, last⟩ := ih watches'
        refine ⟨⟨entries, ?_, .ended absent walks⟩, last⟩
        simp only [delivered, Touch.run, found, shown]
        rfl
    · obtain ⟨⟨entries, shown, walks⟩, last⟩ := ih (watches.touch stays)
      refine ⟨⟨entries, ?_, .other stays walks⟩, last⟩
      cases touch with
      | next => exact absurd rfl stays
      | set | delete => exact shown

/-- An iterator that has come to its end. -/
structure Ended (map it : Nat) (heap : Heap) : Prop where
  watches : Watches map it [] heap
  current : (heap.iterator it).current = none

theorem Ended.run (ended : Ended map it heap) (touch : Touch) :
    Ended map it (touch.run it heap) := by
  by_cases stays : touch = .next
  · subst stays
    rcases ended.watches.advance with ⟨passed, key, _, left', split, -⟩ | ⟨-, watches, -, current⟩
    · exact absurd split (by simp)
    · exact ⟨watches, current⟩
  · refine ⟨ended.watches.touch stays, ?_⟩
    rw [Touch.iterator_run stays]
    exact ended.current

theorem Ended.runs (ended : Ended map it heap) (touches : List Touch) :
    Ended map it (after it heap touches) := by
  induction touches generalizing heap with
  | nil => exact ended
  | cons touch touches ih => exact ih (ended.run touch)

theorem Watches.ended (watches : Watches map it left heap)
    (finished : ((after it heap touches).advance it).1 = false) (later : List Touch) :
    Ended map it (after it heap (touches ++ .next :: later)) := by
  obtain ⟨-, left, watches⟩ := watches.walks touches
  rw [after, foldl_append, foldl_cons]
  refine Ended.runs ?_ later
  rcases watches.advance with ⟨_, _, _, _, -, -, -, -, found, -⟩ | ⟨-, watches', -, current⟩
  · exact absurd (finished.symm.trans found) Bool.false_ne_true
  · exact ⟨watches', current⟩

theorem Ended.advance (ended : Ended map it heap) : (heap.advance it).1 = false := by
  rcases ended.watches.advance with ⟨passed, key, _, left', split, -⟩ | ⟨-, -, found, -⟩
  · exact absurd split (by simp)
  · exact found

theorem watches_iterate {object : Value}
    (source : heap.resolve object = .map map ∨ heap.resolve object = .immutableMap map) :
    ∃ it start, iterate object heap = .ok (.iterator it) start ∧
      Watches map it (heap.map map).keys.toList start := by
  have keyed : heap.iterSource? object = some (.map map (heap.map map).keys) := by
    rcases source with found | found <;> simp [iterSource?, found]
  refine ⟨_, _, by rw [iterate, keyed]; rfl, by simp, (heap.map map).keys, ?_⟩
  simp [Heap.iterator]

/-- While a map changes, an iterator over it shows some of the keys that the map had at first, in
their order and without repetition, each with its value of that moment, and passes only what the map
does not have. After a step that finds nothing, it finds nothing for ever. -/
theorem map_iteration {object : Value}
    (source : heap.resolve object = .map map ∨ heap.resolve object = .immutableMap map) :
    ∃ it start, iterate object heap = .ok (.iterator it) start ∧ ∀ touches, ∃ entries,
      delivered it start touches = entries.map (fun entry => (.string entry.1, entry.2)) ∧
      Walks map it (heap.map map).keys.toList start touches entries ∧
      (entries.map Prod.fst).Sublist (heap.map map).keys.toList ∧ (entries.map Prod.fst).Nodup ∧
      entries.length ≤ (heap.map map).size ∧
      (((after it start touches).advance it).1 = false → ∀ later,
        let ever := after it start (touches ++ .next :: later)
        (ever.advance it).1 = false ∧ ever.currentKey it = .undefined ∧
          ever.currentValue it = .undefined) := by
  obtain ⟨it, start, made, watches⟩ := watches_iterate source
  refine ⟨it, start, made, fun touches => ?_⟩
  obtain ⟨⟨entries, shown, walks⟩, -⟩ := watches.walks touches
  have keys : (heap.map map).keys.toList = (heap.map map).entries.toList.map Prod.fst :=
    Array.toList_map
  refine ⟨entries, shown, walks, walks.sublist, ?_, ?_, fun finished later => ?_⟩
  · exact (keys ▸ (heap.map map).distinct).sublist walks.sublist
  · simpa [Dict.keys, Dict.size] using walks.sublist.length_le
  · have ended := watches.ended finished later
    exact ⟨ended.advance, by simp [currentKey, ended.current], by simp [currentValue,
      ended.current]⟩

/-- A map with two entries, behind a cell. -/
def twoEntries : Heap :=
  { maps := #[.ofList [("a", .int 1), ("b", .int 2)]], cells := #[.map 0] }

theorem twoEntries_iteration :
    twoEntries.resolve (.cell 0) = .map 0 ∧ ∃ it start, iterate (.cell 0) twoEntries = .ok
      (.iterator it) start ∧ ∃ entries : List (String × Value),
        delivered it start
          [.next, .delete (.map 0) (.string "b"), .set (.cell 0) (.string "c") .undefined, .next]
          = entries.map (fun entry => (.string entry.1, entry.2)) ∧
        (entries.map Prod.fst).Sublist (twoEntries.map 0).keys.toList := by
  have source : twoEntries.resolve (.cell 0) = .map 0 := rfl
  obtain ⟨it, start, made, all⟩ := map_iteration (.inl source)
  obtain ⟨entries, shown, -, some_, -⟩ := all _
  exact ⟨source, it, start, made, entries, shown, some_⟩

end Heap

end Skiff
