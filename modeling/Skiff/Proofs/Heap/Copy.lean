import Skiff.Proofs.Heap.Equality

/-!
# Copies

A copy is made of new containers, all of them mutable, that hold copies of what the old ones hold,
in as many places or under the same keys. So it is equal to what was copied.
-/

namespace Skiff

open List Array Nat Dict

namespace Heap

/-- A heap to which arrays and maps have been added. -/
structure Grows (heap heap' : Heap) : Prop where
  made {container : Container} : heap.Made container → heap'.Made container
  same {container : Container} : heap.Made container → heap'.view container = heap.view container
  rest : heap' = { heap with arrays := heap'.arrays, maps := heap'.maps }

variable {base heap heap' mid last : Heap} {value copy inner : Value}
  {container old new : Container}

theorem Grows.refl (heap : Heap) : heap.Grows heap := ⟨id, fun _ => rfl, rfl⟩

theorem Grows.trans (first : heap.Grows heap') (second : heap'.Grows last) : heap.Grows last where
  made := second.made ∘ first.made
  same made := (second.same (first.made made)).trans (first.same made)
  rest := by
    rw [second.rest, first.rest]

theorem Grows.contents (grows : heap.Grows heap') (made : heap.Made container) :
    heap'.contents container = heap.contents container :=
  congrArg Prod.snd (grows.same made)

theorem Grows.depth (grows : heap.Grows heap') : heap.depth ≤ heap'.depth := by
  have arrays : heap.arrays.size ≤ heap'.arrays.size :=
    Nat.le_of_not_lt fun less =>
      Nat.lt_irrefl _ (@Grows.made _ _ grows (.array heap'.arrays.size) less)
  have maps : heap.maps.size ≤ heap'.maps.size :=
    Nat.le_of_not_lt fun less => Nat.lt_irrefl _ (@Grows.made _ _ grows (.map heap'.maps.size) less)
  exact Nat.succ_le_succ (Nat.add_le_add arrays maps)

theorem grows_newArray (heap : Heap) (items : Array Value) :
    heap.Grows (heap.newArray items).2 where
  made {container} made := by
    cases container with
    | array ref => exact lt_of_lt_of_eq (lt_succ_of_lt made) (size_push ..).symm
    | map ref => exact made
  same {container} made := by
    cases container with
    | array ref =>
      simp [view, array, newArray, Array.getElem?_push_lt made, Array.getElem?_eq_getElem made]
    | map ref => rfl
  rest := rfl

theorem grows_newMap (heap : Heap) (entries : Dict Value) : heap.Grows (heap.newMap entries).2 where
  made {container} made := by
    cases container with
    | array ref => exact made
    | map ref => exact lt_of_lt_of_eq (lt_succ_of_lt made) (size_push ..).symm
  same {container} made := by
    cases container with
    | array ref => rfl
    | map ref =>
      simp [view, map, newMap, Array.getElem?_push_lt made, Array.getElem?_eq_getElem made]
  rest := rfl

/-! ## Copies -/

/-- Two containers have the same keys, if any, and hold as much. -/
def Alike (heap : Heap) (old new : Container) : Prop :=
  (heap.view old).1 = (heap.view new).1 ∧ (heap.contents old).length = (heap.contents new).length

/-- A value is a copy of another one, with containers that were not there on an earlier heap. -/
inductive CopyOf (base heap : Heap) : Value → Value → Prop where
  | leaf {value : Value} (isLeaf : value.isLeaf = true) : CopyOf base heap value value
  | error {value copy : Value} (inside : CopyOf base heap value copy) :
      CopyOf base heap (.error value) (.error copy)
  | container {value : Value} {old new : Container} (here : value.container? = some old)
      (made : heap.Made old) (fresh : ¬base.Made new) (made' : heap.Made new)
      (alike : heap.Alike old new)
      (items : ∀ (place : Nat) part copy, (heap.contents old)[place]? = some part →
        (heap.contents new)[place]? = some copy → CopyOf base heap part copy) :
      CopyOf base heap value new.value

theorem CopyOf.later (copyOf : base.CopyOf heap value copy) (grows : heap.Grows heap') :
    base.CopyOf heap' value copy := by
  induction copyOf with
  | leaf isLeaf => exact .leaf isLeaf
  | error _ ih => exact .error ih
  | container here made fresh made' alike _ ih =>
    refine .container here (grows.made made) fresh (grows.made made') ?_ ?_
    · rw [Alike, grows.contents made, grows.contents made', grows.same made, grows.same made']
      exact alike
    · rw [grows.contents made, grows.contents made']
      exact ih

/-- What copying a value on a heap leads to. -/
def CopiesTo (base heap : Heap) (value : Value) (copied : Value × Heap) : Prop :=
  heap.Grows copied.2 ∧ base.CopyOf copied.2 value copied.1

/-- Copying a value does not run out of levels, whatever has been added to a heap. -/
def Copied (base : Heap) (fuel : Nat) (value : Value) : Prop :=
  ∀ {heap}, base.Grows heap → CopiesTo base heap value (copyFrom fuel heap.reach value heap)

section Level
variable {fuel : Nat}

theorem copied_items (items : List Value) (inside : ∀ part ∈ items, base.Copied fuel part)
    {done : Array Value} {heap : Heap} (grows : base.Grows heap) :
    let copied := items.foldl (fun (done, heap) item =>
      let (item, heap) := copyFrom fuel heap.reach item heap
      (done.push item, heap)) (done, heap)
    heap.Grows copied.2 ∧ ∃ copies, copied.1.toList = done.toList ++ copies ∧
      Forall₂ (base.CopyOf copied.2) items copies := by
  induction items generalizing done heap with
  | nil => exact ⟨.refl heap, [], (append_nil _).symm, .nil⟩
  | cons item items ih =>
    obtain ⟨first, copyOf⟩ := inside item (mem_cons_self ..) grows
    obtain ⟨rest, copies, whole, copiesOf⟩ := @ih
      (fun part member => inside part (mem_cons_of_mem _ member))
      (done.push (copyFrom fuel heap.reach item heap).1) _ (grows.trans first)
    refine ⟨first.trans rest, _ :: copies, whole.trans ?_, .cons (copyOf.later rest) copiesOf⟩
    rw [Array.toList_push, List.append_assoc]
    rfl

theorem copied_entries (entries : List (String × Value))
    (inside : ∀ entry ∈ entries, base.Copied fuel entry.2)
    {done : Dict Value} {heap : Heap} (grows : base.Grows heap)
    (distinct : (done.entries.toList.map Prod.fst ++ entries.map Prod.fst).Nodup) :
    let copied := entries.foldl (fun (done, heap) (key, item) =>
      let (item, heap) := copyFrom fuel heap.reach item heap
      (insert done key item, heap)) (done, heap)
    heap.Grows copied.2 ∧ ∃ copies, copied.1.entries.toList = done.entries.toList ++ copies ∧
      Forall₂ (fun entry copy => entry.1 = copy.1 ∧ base.CopyOf copied.2 entry.2 copy.2)
        entries copies := by
  induction entries generalizing done heap with
  | nil => exact ⟨.refl heap, [], (append_nil _).symm, .nil⟩
  | cons entry entries ih =>
    obtain ⟨key, item⟩ := entry
    obtain ⟨first, copyOf⟩ := inside (key, item) (mem_cons_self ..) grows
    have missing : key ∉ done.entries.toList.map Prod.fst := by
      intro member
      exact (nodup_append.1 distinct).2.2 key member key (mem_cons_self ..) rfl
    have inserted := done.toList_insert key (copyFrom fuel heap.reach item heap).1
    rw [insertEntry_of_not_mem _ missing] at inserted
    obtain ⟨rest, copies, whole, copiesOf⟩ := @ih
      (fun part member => inside part (mem_cons_of_mem _ member))
      (done.insert key (copyFrom fuel heap.reach item heap).1) _ (grows.trans first)
      (by rw [inserted, List.map_append, List.append_assoc]; exact distinct)
    refine ⟨first.trans rest, (key, (copyFrom fuel heap.reach item heap).1) :: copies,
      whole.trans ?_, .cons ⟨rfl, copyOf.later rest⟩ copiesOf⟩
    rw [inserted, List.append_assoc]
    rfl

/-- A new container with copies, under the same keys, of what another one holds. -/
theorem copied_container (here : value.container? = some old) (made : base.Made old)
    (grows : base.Grows heap) (more : heap.Grows mid) (next : mid.Grows last)
    (fresh : ¬mid.Made new) (made' : last.Made new) (keys : (heap.view old).1 = (last.view new).1)
    (items : Forall₂ (base.CopyOf mid) (heap.contents old) (last.contents new)) :
    CopiesTo base heap value (new.value, last) := by
  have all := (more.trans next).same (grows.made made)
  have whole := (more.trans next).contents (grows.made made)
  refine ⟨more.trans next, .container here (((grows.trans more).trans next).made made)
    (fun old => fresh ((grows.trans more).made old)) made' ⟨all ▸ keys, ?_⟩
      fun place part copy found found' => ?_⟩
  · rw [whole]
    exact items.length_eq
  · rw [whole] at found
    obtain ⟨inside, rfl⟩ := List.getElem?_eq_some_iff.1 found
    obtain ⟨inside', rfl⟩ := List.getElem?_eq_some_iff.1 found'
    exact ((List.forall₂_iff_get.1 items).2 place inside inside').later next

theorem copied_array {ref : Nat} (here : value.container? = some (.array ref))
    (made : base.Made (.array ref)) (grows : base.Grows heap)
    (inside : ∀ part ∈ base.contents (.array ref), base.Copied fuel part) :
    let copied := (heap.array ref).toList.foldl (fun (done, heap) item =>
      let (item, heap) := copyFrom fuel heap.reach item heap
      (done.push item, heap)) (#[], heap)
    CopiesTo base heap value (copied.2.newArray copied.1) := by
  intro copied
  rw [← grows.contents made] at inside
  obtain ⟨more, copies, whole, copiesOf⟩ := @copied_items _ _ _ inside #[] _ grows
  have items : (copied.2.newArray copied.1).2.contents (.array copied.2.arrays.size) = copies := by
    have all : copied.1.toList = copies := whole
    simp [contents, view, array, newArray, all]
  refine @copied_container _ _ _ (copied.2.newArray copied.1).2 _ _
    (.array copied.2.arrays.size) here made
    grows more (grows_newArray copied.2 copied.1) (lt_irrefl _)
    (lt_of_lt_of_eq (lt_succ_self _) (size_push ..).symm) rfl ?_
  rw [items]
  exact copiesOf

theorem copied_map {ref : Nat} (here : value.container? = some (.map ref))
    (made : base.Made (.map ref))
    (grows : base.Grows heap) (inside : ∀ part ∈ base.contents (.map ref), base.Copied fuel part) :
    let copied := (heap.map ref).entries.toList.foldl (fun (done, heap) (key, item) =>
      let (item, heap) := copyFrom fuel heap.reach item heap
      (insert done key item, heap)) (empty, heap)
    CopiesTo base heap value (copied.2.newMap copied.1) := by
  intro copied
  rw [← grows.contents made] at inside
  obtain ⟨more, copies, whole, copiesOf⟩ := @copied_entries _ _ _
    (fun entry member => inside entry.2 (mem_map_of_mem member)) empty _ grows
      (heap.map ref).distinct
  have items : (copied.2.newMap copied.1).2.view (.map copied.2.maps.size)
      = (some (copies.map Prod.fst), copies.map Prod.snd) := by
    have all : copied.1.entries.toList = copies := whole
    simp [view, map, newMap, all]
  refine @copied_container _ _ _ (copied.2.newMap copied.1).2 _ _
    (.map copied.2.maps.size) here made grows more (grows_newMap copied.2 copied.1) (lt_irrefl _)
    (lt_of_lt_of_eq (lt_succ_self _) (size_push ..).symm) ?_ ?_
  · rw [items]
    exact congrArg some (forall₂_eq_eq_eq ▸ forall₂_map_left_iff.2
      (forall₂_map_right_iff.2 (copiesOf.imp fun _ _ both => both.1)))
  · rw [contents, contents, items]
    exact forall₂_map_left_iff.2 (forall₂_map_right_iff.2 (copiesOf.imp fun _ _ both => both.2))

end Level

/-- By induction on the nesting: copying does not run out of levels. -/
theorem Nested.copied {depth : Nat} (nested : base.Nested depth value) {fuel cells : Nat}
    (enough : depth ≤ fuel) (grows : base.Grows heap) :
    CopiesTo base heap value (copyFrom fuel cells value heap) := by
  induction nested generalizing fuel cells heap with
  | @leaf _ value isLeaf =>
    have kept : copyFrom fuel cells value heap = (value, heap) := by
      cases value with
      | array ref | immutableArray ref | map ref | immutableMap ref | error inner | cell ref =>
        cases isLeaf
      | _ => rw [copyFrom] <;> simp
    rw [kept]
    exact ⟨.refl heap, .leaf isLeaf⟩
  | error _ ih =>
    rw [copyFrom]
    obtain ⟨more, copyOf⟩ := ih enough grows
    exact ⟨more, .error copyOf⟩
  | @container depth value container here made _ ih =>
    obtain ⟨fuel, rfl⟩ := Nat.exists_eq_add_of_le' (Nat.zero_lt_of_lt enough)
    have inside (part : Value) (member : part ∈ base.contents container) : base.Copied fuel part :=
      ih part member (by omega)
    cases value with
    | array ref | immutableArray ref =>
      cases here
      rw [copyFrom]
      exact copied_array rfl made grows inside
    | map ref | immutableMap ref =>
      cases here
      rw [copyFrom]
      exact copied_map rfl made grows inside
    | _ => cases here

/-! ## Equality -/

variable {fuel : Nat}

theorem container?_value (container : Container) : container.value.container? = some container := by
  cases container <;> rfl

/-- What is found in two of them by one place or key stands in one place. -/
theorem Alike.lookUp (alike : heap.Alike old new) : new.isMap = old.isMap ∧
    (∀ place, (heap.lookUp new place).isSome = (heap.lookUp old place).isSome) ∧
    ∀ place copy part, heap.lookUp new place = some copy → heap.lookUp old place = some part →
      ∃ i : Nat, (heap.contents new)[i]? = some copy ∧ (heap.contents old)[i]? = some part := by
  cases old with
  | array a =>
    cases new with
    | map b => cases alike.1
    | array b =>
      refine ⟨rfl, ?_, ?_⟩
      · rintro (place | key)
        · exact size_eq_iff.1 alike.2.symm place
        · rfl
      · rintro (place | key) copy part found found'
        · exact ⟨place, getElem?_toList.trans found, getElem?_toList.trans found'⟩
        · cases found
  | map a =>
    cases new with
    | array b => cases alike.1
    | map b =>
      have keys : (heap.map b).entries.toList.map Prod.fst
          = (heap.map a).entries.toList.map Prod.fst :=
        (Option.some.inj alike.1).symm
      refine ⟨rfl, ?_, ?_⟩
      · rintro (place | key)
        · rfl
        · exact Bool.eq_iff_iff.2 (isSome_get?_iff.trans (keys ▸ isSome_get?_iff.symm))
      · rintro (place | key) copy part found found'
        · cases found
        · obtain ⟨i, here⟩ := mem_iff_getElem?.1 (get?_eq_some_iff.1 found)
          have there := congrArg (·[i]?) keys
          simp only [List.getElem?_map, here, Option.map_some] at there
          obtain ⟨other, beside, rfl⟩ := Option.map_eq_some_iff.1 there.symm
          cases found'.symm.trans (Dict.get?_of_mem (List.mem_of_getElem? beside))
          exact ⟨i, by simp [contents, view, here], by simp [contents, view, beside]⟩

/-- By induction on the nesting, which a comparison follows as the copy was made. -/
theorem CopyOf.equal {depth : Nat} (nested : base.Nested depth value) (grows : base.Grows heap)
    (copyOf : base.CopyOf heap value copy) (enough : depth ≤ fuel)
    (numbers : ∀ x, base.Reaches value (.float x) → x.isNaN = false) :
    heap.equalFrom fuel copy value = true := by
  rw [equalFrom_iff]
  induction nested generalizing copy fuel with
  | @leaf _ value isLeaf =>
    cases copyOf with
    | leaf _ =>
      cases value with
      | array ref | immutableArray ref | map ref | immutableMap ref | error inner => cases isLeaf
      | float x => exact .float (Double.sameNumber_self (numbers x .refl))
      | host _ _ => exact .host
      | _ => exact .alone rfl
    | error _ => cases isLeaf
    | container here =>
      exact absurd (container?_of_leaf isLeaf) (by rw [here]; exact Option.some_ne_none _)
  | error _ ih =>
    cases copyOf with
    | leaf isLeaf => cases isLeaf
    | error inside =>
      exact .error (ih inside enough fun x reach => numbers x (.head (mem_singleton_self _) reach))
    | container here => cases here
  | @container depth value old here made _ ih =>
    cases copyOf with
    | leaf isLeaf =>
      exact absurd (container?_of_leaf isLeaf) (by rw [here]; exact Option.some_ne_none _)
    | error _ => cases here
    | @container _ old' new here' _ _ _ alike items =>
      obtain rfl : old = old' := Option.some.inj (here.symm.trans here')
      obtain ⟨fuel, rfl⟩ := Nat.exists_eq_add_of_le' (Nat.zero_lt_of_lt enough)
      obtain ⟨kind, places, find⟩ := alike.lookUp
      refine .contents (container?_value new) here kind places fun place copy part found found' =>
        ?_
      obtain ⟨i, found, found'⟩ := find place copy part found found'
      have member : part ∈ base.contents old := grows.contents made ▸ mem_of_getElem? found'
      refine ih part member (items i part copy found' found) (by omega) fun x reach => ?_
      exact numbers x (.head (parts_of_container here ▸ member) reach)

end Heap

end Skiff
