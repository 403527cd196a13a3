import Skiff.Proofs.Heap.Copy

/-!
# Values that share nothing

A value shares no container with its copy. An element write changes one container only, and adds to
what is reached from it only what is reached from the element. So what is written into one of two
values that are apart is not seen in the other one.
-/

namespace Skiff

open List

namespace Heap

/-- The containers that are reached from a value. -/
def storage (heap : Heap) (value : Value) : Set Container :=
  { container | ∃ inner, heap.Reaches value inner ∧ inner.container? = some container }

/-- Two values have been made on a heap and share no container. -/
structure Apart (heap : Heap) (left right : Value) : Prop where
  madeLeft : ∀ container ∈ heap.storage left, heap.Made container
  madeRight : ∀ container ∈ heap.storage right, heap.Made container
  disjoint : ∀ container ∈ heap.storage left, container ∉ heap.storage right

/-- The containers that are reached from a value hold later what they held. -/
def Untouched (heap last : Heap) (value : Value) : Prop :=
  ∀ container ∈ heap.storage value, last.view container = heap.view container

/-- Elements are written into containers that are reached from a value. Between the writes
containers may be made, and what is written shares nothing with another value. -/
inductive Writes (through other : Value) : Heap → Heap → Prop where
  | done {heap : Heap} : Writes through other heap heap
  | grow {heap next last : Heap} (grows : heap.Grows next) (rest : Writes through other next last) :
      Writes through other heap last
  | write {heap next last : Heap} {target index item : Value} {container : Container}
      (reach : heap.Reaches through target) (here : target.container? = some container)
      (apart : heap.Apart item other) (written : setIndex target index item heap = .ok () next)
      (rest : Writes through other next last) : Writes through other heap last

variable {base heap heap' last : Heap} {value copy inner : Value} {container : Container}

theorem Apart.symm {left right : Value} (apart : heap.Apart left right) : heap.Apart right left :=
  ⟨apart.madeRight, apart.madeLeft, fun container inside both =>
    apart.disjoint container both inside⟩

theorem parts_of_same
    (same : ∀ container ∈ value.container?, heap'.view container = heap.view container) :
    heap'.parts value = heap.parts value := by
  cases value with
  | array ref | immutableArray ref | map ref | immutableMap ref =>
    exact congrArg Prod.snd (same _ rfl)
  | _ => rfl

theorem Untouched.reaches_iff (untouched : heap.Untouched heap' value) :
    heap'.Reaches value inner ↔ heap.Reaches value inner := by
  refine ⟨fun reach => ?_, fun reach => ?_⟩
  · induction reach with
    | refl => exact .refl
    | @tail whole part _ member ih =>
      rw [parts_of_same fun container here => untouched container ⟨whole, ih, here⟩] at member
      exact ih.tail member
  · induction reach with
    | refl => exact .refl
    | @tail whole part reach member ih =>
      rw [← parts_of_same fun container here => untouched container ⟨whole, reach, here⟩] at member
      exact ih.tail member

theorem Untouched.storage (untouched : heap.Untouched heap' value) :
    heap'.storage value = heap.storage value := by
  ext container
  exact exists_congr fun inner => and_congr_left fun _ => untouched.reaches_iff

theorem Untouched.trans (first : heap.Untouched heap' value) (second : heap'.Untouched last value) :
    heap.Untouched last value :=
  fun container inside => (second container (first.storage ▸ inside)).trans (first container inside)

/-! ## Copies -/

theorem CopyOf.fresh (copyOf : base.CopyOf heap value copy)
    (here : copy.container? = some container) :
    ¬base.Made container ∧ heap.Made container ∧ copy = container.value := by
  cases copyOf with
  | leaf isLeaf =>
    exact absurd (container?_of_leaf isLeaf) (by rw [here]; exact Option.some_ne_none _)
  | error _ => cases here
  | @container _ _ new _ _ fresh made' =>
    obtain rfl : new = container := Option.some.inj ((container?_value new).symm.trans here)
    exact ⟨fresh, made', rfl⟩

theorem CopyOf.reaches (copyOf : base.CopyOf heap value copy) (reach : heap.Reaches copy inner) :
    ∃ original, base.CopyOf heap original inner := by
  induction reach with
  | refl => exact ⟨value, copyOf⟩
  | tail _ member ih =>
    obtain ⟨original, copyOf⟩ := ih
    cases copyOf with
    | leaf isLeaf =>
      rw [parts_of_leaf isLeaf] at member
      cases member
    | error inside =>
      cases mem_singleton.1 member
      exact ⟨_, inside⟩
    | @container _ old new _ _ _ _ alike items =>
      rw [parts_of_container (container?_value new)] at member
      obtain ⟨place, found⟩ := mem_iff_getElem?.1 member
      have inside : place < (heap.contents old).length :=
        alike.2 ▸ (List.getElem?_eq_some_iff.1 found).1
      exact ⟨_, items place _ _ (List.getElem?_eq_getElem inside) found⟩

/-- What was there keeps its containers when others are made. -/
theorem Finite.untouched (finite : base.Finite value) (grows : base.Grows heap) :
    base.Untouched heap value :=
  fun _ ⟨_, reach, here⟩ => grows.same (finite.made reach _ here)

theorem CopyOf.apart (finite : base.Finite value) (grows : base.Grows heap)
    (copyOf : base.CopyOf heap value copy) : heap.Apart value copy := by
  have old (container : Container) (inside : container ∈ heap.storage value) :
      base.Made container := by
    rw [(finite.untouched grows).storage] at inside
    obtain ⟨inner, reach, here⟩ := inside
    exact finite.made reach container here
  have new (container : Container) (inside : container ∈ heap.storage copy) :
      ¬base.Made container ∧ heap.Made container := by
    obtain ⟨inner, reach, here⟩ := inside
    obtain ⟨original, copyOf⟩ := copyOf.reaches reach
    exact ⟨(copyOf.fresh here).1, (copyOf.fresh here).2.1⟩
  exact ⟨fun container inside => grows.made (old container inside),
    fun container inside => (new container inside).2,
    fun container inside both => (new container both).1 (old container inside)⟩

/-! ## Writes -/

/-- An element write changes one container, which holds nothing new but the element. -/
structure Changes (heap heap' : Heap) (container : Container) (item : Value) : Prop where
  same : ∀ other, other ≠ container → heap'.view other = heap.view other
  made : ∀ other, heap.Made other → heap'.Made other
  items : ∀ part ∈ heap'.contents container, part ∈ heap.contents container ∨ part = item

theorem changes_modifyArray (heap : Heap) (ref place : Nat) (item : Value) :
    heap.Changes (heap.modifyArray ref fun items => items.setIfInBounds place item)
      (.array ref) item where
  same other different := by
    cases other with
    | array ref' =>
      have kept : (heap.modifyArray ref fun items => items.setIfInBounds place item).array ref'
          = heap.array ref' :=
        getD_modify_of (motive := (· = _)) rfl fun equal =>
          absurd (congrArg Container.array equal) different
      rw [view, view, kept]
    | map ref' => rfl
  made other made := by
    cases other with
    | array ref' => exact Nat.lt_of_lt_of_eq made (Array.size_modify ..).symm
    | map ref' => exact made
  items part := by
    refine getD_modify_of (motive := fun items : Array Value => part ∈ items.toList → _ ∨ _) .inl ?_
    intro _ member
    exact (Array.mem_or_eq_of_mem_setIfInBounds (Array.mem_def.2 member)).imp_left Array.mem_def.1

theorem changes_modifyMap (heap : Heap) (ref : Nat) (key : String) (item : Value) :
    heap.Changes (heap.modifyMap ref fun entries => entries.insert key item) (.map ref) item where
  same other different := by
    cases other with
    | array ref' => rfl
    | map ref' =>
      have kept : (heap.modifyMap ref fun entries => entries.insert key item).map ref'
          = heap.map ref' :=
        getD_modify_of (motive := (· = _)) rfl fun equal =>
          absurd (congrArg Container.map equal) different
      rw [view, view, kept]
  made other made := by
    cases other with
    | array ref' => exact made
    | map ref' => exact Nat.lt_of_lt_of_eq made (Array.size_modify ..).symm
  items part := by
    refine getD_modify_of (motive := fun dict : Dict Value =>
      part ∈ dict.entries.toList.map Prod.snd → _ ∨ _) .inl ?_
    intro _ member
    obtain ⟨entry, inside, rfl⟩ := mem_map.1 member
    rw [Dict.toList_insert] at inside
    rcases Dict.mem_insertEntry inside with rfl | old
    · exact .inr rfl
    · exact .inl (mem_map_of_mem old)

theorem changes_setIndex {target index item : Value} (here : target.container? = some container)
    (written : setIndex target index item heap = .ok () heap') :
      heap.Changes heap' container item := by
  cases target with
  | array ref =>
    cases here
    cases index with
    | int i =>
      simp only [setIndex, resolve] at written
      split at written
      · cases written
        exact changes_modifyArray ..
      · cases written
    | _ => cases written
  | map ref =>
    cases here
    cases index with
    | string key =>
      cases written
      exact changes_modifyMap ..
    | _ => cases written
  | immutableArray ref | immutableMap ref => cases written
  | _ => cases here

theorem reaches_of_write {target index item : Value} (here : target.container? = some container)
    (written : setIndex target index item heap = .ok () heap') (reach : heap'.Reaches value inner) :
    heap.Reaches value inner ∨ heap.Reaches item inner := by
  obtain ⟨same, _, items⟩ := changes_setIndex here written
  induction reach with
  | refl => exact .inl .refl
  | @tail whole part _ member ih =>
    by_cases changed : whole.container? = some container
    · rw [parts_of_container changed] at member
      rcases items part member with old | rfl
      · rw [← parts_of_container changed] at old
        exact ih.imp (fun reach => reach.tail old) fun reach => reach.tail old
      · exact .inr .refl
    · rw [parts_of_same fun other found => same other fun equal =>
        changed (equal ▸ found)] at member
      exact ih.imp (fun reach => reach.tail member) fun reach => reach.tail member

section Writes
variable {through other : Value}

theorem Apart.grow (apart : heap.Apart through other) (grows : heap.Grows heap') :
    heap.Untouched heap' other ∧ heap'.Apart through other := by
  have untouched : heap.Untouched heap' other := fun _ inside =>
      grows.same (apart.madeRight _ inside)
  have untouched' : heap.Untouched heap' through := fun _ inside =>
      grows.same (apart.madeLeft _ inside)
  exact ⟨untouched, fun _ inside => grows.made (apart.madeLeft _ (untouched'.storage ▸ inside)),
    fun _ inside => grows.made (apart.madeRight _ (untouched.storage ▸ inside)),
    fun _ inside both => apart.disjoint _ (untouched'.storage ▸ inside) (untouched.storage ▸ both)⟩

/-- One write into what is reached from a value: the other one is as before, and still apart. -/
theorem Apart.write (apart : heap.Apart through other) {target index item : Value}
    (reach : heap.Reaches through target) (here : target.container? = some container)
    (apart' : heap.Apart item other) (written : setIndex target index item heap = .ok () heap') :
    heap.Untouched heap' other ∧ heap'.Apart through other := by
  obtain ⟨same, made, _⟩ := changes_setIndex here written
  have untouched : heap.Untouched heap' other := by
    intro found inside
    refine same found ?_
    rintro rfl
    exact apart.disjoint _ ⟨target, reach, here⟩ inside
  have before (found : Container) (inside : found ∈ heap'.storage through) :
      found ∈ heap.storage through ∨ found ∈ heap.storage item := by
    obtain ⟨inner, reach, here'⟩ := inside
    exact (reaches_of_write here written reach).imp (fun reach => ⟨inner, reach, here'⟩)
      fun reach => ⟨inner, reach, here'⟩
  refine ⟨untouched, fun found inside => made found ?_,
    fun found inside => made found (apart.madeRight found (untouched.storage ▸ inside)),
    fun found inside both => ?_⟩
  · exact (before found inside).elim (apart.madeLeft found) (apart'.madeLeft found)
  · exact (before found inside).elim
      (fun inside => apart.disjoint found inside (untouched.storage ▸ both))
      fun inside => apart'.disjoint found inside (untouched.storage ▸ both)

/-- By induction on the writes: two values stay apart, so that no write reaches the other one. -/
theorem Writes.untouched (writes : Writes through other heap last)
    (apart : heap.Apart through other) : heap.Untouched last other := by
  induction writes with
  | done => exact fun _ _ => rfl
  | grow grows _ ih =>
    obtain ⟨untouched, apart⟩ := apart.grow grows
    exact untouched.trans (ih apart)
  | write reach here apart' written _ ih =>
    obtain ⟨untouched, apart⟩ := apart.write reach here apart' written
    exact untouched.trans (ih apart)

end Writes

/-- A copy leaves the heap as it is, is made of new mutable containers only, shares none with what
was copied, equals it unless there is a NaN in it, and neither sees what is written into the other
one. -/
theorem copy_separate (finite : heap.Finite value) :
    heap.Grows (heap.copy value).2 ∧
    (∀ inner, (heap.copy value).2.Reaches (heap.copy value).1 inner →
      ∀ container ∈ inner.container?, ¬heap.Made container ∧ inner = container.value) ∧
    (heap.copy value).2.Apart value (heap.copy value).1 ∧
    ((∀ x, heap.Reaches value (.float x) → x.isNaN = false) →
      (heap.copy value).2.equal (heap.copy value).1 value = true) ∧
    (∀ last, Writes value (heap.copy value).1 (heap.copy value).2 last →
      (heap.copy value).2.Untouched last (heap.copy value).1) ∧
    ∀ last, Writes (heap.copy value).1 value (heap.copy value).2 last →
      (heap.copy value).2.Untouched last value := by
  obtain ⟨grows, copyOf⟩ : CopiesTo heap heap value (heap.copy value) :=
    finite.nested.copied le_rfl (.refl heap)
  have apart := copyOf.apart finite grows
  refine ⟨grows,
    fun inner reach container here => ?_, apart, copyOf.equal finite.nested grows grows.depth,
    fun last writes => writes.untouched apart, fun last writes => writes.untouched apart.symm⟩
  obtain ⟨original, copyOf⟩ := copyOf.reaches reach
  exact ⟨(copyOf.fresh here).1, (copyOf.fresh here).2.2⟩

/-- A heap with an array that holds an array of one number twice. -/
def sharedItem : Heap := { arrays := #[#[.int 1], #[.array 0, .array 0]] }

theorem finite_sharedItem : sharedItem.Finite (.array 1) := by
  have number : sharedItem.Finite (.int 1) := .of_parts nofun nofun nofun
  have item : sharedItem.Finite (.array 0) := by
    refine .of_parts ?_ nofun fun part member => mem_singleton.1 member ▸ number
    rintro _ ⟨⟩
    exact Nat.zero_lt_two
  refine .of_parts ?_ nofun fun part member => ?_
  · rintro _ ⟨⟩
    exact Nat.one_lt_two
  · rcases mem_pair.1 member with rfl | rfl <;> exact item

theorem copy_separate_sharedItem : sharedItem.Finite (.array 1) ∧
    (sharedItem.copy (.array 1)).2.Apart (.array 1) (sharedItem.copy (.array 1)).1 :=
  ⟨finite_sharedItem, (copy_separate finite_sharedItem).2.2.1⟩

/-- A heap with an array of one number. -/
def oneItem : Heap := { arrays := #[#[.int 1]] }

theorem finite_oneItem : oneItem.Finite (.array 0) := by
  refine .of_parts ?_ nofun fun part member =>
    mem_singleton.1 member ▸ .of_parts nofun nofun nofun
  rintro _ ⟨⟩
  exact Nat.zero_lt_one

/-- A copy that has been stored in what was copied is reached through it and can be changed
there. -/
theorem stored_copy_changes : ∃ next last, oneItem.Finite (.array 0) ∧
    setIndex (.array 0) (.int 0) (oneItem.copy (.array 0)).1 (oneItem.copy (.array 0)).2
      = .ok () next ∧
    next.Reaches (.array 0) (oneItem.copy (.array 0)).1 ∧
    setIndex (oneItem.copy (.array 0)).1 (.int 0) (.int 9) next = .ok () last ∧
    ¬(oneItem.copy (.array 0)).2.Untouched last (oneItem.copy (.array 0)).1 := by
  have copied : oneItem.copy (.array 0) = (.array 1, { arrays := #[#[.int 1], #[.int 1]] }) := by
    simp [copy, oneItem, copyFrom, depth, reach, array, newArray]
  rw [copied]
  refine ⟨_, _, finite_oneItem, rfl, .single (mem_singleton_self _), rfl, fun untouched => ?_⟩
  have kept := untouched (.array 1) ⟨.array 1, .refl, rfl⟩
  simp [view, array, modifyArray] at kept

end Heap

end Skiff
