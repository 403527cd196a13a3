import Skiff.Proofs.Heap.Dict
import Skiff.Value.Basic

/-!
# Corresponding heaps

Two heaps correspond if they hold the same objects, up to which functions and cells their values
refer to. What may differ is said by a link. Operations on values do the same on corresponding
heaps, whatever the link is; three kinds of it matter: functions renamed, functions that are known
to be good, and heaps without any cells beside heaps with them.
-/

namespace Skiff

open List Array Heap Value Dict

/-- How the functions and cells of one heap correspond to those of another. -/
structure Link where
  function : Nat → Nat → Prop
  cell : Nat → Nat → Prop
  /-- The builtins, host functions, methods, iterators, routines and channels that may occur. -/
  handle : Value → Prop

namespace Value

/-- Values that are the same in corresponding heaps. -/
def isData : Value → Bool
  | undefined | bool _ | int _ | float _ | char _ | string _ | bytes _ | array _
  | immutableArray _ | map _ | immutableMap _ | time _ => true
  | _ => false

/-- Values that stand for something to call, to run over or to wait for. -/
def isHandle : Value → Bool
  | builtin _ | host .. | method _ | iterator _ | routine _ | channel _ => true
  | _ => false

end Value

/-- Values of corresponding heaps that correspond. -/
inductive ValueRel (link : Link) : Value → Value → Prop where
  | data {value : Value} (data : value.isData = true) : ValueRel link value value
  | handle {value : Value} (handle : value.isHandle = true) (known : link.handle value) :
      ValueRel link value value
  | error {inner inner' : Value} (same : ValueRel link inner inner') :
      ValueRel link (.error inner) (.error inner')
  | function {ref ref' : Nat} (same : link.function ref ref') :
      ValueRel link (.function ref) (.function ref')
  | cell {ref ref' : Nat} (same : link.cell ref ref') : ValueRel link (.cell ref) (.cell ref')

/-- Corresponding values by kinds: all but errors, functions and cells are the same. -/
@[elab_as_elim]
theorem ValueRel.kinds {link : Link}
    {motive : (value value' : Value) → ValueRel link value value' → Prop}
    (undefined : ∀ h, motive .undefined .undefined h) (bool : ∀ b h, motive (.bool b) (.bool b) h)
    (int : ∀ n h, motive (.int n) (.int n) h) (float : ∀ x h, motive (.float x) (.float x) h)
    (char : ∀ c h, motive (.char c) (.char c) h) (string : ∀ s h, motive (.string s) (.string s) h)
    (bytes : ∀ b h, motive (.bytes b) (.bytes b) h)
    (array : ∀ ref h, motive (.array ref) (.array ref) h)
    (immutableArray : ∀ ref h, motive (.immutableArray ref) (.immutableArray ref) h)
    (map : ∀ ref h, motive (.map ref) (.map ref) h)
    (immutableMap : ∀ ref h, motive (.immutableMap ref) (.immutableMap ref) h)
    (time : ∀ t h, motive (.time t) (.time t) h)
    (builtin : ∀ b h, motive (.builtin b) (.builtin b) h)
    (host : ∀ ref name h, motive (.host ref name) (.host ref name) h)
    (method : ∀ ref h, motive (.method ref) (.method ref) h)
    (iterator : ∀ ref h, motive (.iterator ref) (.iterator ref) h)
    (routine : ∀ ref h, motive (.routine ref) (.routine ref) h)
    (channel : ∀ ref h, motive (.channel ref) (.channel ref) h)
    (error : ∀ {inner inner'} same, motive inner inner' same →
      motive (.error inner) (.error inner') (.error same))
    (function : ∀ {ref ref'} same, motive (.function ref) (.function ref') (.function same))
    (cell : ∀ {ref ref'} same, motive (.cell ref) (.cell ref') (.cell same))
    {value value' : Value} (same : ValueRel link value value') : motive value value' same := by
  induction same with
  | @data value kind | @handle value kind =>
    cases value <;> first | exact absurd kind Bool.false_ne_true | solve_by_elim
  | error same ih => exact error same ih
  | function same => exact function same
  | cell same => exact cell same

/-- A link that neither joins nor splits functions and cells, and under which whatever values can
make is known. -/
structure Link.Faithful (link : Link) : Prop where
  function {a a' b b' : Nat} : link.function a a' → link.function b b' → (a = b ↔ a' = b')
  cell {a a' b b' : Nat} : link.cell a a' → link.cell b b' → (a = b ↔ a' = b')
  iterator (ref : Nat) : link.handle (.iterator ref)
  routineMethod {ref : Nat} (method : Nat) :
    link.handle (.routine ref) → link.handle (.method method)
  channelMethod {ref : Nat} (method : Nat) :
    link.handle (.channel ref) → link.handle (.method method)

/-- A link in which the same cells correspond and possibly more functions. -/
structure Link.Within (link wider : Link) : Prop where
  function {ref ref' : Nat} : link.function ref ref' → wider.function ref ref'
  cell : link.cell = wider.cell
  handle {value : Value} : link.handle value → wider.handle value

/-- Sequences of values that correspond. -/
def ItemsRel (link : Link) (items items' : Array Value) : Prop :=
  Forall₂ (ValueRel link) items.toList items'.toList

/-- Dictionaries with the same keys in the same order. -/
def DictRel (link : Link) (dict dict' : Dict Value) : Prop :=
  Forall₂ (fun entry entry' => entry.1 = entry'.1 ∧ ValueRel link entry.2 entry'.2)
    dict.entries.toList dict'.entries.toList

/-- What two iterators are at. -/
inductive CurrentRel (link : Link) : Option (Value × Value) → Option (Value × Value) → Prop where
  | none : CurrentRel link none none
  | some {key key' value value' : Value} (sameKey : ValueRel link key key')
      (sameValue : ValueRel link value value') :
      CurrentRel link (some (key, value)) (some (key', value'))

structure IteratorRel (link : Link) (iterator iterator' : Iterator) : Prop where
  source : iterator.source = iterator'.source
  pos : iterator.pos = iterator'.pos
  current : CurrentRel link iterator.current iterator'.current

/-- The functions and cells of a heap, and nothing else. -/
def Heap.core (heap : Heap) : Heap := { functions := heap.functions, cells := heap.cells }

/-- Heaps that correspond. Whatever is known of their functions and cells stays known. -/
structure HeapRel (link : Link) (core : Heap → Heap → Prop) (heap heap' : Heap) : Prop where
  arrays : Forall₂ (ItemsRel link) heap.arrays.toList heap'.arrays.toList
  maps : Forall₂ (DictRel link) heap.maps.toList heap'.maps.toList
  iterators : Forall₂ (IteratorRel link) heap.iterators.toList heap'.iterators.toList
  methods : heap.methods = heap'.methods
  cell {ref ref' : Nat} : link.cell ref ref' → ValueRel link (heap.cell ref) (heap'.cell ref')
  reach {ref ref' : Nat} : link.cell ref ref' → heap.reach = heap'.reach
  core : core heap.core heap'.core

/-! ## Sequences -/

section Sequences
variable {α β : Type} {rel : α → β → Prop}

variable {items : Array α} {items' : Array β} {item default : α} {item' default' : β}
  {change : α → α} {change' : β → β}

theorem forall₂_size (same : Forall₂ rel items.toList items'.toList) :
    items.size = items'.size := by
  simpa using same.length_eq

theorem forall₂_getElem? {items : List α} {items' : List β} (same : Forall₂ rel items items')
    (place : Nat) : Option.Rel rel items[place]? items'[place]? := by
  induction same generalizing place with
  | nil => exact .none
  | cons first _ ih =>
    cases place with
    | zero => exact .some first
    | succ place => exact ih place

theorem forall₂_getD (same : Forall₂ rel items.toList items'.toList) (place : Nat)
    (outside : rel default default') :
      rel (items.getD place default) (items'.getD place default') := by
  rw [getD_eq_getD_getElem?, getD_eq_getD_getElem?, ← getElem?_toList,
    ← getElem?_toList]
  have found := forall₂_getElem? same place
  generalize items.toList[place]? = here, items'.toList[place]? = here' at found ⊢
  cases found with
  | none => exact outside
  | some same => exact same

theorem map_eq_map_of_forall₂ {γ : Type} {items : List α} {items' : List β}
    (same : Forall₂ rel items items') {f : α → γ} {g : β → γ}
    (each : ∀ {item item'}, rel item item' → f item = g item') : items.map f = items'.map g := by
  induction same with
  | nil => rfl
  | cons first _ ih => rw [map_cons, map_cons, each first, ih]

theorem forall₂_set {items : List α} {items' : List β} (same : Forall₂ rel items items')
    (place : Nat)
    (new : rel item item') : Forall₂ rel (items.set place item) (items'.set place item') := by
  induction same generalizing place with
  | nil => exact .nil
  | cons first rest ih =>
    cases place with
    | zero => exact .cons new rest
    | succ place => exact .cons first (ih place)

theorem forall₂_setIfInBounds (same : Forall₂ rel items.toList items'.toList) (place : Nat)
    (new : rel item item') :
    Forall₂ rel (items.setIfInBounds place item).toList
      (items'.setIfInBounds place item').toList := by
  rw [toList_setIfInBounds, toList_setIfInBounds]
  exact forall₂_set same place new

theorem modify_eq_setIfInBounds (items : Array α) (place : Nat) (change : α → α) (default : α) :
    items.modify place change = items.setIfInBounds place (change (items.getD place default)) := by
  apply ext (by simp)
  intro index inside _
  rw [size_modify] at inside
  rw [Array.getElem_modify, Array.getElem_setIfInBounds (by simpa using inside)]
  by_cases here : place = index
  · subst here
    simp [inside]
  · rw [if_neg here, if_neg here]

section
variable (same : Forall₂ rel items.toList items'.toList)
include same

theorem forall₂_modify (place : Nat)
    (changed : rel (change (items.getD place default)) (change' (items'.getD place default'))) :
    Forall₂ rel (items.modify place change).toList (items'.modify place change').toList := by
  rw [modify_eq_setIfInBounds items place change default,
    modify_eq_setIfInBounds items' place change' default']
  exact forall₂_setIfInBounds same place changed

/-- A change that keeps the relation, whatever it is made to. -/
theorem forall₂_modify_each (place : Nat)
    (changes : ∀ {item item'}, items[place]? = some item → rel item item' →
    rel (change item) (change' item')) :
    Forall₂ rel (items.modify place change).toList (items'.modify place change').toList := by
  refine forall₂_iff_get.2 ⟨by simpa using same.length_eq, fun index inside inside' => ?_⟩
  rw [length_toList, size_modify] at inside inside'
  have here := (List.forall₂_iff_get.1 same).2 index (by simpa using inside)
      (by simpa using inside')
  simp only [List.get_eq_getElem, Array.getElem_toList, Array.getElem_modify] at here ⊢
  split
  · rename_i at_
    subst at_
    exact changes (getElem?_eq_getElem inside) here
  · exact here

theorem forall₂_push (new : rel item item') :
    Forall₂ rel (items.push item).toList (items'.push item').toList := by
  rw [toList_push, toList_push]
  exact rel_append same (.cons new .nil)

theorem forall₂_extract (start stop : Nat) :
    Forall₂ rel (items.extract start stop).toList (items'.extract start stop).toList := by
  rw [toList_extract, toList_extract, extract_eq_take_drop,
    extract_eq_take_drop]
  exact forall₂_take _ (forall₂_drop start same)

theorem forall₂_append {more : Array α} {more' : Array β}
    (behind : Forall₂ rel more.toList more'.toList) :
    Forall₂ rel (items ++ more).toList (items' ++ more').toList := by
  rw [toList_append, toList_append]
  exact rel_append same behind

end

theorem forall₂_replicate (count : Nat) (same : rel item item') :
    List.Forall₂ rel (Array.replicate count item).toList (Array.replicate count item').toList := by
  rw [toList_replicate, toList_replicate]
  exact List.forall₂_iff_get.2 ⟨by simp, fun i _ _ => by simpa using same⟩

section
variable (same : Forall₂ rel items.toList items'.toList)
include same

theorem forall₂_back? : Option.Rel rel items.back? items'.back? := by
  rw [back?, back?, forall₂_size same, ← getElem?_toList, ← getElem?_toList]
  exact forall₂_getElem? same _

theorem forall₂_pop : Forall₂ rel items.pop.toList items'.pop.toList := by
  rw [toList_pop, toList_pop, dropLast_eq_take, dropLast_eq_take,
    same.length_eq]
  exact forall₂_take _ same

end

end Sequences

/-! ## Values -/

variable {value value' : Value} {wider : Link}

namespace ValueRel

variable {link : Link} {value value' : Value}

@[simp] theorem undefined : ValueRel link .undefined .undefined := .data rfl
@[simp] theorem bool (b : Bool) : ValueRel link (.bool b) (.bool b) := .data rfl
@[simp] theorem int (n : Int64) : ValueRel link (.int n) (.int n) := .data rfl
@[simp] theorem float (x : Double) : ValueRel link (.float x) (.float x) := .data rfl
@[simp] theorem char (c : Char) : ValueRel link (.char c) (.char c) := .data rfl
@[simp] theorem string (s : String) : ValueRel link (.string s) (.string s) := .data rfl
@[simp] theorem bytes (b : ByteArray) : ValueRel link (.bytes b) (.bytes b) := .data rfl
@[simp] theorem time (t : Instant) : ValueRel link (.time t) (.time t) := .data rfl
@[simp] theorem array (ref : Nat) : ValueRel link (.array ref) (.array ref) := .data rfl
@[simp] theorem map (ref : Nat) : ValueRel link (.map ref) (.map ref) := .data rfl

section
variable (same : ValueRel link value value')
include same

theorem type_eq : value.type = value'.type := by
  cases same <;> rfl

theorem isCallable_eq : value.isCallable = value'.isCallable := by
  cases same <;> rfl

theorem isIterable_eq : value.isIterable = value'.isIterable := by
  cases same <;> rfl

/-- The read-only views of corresponding values correspond. -/
theorem immutable : ValueRel link value.immutable value'.immutable := by
  cases same using ValueRel.kinds with
  | error same => exact .error same
  | function same => exact .function same
  | cell same => exact .cell same
  | _ => first | exact .data rfl | assumption

/-- Cells correspond to cells. -/
theorem cell_or :
    (∃ ref ref', link.cell ref ref' ∧ value = .cell ref ∧ value' = .cell ref') ∨
      (value.type ≠ .cell ∧ value'.type ≠ .cell) := by
  cases same using ValueRel.kinds with
  | cell same => exact .inl ⟨_, _, same, rfl, rfl⟩
  | _ => exact .inr ⟨by simp [type], by simp [type]⟩

end

/-- More functions may correspond. -/
theorem mono (within : link.Within wider) (same : ValueRel link value value') :
    ValueRel wider value value' := by
  induction same with
  | data data => exact .data data
  | handle handle known => exact .handle handle (within.handle known)
  | error _ ih => exact .error ih
  | function same => exact .function (within.function same)
  | cell same => exact .cell (within.cell ▸ same)

/-- A faithful link neither joins nor splits values. -/
theorem eq_iff (faithful : link.Faithful) {other other' : Value} (left : ValueRel link value value')
    (right : ValueRel link other other') : value = other ↔ value' = other' := by
  induction left generalizing other other' with
  | @data value kind | @handle value kind _ =>
    cases right with
    | data _ | handle _ _ => rfl
    | error _ | function _ | cell _ =>
      cases value <;> first | exact absurd kind Bool.false_ne_true | simp
  | error _ ih =>
    cases right using ValueRel.kinds with
    | error same => rw [Value.error.injEq, Value.error.injEq, ih same]
    | _ => simp
  | function same | cell same =>
    cases right using ValueRel.kinds with
    | function same' | cell same' => first
      | rw [Value.function.injEq, Value.function.injEq, faithful.function same same']
      | rw [Value.cell.injEq, Value.cell.injEq, faithful.cell same same']
      | simp
    | _ => simp

end ValueRel

/-! ## Dictionaries -/

namespace DictRel

variable {link : Link} {dict dict' : Dict Value}

theorem empty : DictRel link .empty .empty := .nil

section
variable (same : DictRel link dict dict')
include same

theorem size_eq : dict.size = dict'.size := forall₂_size same

theorem keys_eq : dict.keys = dict'.keys := by
  apply toList_inj.1
  simp only [Dict.keys, toList_map]
  exact map_eq_map_of_forall₂ same fun entries => entries.1

theorem get? (key : String) : Option.Rel (ValueRel link) (dict.get? key) (dict'.get? key) := by
  rw [get?_eq, get?_eq]
  unfold DictRel at same
  generalize dict.entries.toList = entries, dict'.entries.toList = entries' at same ⊢
  induction same with
  | nil => exact .none
  | @cons entry entry' _ _ first _ ih =>
    rw [find?_cons, find?_cons, ← first.1]
    cases entry.1 == key with
    | false => exact ih
    | true => exact .some first.2

end

end DictRel

theorem CurrentRel.mono {link : Link} (within : link.Within wider)
    {current current' : Option (Value × Value)} (same : CurrentRel link current current') :
    CurrentRel wider current current' := by
  cases same with
  | none => exact .none
  | some keys values => exact .some (keys.mono within) (values.mono within)

/-! ## Reading heaps -/

namespace Heap

variable {heap : Heap} {value : Value}

section
variable (plain : value.type ≠ .cell)
include plain

theorem derefAll_of_type {fuel : Nat} : heap.derefAll fuel value = value := by
  cases fuel with
  | zero => rfl
  | succ fuel => cases value <;> first | rfl | exact absurd rfl plain

theorem resolve_of_type : heap.resolve value = value := by
  cases value <;> first | rfl | exact absurd rfl plain

theorem deref_of_type : heap.deref value = value := by
  cases value <;> first | rfl | exact absurd rfl plain

end

end Heap

namespace HeapRel

variable {link : Link} {core : Heap → Heap → Prop} {heap heap' : Heap}

section
variable (same : HeapRel link core heap heap')
include same

theorem array (ref : Nat) : ItemsRel link (heap.array ref) (heap'.array ref) :=
  forall₂_getD same.arrays ref .nil

theorem size_array (ref : Nat) : (heap.array ref).size = (heap'.array ref).size :=
  forall₂_size (same.array ref)

theorem map (ref : Nat) : DictRel link (heap.map ref) (heap'.map ref) :=
  forall₂_getD same.maps ref .empty

theorem iterator (ref : Nat) : IteratorRel link (heap.iterator ref) (heap'.iterator ref) :=
  forall₂_getD same.iterators ref ⟨rfl, rfl, .none⟩

theorem method (ref : Nat) : heap.method ref = heap'.method ref := by
  rw [Heap.method, Heap.method, same.methods]

theorem depth_eq : heap.depth = heap'.depth := by
  rw [depth, depth, forall₂_size same.arrays, forall₂_size same.maps]

theorem derefAll (fuel : Nat) (values : ValueRel link value value') :
    ValueRel link (heap.derefAll fuel value) (heap'.derefAll fuel value') := by
  induction fuel generalizing value value' with
  | zero => exact values
  | succ fuel ih =>
    rcases values.cell_or with ⟨ref, ref', cells, rfl, rfl⟩ | ⟨plain, plain'⟩
    · exact ih (same.cell cells)
    · rwa [derefAll_of_type plain, derefAll_of_type plain']

theorem resolve (values : ValueRel link value value') :
    ValueRel link (heap.resolve value) (heap'.resolve value') := by
  rcases values.cell_or with ⟨ref, ref', cells, rfl, rfl⟩ | ⟨plain, plain'⟩
  · rw [Heap.resolve, Heap.resolve, same.reach cells]
    exact same.derefAll _ values
  · rwa [resolve_of_type plain, resolve_of_type plain']

theorem deref (values : ValueRel link value value') :
    ValueRel link (heap.deref value) (heap'.deref value') := by
  rcases values.cell_or with ⟨ref, ref', cells, rfl, rfl⟩ | ⟨plain, plain'⟩
  · exact same.cell cells
  · rwa [deref_of_type plain, deref_of_type plain']

theorem isFalsy_eq (values : ValueRel link value value') :
    heap.isFalsy value = heap'.isFalsy value' := by
  unfold isFalsy
  have resolved := same.resolve values
  generalize heap.resolve value = left, heap'.resolve value' = right at resolved
  cases resolved using ValueRel.kinds with
  | array ref | immutableArray ref => simp only [Array.isEmpty, same.size_array ref]
  | map ref | immutableMap ref => simp only [(same.map ref).size_eq]
  | _ => rfl

end

/-! ## More functions -/

theorem mono (within : link.Within wider) (same : HeapRel link core heap heap') :
    HeapRel wider core heap heap' where
  arrays := same.arrays.imp fun _ _ items => items.imp fun _ _ => .mono within
  maps := same.maps.imp fun _ _ entries => entries.imp fun _ _ entry =>
    ⟨entry.1, entry.2.mono within⟩
  iterators := same.iterators.imp fun _ _ iterator =>
    ⟨iterator.source, iterator.pos, iterator.current.mono within⟩
  methods := same.methods
  cell cells := (same.cell (within.cell ▸ cells)).mono within
  reach cells := same.reach (within.cell ▸ cells)
  core := same.core

/-! ## What stays -/

/-- The functions and cells are those of two heaps. -/
def Still (heap heap' core core' : Heap) : Prop := core = heap.core ∧ core' = heap'.core

theorem still (same : HeapRel link core heap heap') : HeapRel link (Still heap heap') heap heap' :=
  { same with core := ⟨rfl, rfl⟩ }

theorem data (same : HeapRel link core heap heap') : HeapRel link (fun _ _ => True) heap heap' :=
  { same with core := trivial }

end HeapRel

end Skiff
