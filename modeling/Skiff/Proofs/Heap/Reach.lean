import Mathlib
import Skiff.Value.Basic

/-!
# What can be reached from a value

Arrays and maps lie on the heap, in a mutable or an immutable form, and hold values, as errors do.
From a value of a script other values are reached through these. If it reaches no container that
reaches itself, then containers are nested in it no deeper than there are containers on the heap.
-/

namespace Skiff

open Finset

/-- The storage of an array or a map. -/
inductive Container where
  | array (ref : Nat)
  | map (ref : Nat)
  deriving DecidableEq

/-- The storage of a value, in whichever form. -/
def Value.container? : Value → Option Container
  | .array ref | .immutableArray ref => some (.array ref)
  | .map ref | .immutableMap ref => some (.map ref)
  | _ => none

/-- Whether a value holds nothing and is no captured variable. -/
def Value.isLeaf : Value → Bool
  | .array _ | .immutableArray _ | .map _ | .immutableMap _ | .error _ | .cell _ => false
  | _ => true

/-- The mutable form of a container. -/
def Container.value : Container → Value
  | .array ref => .array ref
  | .map ref => .map ref

namespace Heap

/-- A container has been made on a heap. -/
def Made (heap : Heap) : Container → Prop
  | .array ref => ref < heap.arrays.size
  | .map ref => ref < heap.maps.size

/-- What can be seen of a container: the keys of a map, and what it holds. -/
def view (heap : Heap) : Container → Option (List String) × List Value
  | .array ref => (none, (heap.array ref).toList)
  | .map ref =>
    (some ((heap.map ref).entries.toList.map Prod.fst), (heap.map ref).entries.toList.map Prod.snd)

/-- What a container holds. -/
def contents (heap : Heap) (container : Container) : List Value := (heap.view container).2

/-- What lies directly in a value. -/
def parts (heap : Heap) : Value → List Value
  | .error inner => [inner]
  | value => value.container?.elim [] heap.contents

/-- One value is reached from another one, through arrays, maps and errors. -/
abbrev Reaches (heap : Heap) : Value → Value → Prop :=
  Relation.ReflTransGen fun whole part => part ∈ heap.parts whole

/-- A value of a script from which no container is reached that reaches itself: everything in it is
on the heap, and there are no captured variables in it. -/
structure Finite (heap : Heap) (value : Value) : Prop where
  made {inner : Value} : heap.Reaches value inner → ∀ container ∈ inner.container?,
    heap.Made container
  isOpen {inner : Value} : heap.Reaches value inner → ∀ ref, inner ≠ .cell ref
  acyclic {inner : Value} : heap.Reaches value inner →
    ¬Relation.TransGen (fun whole part => part ∈ heap.parts whole) inner inner

/-- Containers are nested in a value no deeper than a number of levels. -/
inductive Nested (heap : Heap) : Nat → Value → Prop where
  | leaf {depth : Nat} {value : Value} (isLeaf : value.isLeaf = true) : Nested heap depth value
  | error {depth : Nat} {inner : Value} (inside : Nested heap depth inner) :
      Nested heap depth (.error inner)
  | container {depth : Nat} {value : Value} {container : Container}
      (here : value.container? = some container) (made : heap.Made container)
      (items : ∀ part ∈ heap.contents container, Nested heap depth part) :
        Nested heap (depth + 1) value

variable {heap : Heap} {value inner : Value} {container : Container}

theorem parts_of_container (here : value.container? = some container) :
    heap.parts value = heap.contents container := by
  cases value with
  | array ref | immutableArray ref | map ref | immutableMap ref =>
    cases here
    rfl
  | _ => cases here

theorem parts_of_leaf (isLeaf : value.isLeaf = true) : heap.parts value = [] := by
  cases value with
  | array ref | immutableArray ref | map ref | immutableMap ref | error inner | cell ref =>
    cases isLeaf
  | _ => rfl

theorem container?_of_leaf (isLeaf : value.isLeaf = true) : value.container? = none := by
  cases value with
  | array ref | immutableArray ref | map ref | immutableMap ref => cases isLeaf
  | _ => rfl

theorem Finite.part (finite : heap.Finite value) (member : inner ∈ heap.parts value) :
    heap.Finite inner :=
  ⟨fun reach => finite.made (.head member reach), fun reach => finite.isOpen (.head member reach),
    fun reach => finite.acyclic (.head member reach)⟩

/-- A value is finite if its parts are: a cycle through it would be one of a part. -/
theorem Finite.of_parts (made : ∀ container ∈ value.container?, heap.Made container)
    (isOpen : ∀ ref, value ≠ .cell ref) (parts : ∀ part ∈ heap.parts value, heap.Finite part) :
    heap.Finite value where
  made reach := by
    rcases reach.cases_head with rfl | ⟨part, member, reach⟩
    · exact made
    · exact (parts part member).made reach
  isOpen reach := by
    rcases reach.cases_head with rfl | ⟨part, member, reach⟩
    · exact isOpen
    · exact (parts part member).isOpen reach
  acyclic reach cycle := by
    rcases reach.cases_head with rfl | ⟨part, member, reach⟩
    · obtain ⟨part, member, back⟩ := Relation.TransGen.head'_iff.1 cycle
      exact (parts part member).acyclic back cycle
    · exact (parts part member).acyclic reach cycle

/-- A container is not among those that are reached from what it holds. -/
theorem Finite.erase (finite : heap.Finite value) (here : value.container? = some container)
    {reached : Finset Container}
    (within : ∀ inner, heap.Reaches value inner → ∀ other ∈ inner.container?, other ∈ reached)
    {part : Value} (member : part ∈ heap.contents container) :
    ∀ inner, heap.Reaches part inner → ∀ other ∈ inner.container?,
      other ∈ reached.erase container := by
  intro inner reach other found
  rw [← parts_of_container here] at member
  refine mem_erase.2 ⟨?_, within inner (.head member reach) other found⟩
  rintro rfl
  -- The value that is reached has the same storage, so that it is reached from its own part.
  have again : part ∈ heap.parts inner := by
    rw [parts_of_container (Option.mem_def.1 found), ← parts_of_container here]
    exact member
  exact finite.acyclic (.head member reach) (.head' again reach)

/-- By induction on a bound for the containers that are reached: each level uses one up. -/
theorem nested_of_reach (depth : Nat) (reached : Finset Container) (finite : heap.Finite value)
    (within : ∀ inner, heap.Reaches value inner → ∀ container ∈ inner.container?,
    container ∈ reached) (few : reached.card ≤ depth) : heap.Nested depth value := by
  induction depth generalizing value reached with
  | zero | succ depth ih =>
    induction value with
    | error inner inside =>
      have member : inner ∈ heap.parts (.error inner) := List.mem_singleton_self _
      exact .error (inside (finite.part member) fun other reach =>
        within other (.head member reach))
    | cell ref => exact absurd rfl (finite.isOpen .refl ref)
    | array ref | immutableArray ref | map ref | immutableMap ref =>
      have here := within _ .refl _ rfl
      have some := card_pos.2 ⟨_, here⟩
      first
      | omega
      | refine .container rfl (finite.made .refl _ rfl) fun part member => ?_
        refine ih _ (finite.part member) (finite.erase rfl within member) ?_
        rw [card_erase_of_mem here]
        omega
    | _ => exact .leaf rfl

/-- All containers of a heap. -/
def containers (heap : Heap) : Finset Container :=
  (range heap.arrays.size).image .array ∪ (range heap.maps.size).image .map

theorem card_containers (heap : Heap) :
    heap.containers.card ≤ heap.arrays.size + heap.maps.size := by
  refine (card_union_le _ _).trans (Nat.add_le_add ?_ ?_)
  · exact card_image_le.trans (card_range _).le
  · exact card_image_le.trans (card_range _).le

theorem Finite.nested (finite : heap.Finite value) : heap.Nested heap.depth value := by
  refine nested_of_reach heap.depth heap.containers finite (fun inner reach found here => ?_)
    (heap.card_containers.trans (Nat.le_succ _))
  have made := finite.made reach found here
  rw [containers, mem_union, mem_image, mem_image]
  cases found with
  | array ref => exact .inl ⟨ref, mem_range.2 made, rfl⟩
  | map ref => exact .inr ⟨ref, mem_range.2 made, rfl⟩

end Heap

end Skiff
