import Skiff.Proofs.Heap.Relation
import Skiff.Value.Equality
import Skiff.Value.Text

/-!
# Nested values of corresponding heaps

Texts and equality follow values through containers and cells. On corresponding heaps they go the
same way.
-/

namespace Skiff

open Bool Heap

namespace HeapRel

variable {link : Link} {core : Heap → Heap → Prop} {heap heap' : Heap}

/-! ## Texts -/

variable {value value' left left' right right' : Value}

variable {fuel : Nat} {rel rel' : Value → Value → Bool}

section
variable (same : HeapRel link core heap heap')
include same

/-- One level of a text, given the texts of what lies in containers. -/
theorem showFrom_level
    (inner : ∀ {less}, fuel = less + 1 → ∀ {value value'}, ValueRel link value value' →
      heap.showFrom less heap.reach value = heap'.showFrom less heap'.reach value')
    {cells cells' : Nat} (reach : ∀ {ref ref'}, link.cell ref ref' → cells = cells')
    (values : ValueRel link value value') :
    heap.showFrom fuel cells value = heap'.showFrom fuel cells' value' := by
  induction cells generalizing cells' value value' with
  | zero | succ cells ih =>
    -- Errors lie inside the value, so they are left to an induction over it.
    induction values using ValueRel.kinds with
    | array ref | immutableArray ref =>
      cases fuel with
      | zero => simp [showFrom]
      | succ less =>
        rw [showFrom, showFrom, map_eq_map_of_forall₂ (same.array ref) (inner rfl)]
    | map ref | immutableMap ref =>
      cases fuel with
      | zero => simp [showFrom]
      | succ less =>
        rw [showFrom, showFrom, map_eq_map_of_forall₂ (same.map ref)]
        intro entry entry' entries
        simp only [entries.1, inner rfl entries.2]
    | error _ ih => rw [showFrom, showFrom, ih]
    | cell cell =>
      obtain rfl := reach cell
      first
      | rw [showFrom, showFrom]
        exact ih (fun _ => rfl) (same.cell cell)
      | simp [showFrom]
    | _ => simp [showFrom, same.method]

theorem showFrom_eq (fuel : Nat) (values : ValueRel link value value') :
    heap.showFrom fuel heap.reach value = heap'.showFrom fuel heap'.reach value' := by
  induction fuel using Nat.strongRecOn generalizing value value' with
  | _ fuel ih => exact same.showFrom_level (fun one => ih _ (by omega)) same.reach values

theorem display_eq (values : ValueRel link value value') :
    heap.display value = heap'.display value' := by
  rw [display, display, same.depth_eq]
  exact same.showFrom_eq _ values

theorem text_eq (values : ValueRel link value value') : heap.text value = heap'.text value' := by
  have shown := same.display_eq values
  cases values using ValueRel.kinds <;> first | rfl | exact shown

end

/-! ## Equality -/

section
variable
  (inner : ∀ {left left'}, ValueRel link left left' → ∀ {right right'}, ValueRel link right right' →
    rel left right = rel' left' right')
include inner

/-- Comparing corresponding arrays, given how to compare what lies in them. -/
theorem all_zip_eq {items items' others others' : List Value}
    (sames : List.Forall₂ (ValueRel link) items items')
    (otherSames : List.Forall₂ (ValueRel link) others others') :
    ((items.zip others).all fun (item, other) => rel item other)
      = (items'.zip others').all fun (item, other) => rel' item other := by
  induction sames generalizing others others' with
  | nil => rfl
  | cons first _ ih =>
    cases otherSames with
    | nil => rfl
    | cons second rest => simp only [List.zip_cons_cons, List.all_cons, inner first second, ih rest]

theorem all_entries_eq {entries entries' : List (String × Value)} {others others' : Dict Value}
    (sames : List.Forall₂ (fun entry entry' => entry.1 = entry'.1 ∧ ValueRel link entry.2 entry'.2)
    entries entries') (otherSames : DictRel link others others') :
    (entries.all fun (key, item) =>
        match others.get? key with
        | some other => rel item other
        | none => false)
      = entries'.all fun (key, item) =>
        match others'.get? key with
        | some other => rel' item other
        | none => false := by
  induction sames with
  | nil => rfl
  | @cons entry entry' _ _ first _ ih =>
    rw [List.all_cons, List.all_cons, ih]
    congr 1
    have found := otherSames.get? entry.1
    simp only [← first.1]
    generalize others.get? entry.1 = left, others'.get? entry.1 = right at found
    cases found with
    | none => rfl
    | some found => exact inner first.2 found

end

section
variable (faithful : link.Faithful) (same : HeapRel link core heap heap')
include faithful same

/-- One level of an equality, given the equalities of what lies in containers. -/
theorem equalFrom_level
    (inner : ∀ {less}, fuel = less + 1 → ∀ {left left'}, ValueRel link left left' →
      ∀ {right right'}, ValueRel link right right' →
        heap.equalFrom less left right = heap'.equalFrom less left' right')
    (lefts : ValueRel link left left') (rights : ValueRel link right right') :
    heap.equalFrom fuel left right = heap'.equalFrom fuel left' right' := by
  induction lefts generalizing right right' with
  | @data left kind | @handle left kind =>
    rw [equalFrom.eq_def, equalFrom.eq_def]
    cases rights using ValueRel.kinds <;> cases left <;> first
      | rfl
      | exact absurd kind false_ne_true
      | cases fuel with
        | zero => rfl
        | succ less => first
          | exact congrArg (_ || ·) (congrArg₂ (· && ·)
              (congrArg₂ (· == ·) (same.size_array _) (same.size_array _))
              (all_zip_eq (inner rfl) (same.array _) (same.array _)))
          | exact congrArg (_ || ·) (congrArg₂ (· && ·)
              (congrArg₂ (· == ·) (same.map _).size_eq (same.map _).size_eq)
              (all_entries_eq (inner rfl) (same.map _) (same.map _)))
  | error _ ih =>
    rw [equalFrom.eq_def, equalFrom.eq_def]
    cases rights using ValueRel.kinds with
    | error rights => exact ih rights
    | _ => rfl
  | function lefts | cell lefts =>
    rw [equalFrom.eq_def, equalFrom.eq_def]
    cases rights using ValueRel.kinds with
    | function rights | cell rights => first
      | rfl
      | refine eq_iff_iff.2 ?_
        simpa using faithful.function lefts rights
      | refine eq_iff_iff.2 ?_
        simpa using faithful.cell lefts rights
    | _ => rfl

theorem equalFrom_eq (fuel : Nat) (lefts : ValueRel link left left')
    (rights : ValueRel link right right') :
    heap.equalFrom fuel left right = heap'.equalFrom fuel left' right' := by
  induction fuel using Nat.strongRecOn generalizing left left' right right' with
  | _ fuel ih =>
    exact same.equalFrom_level faithful (fun one _ _ lefts _ _ => ih _ (by omega) lefts)
      lefts rights

theorem equal_eq (lefts : ValueRel link left left') (rights : ValueRel link right right') :
    heap.equal left right = heap'.equal left' right' := by
  rw [equal, equal, same.depth_eq]
  exact same.equalFrom_eq faithful _ lefts rights

end

end HeapRel

end Skiff
