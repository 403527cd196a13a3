import Mathlib
import Skiff.Value.Dict

/-!
# Dictionaries as lists of entries

Looking up, inserting and erasing a key, said by recursion over the entries.
-/

namespace Skiff

open List

namespace Dict

variable {α : Type}

/-- The entries with a value for a key, behind the others if the key is new. -/
def insertEntry (key : String) (value : α) : List (String × α) → List (String × α)
  | [] => [(key, value)]
  | entry :: rest =>
    if entry.1 == key then (key, value) :: rest else entry :: insertEntry key value rest

variable {key : String}

theorem insertEntry_of_not_mem (value : α) {entries : List (String × α)}
    (missing : key ∉ entries.map Prod.fst) :
    insertEntry key value entries = entries ++ [(key, value)] := by
  induction entries with
  | nil => rfl
  | cons entry rest ih =>
    rw [map_cons, mem_cons, not_or] at missing
    have other : (entry.1 == key) = false := beq_eq_false_iff_ne.2 (Ne.symm missing.1)
    rw [insertEntry, other, ih missing.2]
    rfl

theorem insertEntry_append (value : α) {before after : List (String × α)}
    {entry : String × α} (here : entry.1 = key) (earlier : ∀ other ∈ before, other.1 ≠ key) :
    insertEntry key value (before ++ entry :: after) = before ++ (key, value) :: after := by
  induction before with
  | nil => simp [insertEntry, here]
  | cons first before ih =>
    have other : (first.1 == key) = false :=
      beq_eq_false_iff_ne.2 (earlier first (mem_cons_self ..))
    rw [cons_append, insertEntry, other, ih fun other member =>
      earlier other (mem_cons_of_mem _ member)]
    rfl

theorem mem_insertEntry {value : α} {entries : List (String × α)} {entry : String × α}
    (member : entry ∈ insertEntry key value entries) : entry = (key, value) ∨ entry ∈ entries := by
  induction entries with
  | nil => exact .inl (mem_singleton.1 member)
  | cons first rest ih =>
    rw [insertEntry] at member
    split at member
    · exact (mem_cons.1 member).imp_right (mem_cons_of_mem _)
    · rcases mem_cons.1 member with rfl | later
      · exact .inr (mem_cons_self ..)
      · exact (ih later).imp_right (mem_cons_of_mem _)

/-- What is found at the place of a key stands between entries with other keys. -/
theorem split_of_find? {dict : Dict α} {place : Fin dict.entries.size}
    (found : dict.find? key = some place) :
    ∃ before entry after, dict.entries.toList = before ++ entry :: after ∧
      before.length = place.val ∧ dict.entries[place.val]? = some entry ∧ entry.1 = key ∧
      ∀ other ∈ before, other.1 ≠ key := by
  obtain ⟨_, earlier⟩ := Array.findFinIdx?_eq_some_iff.1 found
  have inside : place.val < dict.entries.toList.length := by simp
  refine ⟨dict.entries.toList.take place, dict.entries[place], dict.entries.toList.drop (place + 1),
    ?_, ?_, ?_, key_of_find? found, ?_⟩
  · have split := take_append_drop place.val dict.entries.toList
    rw [drop_eq_getElem_cons inside] at split
    simpa using split.symm
  · simp
  · simp
  · intro other member same
    obtain ⟨index, before, here⟩ := mem_iff_getElem.1 member
    have low : index < place.val := by
      rw [length_take] at before
      omega
    have different := earlier ⟨index, by omega⟩ low
    rw [getElem_take] at here
    simp only [Fin.getElem_fin, beq_iff_eq] at different
    apply different
    rw [← same, ← here]
    simp

theorem get?_eq (dict : Dict α) (key : String) :
    dict.get? key = (dict.entries.toList.find? fun entry => entry.1 == key).map Prod.snd := by
  unfold get?
  cases found : dict.find? key with
  | none =>
    have nothing : (dict.entries.toList.find? fun entry => entry.1 == key) = none := by
      rw [find?_eq_none]
      intro entry member same
      exact not_mem_of_find? found (mem_map.2 ⟨entry, member, by simpa using same⟩)
    rw [nothing]
    rfl
  | some place =>
    obtain ⟨before, entry, after, split, _, here, same, earlier⟩ := split_of_find? found
    have skipped : (before.find? fun entry => entry.1 == key) = none := by
      rw [find?_eq_none]
      exact fun entry member same => earlier entry member (by simpa using same)
    obtain ⟨_, rfl⟩ := Array.getElem?_eq_some_iff.1 here
    rw [split, find?_append, skipped, find?_cons, beq_iff_eq.2 same]
    rfl

theorem toList_insert (dict : Dict α) (key : String) (value : α) :
    (dict.insert key value).entries.toList = insertEntry key value dict.entries.toList := by
  unfold insert
  split
  · rename_i place found
    obtain ⟨before, entry, after, split, length, _, same, earlier⟩ := split_of_find? found
    rw [split, insertEntry_append value same earlier, Array.toList_set, split]
    simp [length]
  · rename_i missing
    rw [insertEntry_of_not_mem value (not_mem_of_find? missing), Array.toList_push]

theorem toList_erase (dict : Dict α) (key : String) :
    (dict.erase key).entries.toList = dict.entries.toList.filter fun entry => entry.1 != key := by
  rw [erase, Array.toList_filter]

end Dict

/-! ## Storage -/

section
variable {α : Type} {motive : α → Prop} {items : Array α} {item default : α} {place other : Nat}

theorem getD_push_of (new : place = items.size → motive item)
    (old : motive (items.getD place default)) : motive ((items.push item).getD place default) := by
  rw [Array.getD_eq_getD_getElem?] at old ⊢
  rw [Array.getElem?_push]
  split
  · exact new ‹_›
  · exact old

theorem getD_modify_of {change : α → α} (old : motive (items.getD other default))
    (new : other = place → motive (change (items.getD other default))) :
    motive ((items.modify place change).getD other default) := by
  rw [Array.getD_eq_getD_getElem?] at old new ⊢
  rw [Array.getElem?_modify]
  by_cases same : place = other
  · rw [if_pos same]
    generalize items[other]? = item at old new ⊢
    cases item with
    | none => exact old
    | some item => exact new same.symm
  · rw [if_neg same]
    exact old

theorem getD_setIfInBounds_of (old : motive (items.getD other default))
    (new : other = place → motive item) :
    motive ((items.setIfInBounds place item).getD other default) := by
  rw [Array.getD_eq_getD_getElem?] at old ⊢
  rw [Array.getElem?_setIfInBounds]
  by_cases same : place = other
  · rw [if_pos same]
    by_cases inside : place < items.size
    · rw [if_pos inside]
      exact new same.symm
    · rw [if_neg inside]
      rw [← same, Array.getElem?_eq_none (Nat.le_of_not_lt inside)] at old
      exact old
  · rw [if_neg same]
    exact old

theorem size_le_of_push (new : (items.push item).size ≤ place) : items.size ≤ place := by
  rw [Array.size_push] at new
  exact Nat.le_of_succ_le new

end

end Skiff
