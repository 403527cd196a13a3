/-!
# Dictionaries

Entries under distinct texts as keys, in the order in which the keys were first inserted.
-/

namespace Skiff

structure Dict (α : Type) where
  entries : Array (String × α)
  distinct : (entries.toList.map Prod.fst).Nodup

namespace Dict

variable {α : Type}

def empty : Dict α := ⟨#[], by simp⟩

instance : Inhabited (Dict α) := ⟨empty⟩

def size (dict : Dict α) : Nat := dict.entries.size

def keys (dict : Dict α) : Array String := dict.entries.map Prod.fst

/-- The place of a key. -/
def find? (dict : Dict α) (key : String) : Option (Fin dict.entries.size) :=
  dict.entries.findFinIdx? fun entry => entry.1 == key

def get? (dict : Dict α) (key : String) : Option α :=
  (dict.find? key).map fun place => (dict.entries[place]).2

theorem key_of_find? {dict : Dict α} {key : String} {place : Fin dict.entries.size}
    (found : dict.find? key = some place) : (dict.entries[place]).1 = key := by
  have holds := Array.findFinIdx?_eq_some_iff.1 found
  simpa using holds.1

theorem not_mem_of_find? {dict : Dict α} {key : String} (missing : dict.find? key = none) :
    key ∉ dict.entries.toList.map Prod.fst := by
  have all := Array.findFinIdx?_eq_none_iff.1 missing
  intro member
  obtain ⟨entry, inside, rfl⟩ := List.mem_map.1 member
  have := all entry (by simpa using inside)
  simp at this

/-- Gives a key a value. A key that is there already keeps its place. -/
def insert (dict : Dict α) (key : String) (value : α) : Dict α :=
  match found : dict.find? key with
  | some place =>
    ⟨dict.entries.set place (key, value), by
      have same := key_of_find? found
      have distinct := dict.distinct
      rw [Array.toList_set, List.map_set]
      have unchanged : (dict.entries.toList.map Prod.fst).set place key
          = dict.entries.toList.map Prod.fst := by
        have here : (dict.entries.toList.map Prod.fst)[place] = key := by simpa using same
        rw [← here]
        exact List.set_getElem_self _
      rw [unchanged]
      exact distinct⟩
  | none =>
    ⟨dict.entries.push (key, value), by
      have missing := not_mem_of_find? found
      simp only [Array.toList_push, List.map_append, List.map_cons, List.map_nil]
      rw [List.nodup_append]
      refine ⟨dict.distinct, by simp, ?_⟩
      intro a inside b last equal
      simp only [List.mem_singleton] at last
      subst last
      subst equal
      exact missing inside⟩

/-- Removes a key; the entries behind it move up. -/
def erase (dict : Dict α) (key : String) : Dict α :=
  ⟨dict.entries.filter fun entry => entry.1 != key, by
    rw [Array.toList_filter]
    exact dict.distinct.sublist ((List.filter_sublist).map Prod.fst)⟩

/-- Gives keys their values, one after the other. -/
def insertAll (dict : Dict α) (entries : List (String × α)) : Dict α :=
  entries.foldl (fun dict (key, value) => dict.insert key value) dict

/-- The dictionary of a list of entries; of entries with one key the last value counts. -/
def ofList (entries : List (String × α)) : Dict α := empty.insertAll entries

end Dict

end Skiff
