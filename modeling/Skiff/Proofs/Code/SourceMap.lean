import Mathlib
import Skiff.Code.SourceMap

/-!
# Entries of source maps

The entry of a single offset, as opposed to the closest one before it.
-/

namespace Skiff

open List

namespace SourceMap

/-- The span that was set for an offset itself. -/
def spanOf? (map : SourceMap) (offset : Nat) : Option Span :=
  map.entries.foldl (fun found entry => if entry.1 = offset then some entry.2 else found) none

/-- The last span that a list of entries sets for an offset, or what was found before. -/
def lastSpan (offset : Nat) (found : Option Span) (entries : List (Nat × Span)) : Option Span :=
  entries.foldl (fun found entry => if entry.1 = offset then some entry.2 else found) found

theorem spanOf?_eq (map : SourceMap) (offset : Nat) :
    map.spanOf? offset = lastSpan offset none map.entries.toList := by
  rw [spanOf?, lastSpan, Array.foldl_toList]

theorem lastSpan_append (offset : Nat) (found : Option Span) (left right : List (Nat × Span)) :
    lastSpan offset found (left ++ right) = lastSpan offset (lastSpan offset found left) right :=
  foldl_append

/-- Entries of other offsets change nothing. -/
theorem lastSpan_of_ne {offset : Nat} {entries : List (Nat × Span)} (found : Option Span)
    (others : ∀ entry ∈ entries, entry.1 ≠ offset) : lastSpan offset found entries = found := by
  induction entries generalizing found with
  | nil => rfl
  | cons entry rest ih =>
    have different := others entry (mem_cons_self ..)
    rw [lastSpan, foldl_cons, if_neg different]
    exact ih found fun entry member => others entry (mem_cons_of_mem _ member)

/-- Leaving out entries of other offsets changes nothing. -/
theorem lastSpan_filter {offset : Nat} {keep : Nat × Span → Bool} (found : Option Span)
    (entries : List (Nat × Span)) (kept : ∀ entry, entry.1 = offset → keep entry = true) :
    lastSpan offset found (entries.filter keep) = lastSpan offset found entries := by
  induction entries generalizing found with
  | nil => rfl
  | cons entry rest ih =>
    by_cases same : entry.1 = offset
    · rw [filter_cons_of_pos (kept entry same)]
      simp only [lastSpan, foldl_cons] at ih ⊢
      exact ih _
    · by_cases keeps : keep entry = true
      · rw [filter_cons_of_pos keeps]
        simp only [lastSpan, foldl_cons] at ih ⊢
        exact ih _
      · rw [filter_cons_of_neg keeps]
        simp only [lastSpan, foldl_cons, if_neg same] at ih ⊢
        exact ih _

theorem spanOf?_insert (map : SourceMap) (offset place : Nat) (span : Span) :
    (map.insert offset span).spanOf? place
      = if place = offset then some span else map.spanOf? place := by
  rw [spanOf?_eq, spanOf?_eq]
  unfold insert
  split
  · rename_i last
    have nothing : map.entries = #[] := by simpa using last
    rw [nothing]
    by_cases same : place = offset
    · simp [lastSpan, same]
    · simp [lastSpan, same, Ne.symm same]
  · rename_i last _ _
    split
    · rw [Array.toList_push, lastSpan_append]
      by_cases same : place = offset
      · simp [lastSpan, same]
      · simp [lastSpan, same, Ne.symm same]
    · simp only [Array.toList_append, Array.toList_filter, lastSpan_append]
      rcases Nat.lt_trichotomy place offset with below | rfl | above
      · have high (found : Option Span) : lastSpan place found
            (map.entries.toList.filter fun entry => offset < entry.1) = found :=
          lastSpan_of_ne found (by simp; omega)
        rw [high, if_neg (by omega)]
        simp only [lastSpan, foldl_cons, foldl_nil, if_neg (Nat.ne_of_gt below)]
        exact lastSpan_filter none _ (by simp; omega)
      · have high (found : Option Span) : lastSpan place found
            (map.entries.toList.filter fun entry => place < entry.1) = found :=
          lastSpan_of_ne found (by simp; omega)
        rw [high]
        simp [lastSpan]
      · have low : lastSpan place none
            (map.entries.toList.filter fun entry => entry.1 < offset) = none :=
          lastSpan_of_ne none (by simp; omega)
        rw [low, if_neg (by omega)]
        simp only [lastSpan, foldl_cons, foldl_nil, if_neg (Nat.ne_of_lt above)]
        exact lastSpan_filter none _ (by simp; omega)

end SourceMap

end Skiff
