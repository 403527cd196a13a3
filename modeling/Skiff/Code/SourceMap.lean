import Skiff.Source.Span

/-!
# Source maps

Which span of the source each instruction came from, by ascending offset.
-/

namespace Skiff

structure SourceMap where
  entries : Array (Nat × Span) := #[]
  deriving DecidableEq, Repr, Inhabited

namespace SourceMap

/-- Sets the span of an offset. Offsets mostly arrive in ascending order. -/
def insert (map : SourceMap) (offset : Nat) (span : Span) : SourceMap :=
  match map.entries.back? with
  | none => ⟨#[(offset, span)]⟩
  | some (last, _) =>
    if last < offset then ⟨map.entries.push (offset, span)⟩
    else
      ⟨map.entries.filter (fun entry => entry.1 < offset) ++ #[(offset, span)]
        ++ map.entries.filter (fun entry => offset < entry.1)⟩

/-- The span of the instruction at an offset, or of the closest one before it. -/
def spanAt (map : SourceMap) (offset : Nat) : Option Span :=
  map.entries.foldl (fun found entry => if entry.1 ≤ offset then some entry.2 else found) none

end SourceMap

end Skiff
