import Skiff.Text.Pad

/-!
# Instants

A point in time, counted in nanoseconds from the start of 1970. The whole seconds of an instant
fit in 64 bits with sign.
-/

namespace Skiff

structure Instant where
  nanos : Int
  deriving DecidableEq, Repr, Inhabited

namespace Instant

def perSecond : Nat := 1000000000

def epoch : Instant := ⟨0⟩

/-- Whether the whole seconds fit. -/
def representable (nanos : Int) : Bool :=
  -0x8000000000000000 ≤ nanos / perSecond && nanos / perSecond < 0x8000000000000000

def ofSeconds (seconds : Int) : Instant := ⟨seconds * perSecond⟩

/-- The instant a number of nanoseconds later, or the same one if there is no such instant. -/
def offset (instant : Instant) (nanos : Int) : Instant :=
  if representable (instant.nanos + nanos) then ⟨instant.nanos + nanos⟩ else instant

/-- The nanoseconds from `earlier` to `later`, cut to 64 bits. The magnitude is cut first and the
sign put on it then. -/
def difference (later earlier : Instant) : Int64 :=
  let nanos := later.nanos - earlier.nanos
  let magnitude := Int64.ofInt (nanos.natAbs : Int)
  if 0 ≤ nanos then magnitude else -magnitude

/-- The whole seconds of an instant that is not before the epoch. -/
def seconds? (instant : Instant) : Option Int64 :=
  if 0 ≤ instant.nanos then some (Int64.ofInt (instant.nanos / perSecond)) else none

/-- A fraction of a unit without zeros at its end; `digits` is its number of places. -/
private def fraction (digits value : Nat) : String :=
  let shown := (padLeft '0' digits (toString value)).toList.reverse.dropWhile (· = '0')
  if shown.isEmpty then "" else "." ++ String.ofList shown.reverse

/-- A length of time in the largest unit of which it has at least one. -/
def durationText (nanos : Nat) : String :=
  if perSecond ≤ nanos then
    toString (nanos / perSecond) ++ fraction 9 (nanos % perSecond) ++ "s"
  else if 1000000 ≤ nanos then toString (nanos / 1000000) ++ fraction 6 (nanos % 1000000) ++ "ms"
  else if 1000 ≤ nanos then toString (nanos / 1000) ++ fraction 3 (nanos % 1000) ++ "µs"
  else toString nanos ++ "ns"

/-- Seconds with nine places, or the length of time before the epoch. -/
def text (instant : Instant) : String :=
  if 0 ≤ instant.nanos then
    let nanos := instant.nanos.toNat
    let places := padLeft '0' 9 (toString (nanos % perSecond))
    s!"time({nanos / perSecond}.{places})"
  else
    let length := durationText instant.nanos.natAbs
    s!"time(-{length})"

end Instant

end Skiff
