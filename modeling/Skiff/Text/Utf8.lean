/-!
# Reading bytes as text

Bytes that are not valid UTF-8 are replaced: each longest sequence that starts like a character
but does not go on like one becomes one replacement character.
-/

namespace Skiff

def replacementChar : Char := '\uFFFD'

/-- How a sequence that starts with a byte goes on: the number of bytes behind the first and the
range that the second byte must lie in, or nothing if no character starts so. -/
def utf8Lead? (byte : UInt8) : Option (Nat × UInt8 × UInt8) :=
  if byte < 0x80 then some (0, 0, 0)
  else if byte < 0xC2 then none
  else if byte < 0xE0 then some (1, 0x80, 0xBF)
  else if byte = 0xE0 then some (2, 0xA0, 0xBF)
  else if byte = 0xED then some (2, 0x80, 0x9F)
  else if byte < 0xF0 then some (2, 0x80, 0xBF)
  else if byte = 0xF0 then some (3, 0x90, 0xBF)
  else if byte < 0xF4 then some (3, 0x80, 0xBF)
  else if byte = 0xF4 then some (3, 0x80, 0x8F)
  else none

/-- The bytes behind the first one of a character, as far as they fit: at most `count` of them,
the first in the range from `low` to `high` and the others in that of continuation bytes. -/
def utf8Tail : (count : Nat) → (low high : UInt8) → List UInt8 → List UInt8
  | 0, _, _, _ => []
  | _ + 1, _, _, [] => []
  | count + 1, low, high, byte :: rest =>
    if low ≤ byte ∧ byte ≤ high then byte :: utf8Tail count 0x80 0xBF rest else []

/-- The character of a complete sequence. -/
def utf8Char (lead : UInt8) (tail : List UInt8) : Char :=
  let start := match tail.length with
    | 0 => lead.toNat
    | 1 => lead.toNat % 32
    | 2 => lead.toNat % 16
    | _ => lead.toNat % 8
  Char.ofNat (tail.foldl (fun code byte => code * 64 + byte.toNat % 64) start)

/-- The characters of a byte sequence, `done` holding those before it, last one first. -/
def decodeUtf8From (bytes : List UInt8) (done : List Char) : List Char :=
  match bytes with
  | [] => done.reverse
  | lead :: rest =>
    match utf8Lead? lead with
    | none => decodeUtf8From rest (replacementChar :: done)
    | some (count, low, high) =>
      let tail := utf8Tail count low high rest
      let c := if tail.length = count then utf8Char lead tail else replacementChar
      decodeUtf8From (rest.drop tail.length) (c :: done)
termination_by bytes.length
decreasing_by all_goals simp_wf; try omega

/-- Reads bytes as text with replacements. -/
def decodeUtf8 (bytes : ByteArray) : String := String.ofList (decodeUtf8From bytes.data.toList [])

end Skiff
