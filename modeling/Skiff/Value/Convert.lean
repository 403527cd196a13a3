import Skiff.Number.Numeral
import Skiff.Text.Blank
import Skiff.Token.Literal
import Skiff.Value.Text

/-!
# Conversions between values

Loose conversions: there is no result where a value has no sensible counterpart.
-/

namespace Skiff

namespace Heap

/-- Doubles are cut towards zero and into range; strings are read as integer literals with blanks
around them. -/
def toInt? : Value → Option Int64
  | .int n => some n
  | .float x => some x.toInt64
  | .char c => some (Int64.ofNat c.toNat)
  | .bool b => some (if b then 1 else 0)
  | .string s => (Numeral.readInt (trimBlank s.toList)).toOption
  | .time t => t.seconds?
  | _ => none

def toFloat? : Value → Option Double
  | .int n => some (.ofInt64 n)
  | .float x => some x
  | .string s => (Numeral.readDouble (trimBlank s.toList)).toOption
  | _ => none

def toChar? : Value → Option Char
  | .char c => some c
  | .int n => if 0 ≤ n then Literal.charOfCode? n.toInt.toNat else none
  | .string s =>
    match s.toList with
    | [c] => some c
    | _ => none
  | _ => none

def toText? (heap : Heap) : Value → Option String
  | .undefined => none
  | value => some (heap.text value)

def toBytes? : Value → Option ByteArray
  | .bytes b => some b
  | .string s => some s.toUTF8
  | _ => none

/-- Integers are seconds from the epoch. -/
def toTime? : Value → Option Instant
  | .time t => some t
  | .int n => if 0 ≤ n then some (.ofSeconds n.toInt) else none
  | _ => none

end Heap

end Skiff
