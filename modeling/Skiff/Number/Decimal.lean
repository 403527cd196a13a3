import Skiff.Number.Double

/-!
# Decimal texts of doubles

The shortest text of a double has the fewest significant digits that read back as the same
double and, among those, the digits nearest to its value. It is written positionally or with
an exponent. Texts with a fixed number of places round the exact value, a half going to the
even neighbour.
-/

namespace Skiff

/-- Decimal digits with a scale: `digits` times ten to the power of `scale`. -/
structure Decimal where
  digits : Nat
  scale : Int
  deriving DecidableEq, Repr

namespace Decimal

/-- The decimal digits of a number, the leading one first. -/
def digitList (n : Nat) : List Char := Nat.toDigits 10 n

/-- Moves zeros at the end of the digits into the scale, at most `fuel` of them. -/
def stripZeros : Nat → Decimal → Decimal
  | 0, decimal => decimal
  | fuel + 1, decimal =>
    if decimal.digits ≠ 0 ∧ decimal.digits % 10 = 0 then
      stripZeros fuel ⟨decimal.digits / 10, decimal.scale + 1⟩
    else decimal

/-- Factors that put multiples of two to the power of `binary` and multiples of ten to the power
of `decimal` on one scale: `a` of the first compare with `b` of the second as `a` times the
first factor with `b` times the second. -/
def commonScale (binary decimal : Int) : Nat × Nat :=
  (Nat.pow 2 binary.toNat * Nat.pow 10 (-decimal).toNat,
    Nat.pow 10 decimal.toNat * Nat.pow 2 (-binary).toNat)

/-- Whether ten to the power of `decimal` is at most `significand` times two to the power of
`exponent`. -/
def powerAtMost (decimal : Int) (significand : Nat) (exponent : Int) : Bool :=
  let (ours, theirs) := commonScale exponent decimal
  theirs ≤ significand * ours

/-- The greatest power of ten that is at most the given positive number, as its exponent. The
estimate from the binary length is off by one at most. -/
def leadingPower (significand : Nat) (exponent : Int) : Int :=
  let estimate := ((significand.log2 : Int) + exponent) * 30103 / 100000
  if powerAtMost (estimate + 1) significand exponent then estimate + 1
  else if powerAtMost estimate significand exponent then estimate
  else estimate - 1

/-- The nearest decimal with the given scale that rounds to the double with this significand and
exponent, if there is one. The reals that round to it reach halfway to its neighbours, and the
ends belong to it if its significand is even; below a power of two the gap is half as wide. -/
def withinGap? (significand : Nat) (exponent scale : Int) : Option Nat :=
  let (ours, theirs) := commonScale (exponent - 2) scale
  let value := 4 * significand * ours
  let narrow := significand = Double.leadingBit ∧ -1074 < exponent
  let low := (4 * significand - (if narrow then 1 else 2)) * ours
  let high := (4 * significand + 2) * ours
  let inGap (candidate : Nat) : Bool :=
    if significand % 2 = 0 then low ≤ candidate * theirs && candidate * theirs ≤ high
    else low < candidate * theirs && candidate * theirs < high
  let below := value / theirs
  let above := below + 1
  let nearer :=
    if value - below * theirs < above * theirs - value then [below, above] else [above, below]
  nearer.find? inGap

/-- The decimal with the fewest digits, counted from `count` on, that reads back. Seventeen
digits always do. -/
def shortestFrom (significand : Nat) (exponent power : Int) : (fuel count : Nat) → Decimal
  | 0, count => ⟨0, power + 1 - count⟩
  | fuel + 1, count =>
    let scale := power + 1 - count
    match withinGap? significand exponent scale with
    | some digits => stripZeros 17 ⟨digits, scale⟩
    | none => shortestFrom significand exponent power fuel (count + 1)

/-- The shortest decimal of the magnitude of a finite double. -/
def shortest (x : Double) : Decimal :=
  let (significand, exponent) := x.decompose
  if significand = 0 then ⟨0, 0⟩
  else shortestFrom significand exponent (leadingPower significand exponent) 17 1

/-- Digits with a point before the last `places` of them; there is always a digit before the
point, and no point without places. -/
def pointed (digits : List Char) (places : Nat) : String :=
  let digits := List.replicate (places + 1 - digits.length) '0' ++ digits
  if places = 0 then String.ofList digits
  else
    let whole := digits.length - places
    String.ofList (digits.take whole ++ '.' :: digits.drop whole)

/-- Positional text, without an exponent however large or small the number is. -/
def positional (decimal : Decimal) : String :=
  pointed (digitList decimal.digits ++ List.replicate decimal.scale.toNat '0')
    (-decimal.scale).toNat

/-- Text with one digit before the point and an exponent. -/
def scientific (decimal : Decimal) : String :=
  let digits := digitList decimal.digits
  let places := digits.length - 1
  let exponent := if decimal.digits = 0 then 0 else decimal.scale + places
  s!"{pointed digits places}e{exponent}"

end Decimal

namespace Double

/-- The magnitude rounded to a multiple of ten to the power of `scale`. -/
private def roundToScale (x : Double) (scale : Int) : Nat :=
  let (significand, exponent) := x.decompose
  let (ours, theirs) := Decimal.commonScale exponent scale
  roundDiv (significand * ours) theirs

/-- The text of the magnitude of a number that is not finite. -/
private def specialText? (x : Double) : Option String :=
  if x.isNaN then some "NaN" else if x.isInfinite then some "inf" else none

private def signed (x : Double) (text : String) : String :=
  if x.isNegative && !x.isNaN then "-" ++ text else text

/-- The shortest positional text. -/
def text (x : Double) : String :=
  x.signed ((specialText? x).getD (Decimal.shortest x).positional)

/-- The shortest text with an exponent. -/
def scientificText (x : Double) : String :=
  x.signed ((specialText? x).getD (Decimal.shortest x).scientific)

/-- The magnitude with a fixed number of places. -/
def fixedText (x : Double) (places : Nat) : String :=
  (specialText? x).getD (Decimal.pointed (Decimal.digitList (x.roundToScale (-places))) places)

/-- Text with an exponent and a fixed number of places after the first digit. -/
def scientificFixedText (x : Double) (places : Nat) : String :=
  let magnitude :=
    let (significand, exponent) := x.decompose
    let power := if significand = 0 then 0 else Decimal.leadingPower significand exponent
    let rounded := x.roundToScale (power - places)
    let (digits, power) :=
      if rounded = Nat.pow 10 (places + 1) then (Nat.pow 10 places, power + 1) else (rounded, power)
    s!"{Decimal.pointed (Decimal.digitList digits) places}e{power}"
  x.signed ((specialText? x).getD magnitude)

end Double

end Skiff
