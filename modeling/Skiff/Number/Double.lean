/-!
# Double-precision numbers

A double is kept as its 64 bits, sign, eleven exponent bits and 52 fraction bits, so that the
sign of a "not a number" is part of the value. Arithmetic on numbers is that of the hardware.
An operation that has no numeric answer gives the negative quiet NaN, and a NaN operand is
handed on.
-/

namespace Skiff

/-- A double-precision number as its bit pattern. -/
structure Double where
  bits : UInt64
  deriving DecidableEq, Repr, Inhabited

namespace Double

def signBit : UInt64 := 0x8000000000000000
def magnitudeMask : UInt64 := 0x7FFFFFFFFFFFFFFF
def infinityBits : UInt64 := 0x7FF0000000000000
def quietBit : UInt64 := 0x0008000000000000

def isNaN (x : Double) : Bool := infinityBits < (x.bits &&& magnitudeMask)

def isInfinite (x : Double) : Bool := (x.bits &&& magnitudeMask) == infinityBits

/-- Whether the sign bit is set, which it can be for zeros and NaNs too. -/
def isNegative (x : Double) : Bool := (x.bits &&& signBit) != 0

def negate (x : Double) : Double := ⟨x.bits ^^^ signBit⟩

def abs (x : Double) : Double := ⟨x.bits &&& magnitudeMask⟩

def zero : Double := ⟨0⟩

def infinity : Double := ⟨infinityBits⟩

/-- The NaN that is read from a text. -/
def notANumber : Double := ⟨infinityBits ||| quietBit⟩

/-- The NaN that an operation without a numeric answer gives. -/
def invalid : Double := ⟨signBit ||| infinityBits ||| quietBit⟩

def withSign (negative : Bool) (x : Double) : Double := if negative then x.negate else x

def toFloat (x : Double) : Float := Float.ofBits x.bits

def ofFloat (x : Float) : Double := ⟨x.toBits⟩

/-- Applies a hardware operation to numbers and hands NaN operands on. -/
def combine (operation : Float → Float → Float) (x y : Double) : Double :=
  if x.isNaN then ⟨x.bits ||| quietBit⟩
  else if y.isNaN then ⟨y.bits ||| quietBit⟩
  else
    let result := ofFloat (operation x.toFloat y.toFloat)
    if result.isNaN then invalid else result

def add : Double → Double → Double := combine (· + ·)
def sub : Double → Double → Double := combine (· - ·)
def mul : Double → Double → Double := combine (· * ·)
def div : Double → Double → Double := combine (· / ·)

/-- Equality of numbers: both zeros are equal, and a NaN equals nothing. -/
def sameNumber (x y : Double) : Bool :=
  !x.isNaN && !y.isNaN && (x == y || (x.bits ||| y.bits) &&& magnitudeMask == 0)

def less (x y : Double) : Bool := x.toFloat < y.toFloat

def lessEq (x y : Double) : Bool := x.toFloat ≤ y.toFloat

/-- The nearest double of an integer. -/
def ofInt64 (n : Int64) : Double := ofFloat n.toFloat

/-- The integer part, held inside the 64-bit range; a NaN gives zero. -/
def toInt64 (x : Double) : Int64 := x.toFloat.toInt64

/-- The highest bit of a significand, which the bits of a normal double leave out. -/
def leadingBit : Nat := 0x10000000000000

/-- The significand and the exponent of a finite double: its magnitude is the first times two
to the power of the second. -/
def decompose (x : Double) : Nat × Int :=
  let magnitude := (x.bits &&& magnitudeMask).toNat
  let exponent : Nat := magnitude / leadingBit
  let fraction : Nat := magnitude % leadingBit
  if exponent = 0 then (fraction, -1074) else (fraction + leadingBit, (exponent : Int) - 1075)

/-- `x` times a natural number, rounded up, if `x` is finite and not less than zero. -/
def scaledCeil? (x : Double) (factor : Nat) : Option Nat :=
  if x.isNaN || x.isInfinite || x.less zero then none
  else
    let (significand, exponent) := x.decompose
    let scaled := significand * factor
    some (if 0 ≤ exponent then scaled * Nat.pow 2 exponent.toNat
      else (scaled + Nat.pow 2 (-exponent).toNat - 1) / Nat.pow 2 (-exponent).toNat)

end Double

/-- The quotient rounded to the nearest integer; a half goes to the even neighbour. -/
def roundDiv (num den : Nat) : Nat :=
  let quotient := num / den
  let twice := 2 * (num % den)
  if den < twice || (twice == den && quotient % 2 == 1) then quotient + 1 else quotient

namespace Double

/-- `num / den` times two to the power of `-shift`, rounded to an integer. -/
private def roundScaled (num den : Nat) (shift : Int) : Nat :=
  if 0 ≤ shift then roundDiv num (den * Nat.pow 2 shift.toNat)
  else roundDiv (num * Nat.pow 2 (-shift).toNat) den

/-- The double nearest to a positive fraction; a half goes to the even neighbour, and values
beyond the largest double give infinity. -/
def ofRatio (num den : Nat) : Double :=
  let estimate : Int := (num.log2 : Int) - den.log2
  let atLeast : Bool :=
    if 0 ≤ estimate then den * Nat.pow 2 estimate.toNat ≤ num
    else den ≤ num * Nat.pow 2 (-estimate).toNat
  let exponent := if atLeast then estimate else estimate - 1
  let shift := max (exponent - 52) (-1074)
  let significand := roundScaled num den shift
  let bits := (shift + 1074).toNat * leadingBit + significand
  if infinityBits.toNat ≤ bits then infinity else ⟨UInt64.ofNat bits⟩

/-- The double nearest to `significand` times ten to the power of `exponent`. The binary length
of the significand bounds its decimal length, and values that are far too large or too small need
no powers of ten. -/
def ofDecimal (significand : Nat) (exponent : Int) : Double :=
  if significand = 0 then zero
  else
    let length := significand.log2
    if 310 < exponent + (length * 30102 / 100000 : Nat) then infinity
    else if exponent + (length * 30103 / 100000 + 2 : Nat) < -330 then zero
    else if 0 ≤ exponent then ofRatio (significand * Nat.pow 10 exponent.toNat) 1
    else ofRatio significand (Nat.pow 10 (-exponent).toNat)

end Double

end Skiff
