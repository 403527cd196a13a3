import Skiff.Number.Double

/-!
# Reading numerals

Integers are read from a sign, a radix prefix and digits, with `_` as a separator that is
ignored wherever it stands. Doubles are read from decimal notation or from the names of
infinity and NaN.
-/

namespace Skiff

/-- Why a text is not an integer. -/
inductive IntError where
  | empty
  | invalidDigit
  | tooLarge
  | tooSmall
  deriving DecidableEq, Repr

def IntError.message : IntError → String
  | empty => "cannot parse integer from empty string"
  | invalidDigit => "invalid digit found in string"
  | tooLarge => "number too large to fit in target type"
  | tooSmall => "number too small to fit in target type"

/-- Why a text is not a double. -/
inductive FloatError where
  | empty
  | invalid
  deriving DecidableEq, Repr

def FloatError.message : FloatError → String
  | empty => "cannot parse float from empty string"
  | invalid => "invalid float literal"

namespace Numeral

/-- The value of a digit in a radix of at most 36. -/
def digitValue? (radix : Nat) (c : Char) : Option Nat :=
  let value? :=
    if '0' ≤ c ∧ c ≤ '9' then some (c.toNat - '0'.toNat)
    else if 'a' ≤ c ∧ c ≤ 'z' then some (c.toNat - 'a'.toNat + 10)
    else if 'A' ≤ c ∧ c ≤ 'Z' then some (c.toNat - 'A'.toNat + 10)
    else none
  value?.filter (· < radix)

/-- Appends digits to a magnitude that may not exceed `limit`. The first character that is no
digit, or that makes the magnitude too large, decides the error. -/
def readDigits (radix limit : Nat) (overflow : IntError) : Nat → List Char → Except IntError Nat
  | value, [] => .ok value
  | value, c :: rest =>
    match digitValue? radix c with
    | none => .error .invalidDigit
    | some digit =>
      let value := value * radix + digit
      if limit < value then .error overflow else readDigits radix limit overflow value rest

/-- Digits of a radix behind at most one sign, in the range of 64-bit integers. -/
def readSigned (radix : Nat) : List Char → Except IntError Int64
  | [] => .error .empty
  | ['+'] | ['-'] => .error .invalidDigit
  | '-' :: digits =>
    (readDigits radix 0x8000000000000000 .tooSmall 0 digits).map fun n => Int64.ofInt (-(n : Int))
  | '+' :: digits => (readDigits radix 0x7fffffffffffffff .tooLarge 0 digits).map Int64.ofNat
  | digits => (readDigits radix 0x7fffffffffffffff .tooLarge 0 digits).map Int64.ofNat

/-- The radix that a prefix announces, and what follows the prefix. -/
def splitRadix : List Char → Nat × List Char
  | '0' :: 'x' :: digits | '0' :: 'X' :: digits => (16, digits)
  | '0' :: 'o' :: digits | '0' :: 'O' :: digits => (8, digits)
  | '0' :: 'b' :: digits | '0' :: 'B' :: digits => (2, digits)
  | digits => (10, digits)

/-- Reads an integer. A leading sign is taken first; the separators are dropped then, and the
radix is looked for. What is left may bring a sign of its own if the first one was not `-`. -/
def readInt (text : List Char) : Except IntError Int64 :=
  let (negative, unsigned) := match text with
    | '-' :: rest => (true, rest)
    | '+' :: rest => (false, rest)
    | _ => (false, text)
  let (radix, body) := splitRadix (unsigned.filter (· ≠ '_'))
  if negative then readSigned radix ('-' :: body) else readSigned radix body

private def isDigit (c : Char) : Bool := '0' ≤ c && c ≤ '9'

/-- A number that is being read digit by digit: `high` times `scale`, and `low`. The last digits
are collected in `low`, so that long numerals are put together block by block. -/
structure Blocks where
  high : Nat := 0
  scale : Nat := 1
  low : Nat := 0

namespace Blocks

/-- How far the scale of a block grows. -/
def limit : Nat := Nat.pow 10 512

def value (blocks : Blocks) : Nat := blocks.high * blocks.scale + blocks.low

/-- Appends a digit. -/
def add (blocks : Blocks) (digit : Nat) : Blocks :=
  if blocks.scale < limit then
    { blocks with scale := blocks.scale * 10, low := blocks.low * 10 + digit }
  else { high := blocks.value, scale := 10, low := digit }

theorem value_add (blocks : Blocks) (digit : Nat) :
    (blocks.add digit).value = blocks.value * 10 + digit := by
  unfold add
  split
  · simp only [value, Nat.add_mul, Nat.mul_assoc, Nat.add_assoc]
  · rfl

end Blocks

private def digitOf (c : Char) : Nat := c.toNat - '0'.toNat

/-- The number that decimal digits stand for. -/
def decimalValue (digits : List Char) : Nat :=
  (digits.foldl (fun blocks c => blocks.add (digitOf c)) ({} : Blocks)).value

/-- Appending a digit multiplies the number by ten and adds the digit. -/
theorem decimalValue_concat (digits : List Char) (c : Char) :
    decimalValue (digits ++ [c]) = decimalValue digits * 10 + (c.toNat - '0'.toNat) := by
  simp only [decimalValue, List.foldl_append, List.foldl_cons, List.foldl_nil, Blocks.value_add,
    digitOf]

/-- The size of an exponent. Once it has reached 65536, further digits are ignored. -/
def exponentValue (digits : List Char) : Nat :=
  digits.foldl (fun n c => if n < 0x10000 then n * 10 + digitOf c else n) 0

/-- The exponent behind the digits of a numeral: nothing, or a mark, a sign and digits. -/
def readExponent : List Char → Option Int
  | [] => some 0
  | mark :: rest =>
    if mark ≠ 'e' ∧ mark ≠ 'E' then none
    else
      let (negative, digits) := match rest with
        | '-' :: digits => (true, digits)
        | '+' :: digits => (false, digits)
        | digits => (false, digits)
      if digits.isEmpty || !digits.all isDigit then none
      else
        let magnitude : Int := exponentValue digits
        some (if negative then -magnitude else magnitude)

/-- Decimal notation without a sign: digits with at most one point and perhaps an exponent. -/
def readMagnitude (text : List Char) : Option Double :=
  let whole := text.takeWhile isDigit
  let rest := text.dropWhile isDigit
  let (places, rest) := match rest with
    | '.' :: rest => (rest.takeWhile isDigit, rest.dropWhile isDigit)
    | _ => ([], rest)
  if whole.isEmpty && places.isEmpty then none
  else
    (readExponent rest).map fun exponent =>
      Double.ofDecimal (decimalValue (whole ++ places)) (exponent - places.length)

/-- Reads a double: an optional sign before decimal notation or a name, in any case, of infinity
or NaN. -/
def readDouble (text : List Char) : Except FloatError Double :=
  if text.isEmpty then .error .empty
  else
    let (negative, unsigned) := match text with
      | '-' :: rest => (true, rest)
      | '+' :: rest => (false, rest)
      | _ => (false, text)
    let lower := String.ofList (unsigned.map Char.toLower)
    let magnitude? :=
      if lower = "inf" ∨ lower = "infinity" then some Double.infinity
      else if lower = "nan" then some Double.notANumber
      else readMagnitude unsigned
    match magnitude? with
    | some magnitude => .ok (magnitude.withSign negative)
    | none => .error .invalid

/-- Reads the numeral of a double, in which separators may stand anywhere. -/
def readFloat (text : List Char) : Except FloatError Double := readDouble (text.filter (· ≠ '_'))

end Numeral

end Skiff
