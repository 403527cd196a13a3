import Skiff.Number.Numeral

/-!
# Literals

The values of literal tokens. In quoted literals a backslash starts an escape: a letter for a
control character, a quote or a backslash for itself, `x`, `u` or `U` with two, four or eight
hexadecimal digits, or three octal digits.
-/

namespace Skiff

/-- The value that a literal denotes. -/
inductive Literal where
  | int (n : Int64)
  | float (x : Double)
  | string (text : String)
  | char (c : Char)
  | bool (b : Bool)
  | undefined
  deriving DecidableEq, Repr

/-- The families of escapes that give a character by its code. -/
inductive DigitEscape where
  | hex
  | unicode
  | octal
  deriving DecidableEq, Repr

def DigitEscape.name : DigitEscape → String
  | hex => "hex"
  | unicode => "unicode"
  | octal => "octal"

/-- Why a quoted literal has no value. -/
inductive LiteralError where
  | unknownEscape (c : Char)
  | truncatedEscape
  | badDigits (escape : DigitEscape) (digits : Nat)
  | invalidCodePoint (code : Nat)
  | notOneChar
  deriving DecidableEq, Repr

def LiteralError.message : LiteralError → String
  | unknownEscape c => "unknown escape sequence: \\" ++ String.singleton c
  | truncatedEscape => "escape sequence at end of literal"
  | badDigits escape digits =>
    let name := escape.name
    s!"invalid {name} escape: want {digits} digits"
  | invalidCodePoint code =>
    let hex := String.ofList (Nat.toDigits 16 code)
    s!"escape sequence is an invalid code point: 0x{hex}"
  | notOneChar => "character literal must hold exactly one character"

namespace Literal

/-- The character with a code, which surrogates and codes beyond the last plane do not have. -/
def charOfCode? (code : Nat) : Option Char :=
  if valid : code.isValidChar then some (Char.ofNatAux code valid) else none

/-- The character of a one-letter escape. -/
def simpleEscape? : Char → Option Char
  | 'a' => some '\x07'
  | 'b' => some '\x08'
  | 'f' => some '\x0c'
  | 'n' => some '\n'
  | 'r' => some '\r'
  | 't' => some '\t'
  | 'v' => some '\x0b'
  | '\\' => some '\\'
  | '\'' => some '\''
  | '"' => some '"'
  | _ => none

/-- Reads the character whose code stands in the first `count` digits of the text. -/
def readCode (escape : DigitEscape) (radix count : Nat) (text : List Char) :
    Except LiteralError Char :=
  let digits := text.take count
  match digits.mapM (Numeral.digitValue? radix) with
  | some values =>
    if values.length = count then
      let code := values.foldl (fun n digit => n * radix + digit) 0
      match charOfCode? code with
      | some c => .ok c
      | none => .error (.invalidCodePoint code)
    else .error (.badDigits escape count)
  | none => .error (.badDigits escape count)

/-- Reads the escape after a backslash: its character and how many characters it takes. -/
def readEscape : List Char → Except LiteralError (Char × Nat)
  | [] => .error .truncatedEscape
  | first :: rest =>
    match simpleEscape? first with
    | some c => .ok (c, 1)
    | none =>
      if first = 'x' then (readCode .hex 16 2 rest).map (·, 3)
      else if first = 'u' then (readCode .unicode 16 4 rest).map (·, 5)
      else if first = 'U' then (readCode .unicode 16 8 rest).map (·, 9)
      else if '0' ≤ first ∧ first ≤ '7' then (readCode .octal 8 3 (first :: rest)).map (·, 3)
      else .error (.unknownEscape first)

/-- Replaces the escapes of a text from left to right; `decoded` holds what is done, last
character first. -/
def unescapeFrom (text : List Char) (decoded : List Char) : Except LiteralError (List Char) :=
  match text with
  | [] => .ok decoded.reverse
  | '\\' :: rest =>
    match readEscape rest with
    | .error e => .error e
    | .ok (c, length) => unescapeFrom (rest.drop length) (c :: decoded)
  | c :: rest => unescapeFrom rest (c :: decoded)
termination_by text.length
decreasing_by all_goals simp_wf; try omega

/-- Replaces the escapes of a text. The first escape that cannot be read decides the error. -/
def unescape (text : List Char) : Except LiteralError (List Char) := unescapeFrom text []

/-- The text without its first and its last character. -/
def inner (text : List Char) : List Char := text.tail.dropLast

/-- The value of a double-quoted literal. -/
def readString (text : List Char) : Except LiteralError String :=
  (unescape (inner text)).map String.ofList

/-- The value of a back-quoted literal: no escapes, and carriage returns are dropped. -/
def readRaw (text : List Char) : String := String.ofList ((inner text).filter (· ≠ '\r'))

/-- The value of a character literal. -/
def readChar (text : List Char) : Except LiteralError Char :=
  match unescape (inner text) with
  | .error e => .error e
  | .ok [c] => .ok c
  | .ok _ => .error .notOneChar

end Literal

end Skiff
