import Skiff.Text.Pad
import Skiff.Value.Arithmetic

/-!
# Formatted text

A format is a text with directives: `%`, flags, a width, a precision behind a point, and a verb.
A directive takes the next argument. One without an argument, or with an argument of a type that
its verb does not take, is replaced by a note.
-/

namespace Skiff

/-- What stands between `%` and the verb. -/
structure Directive where
  minus : Bool := false
  plus : Bool := false
  zero : Bool := false
  space : Bool := false
  width : Option Nat := none
  precision : Option Nat := none
  deriving DecidableEq, Repr

namespace Directive

/-- Reads flags in any order and repetition. -/
def readFlags : Directive → List Char → Directive × List Char
  | directive, '-' :: rest => readFlags { directive with minus := true } rest
  | directive, '+' :: rest => readFlags { directive with plus := true } rest
  | directive, '0' :: rest => readFlags { directive with zero := true } rest
  | directive, ' ' :: rest => readFlags { directive with space := true } rest
  | directive, rest => (directive, rest)

/-- Reads digits, if there are any. -/
def readNumber (text : List Char) : Option Nat × List Char :=
  let digits := text.takeWhile fun c => '0' ≤ c && c ≤ '9'
  (if digits.isEmpty then none else some (Numeral.decimalValue digits), text.drop digits.length)

/-- Reads everything before the verb. -/
def read (text : List Char) : Directive × List Char :=
  let (directive, rest) := readFlags {} text
  let (width, rest) := readNumber rest
  match rest with
  | '.' :: rest =>
    let (precision, rest) := readNumber rest
    ({ directive with width, precision := some (precision.getD 0) }, rest)
  | rest => ({ directive with width }, rest)

/-- Digits behind the sign that the flags ask for. -/
def signed (directive : Directive) (negative : Bool) (digits : String) : String :=
  if negative then "-" ++ digits
  else if directive.plus then "+" ++ digits
  else if directive.space then " " ++ digits
  else digits

/-- An integer in a radix. -/
def integer (directive : Directive) (radix : Nat) (n : Int64) : String :=
  directive.signed (n < 0) (String.ofList (Nat.toDigits radix n.toInt.natAbs))

/-- A double with six places, or as many as the precision says. -/
def double (directive : Directive) (x : Double) : String :=
  directive.signed x.isNegative ((x.abs).fixedText (directive.precision.getD 6))

/-- Fills a text up to the width: with blanks behind or before it, or with zeros behind its
sign. -/
def pad (directive : Directive) (text : String) : String :=
  let fill := directive.width.getD 0 - text.length
  if fill = 0 then text
  else if directive.minus then text ++ String.ofList (List.replicate fill ' ')
  else if directive.zero then
    let zeros := List.replicate fill '0'
    match text.toList with
    | '-' :: digits => String.ofList ('-' :: zeros ++ digits)
    | '+' :: digits => String.ofList ('+' :: zeros ++ digits)
    | ' ' :: digits => String.ofList (' ' :: zeros ++ digits)
    | digits => String.ofList (zeros ++ digits)
  else String.ofList (List.replicate fill ' ') ++ text

end Directive

/-- Two hexadecimal digits for every byte. -/
def hexBytes (bytes : ByteArray) : String :=
  String.join (bytes.data.toList.map fun byte => hexText 2 byte.toNat)

namespace Heap

/-- An argument as its verb and directive say. -/
def formatOne (heap : Heap) (verb : Char) (directive : Directive) (value : Value) : String :=
  match verb, value with
  | 'v', .float x =>
    if directive.precision.isSome then directive.double x else heap.text value
  | 'f', .float x | 'F', .float x => directive.double x
  | 'f', .int n | 'F', .int n =>
    directive.signed (n < 0) ((Double.ofInt64 n).abs.fixedText (directive.precision.getD 6))
  | 'v', _ => heap.text value
  | 'd', .int n => directive.integer 10 n
  | 'd', .char c => toString c.toNat
  | 's', _ =>
    match directive.precision with
    | some count => String.ofList ((heap.text value).toList.take count)
    | none => heap.text value
  | 'q', .char c => quoteChar c
  | 'q', _ => quoteString (heap.text value)
  | 'e', .float x =>
    match directive.precision with
    | some places => x.scientificFixedText places
    | none => x.scientificText
  | 'x', .int n => directive.integer 16 n
  | 'X', .int n => (directive.integer 16 n).toUpper
  | 'x', .string s => hexBytes s.toUTF8
  | 'x', .bytes b => hexBytes b
  | 'X', .string s => (hexBytes s.toUTF8).toUpper
  | 'X', .bytes b => (hexBytes b).toUpper
  | 'o', .int n => directive.integer 8 n
  | 'b', .int n => directive.integer 2 n
  | 't', .bool b => toString b
  | 'c', .char c => String.singleton c
  | 'c', .int n =>
    String.singleton
      ((if 0 ≤ n then Literal.charOfCode? n.toInt.toNat else none).getD replacementChar)
  | _, _ =>
    "%!" ++ String.singleton verb ++ "(" ++ value.type.name ++ "=" ++ heap.text value ++ ")"

/-- Replaces the directives of a format from left to right. Every directive is shorter than what
is left of the format, whose length is at most `fuel`. -/
def renderFrom (heap : Heap) : (fuel : Nat) → List Char → List Value → String → String
  | 0, _, _, out => out
  | _ + 1, [], _, out => out
  | fuel + 1, '%' :: rest, args, out =>
    let (directive, rest) := Directive.read rest
    match rest, args with
    | [], _ => out ++ "%!(NOVERB)"
    | '%' :: rest, args => renderFrom heap fuel rest args (out.push '%')
    | verb :: rest, arg :: args =>
      renderFrom heap fuel rest args (out ++ directive.pad (heap.formatOne verb directive arg))
    | verb :: rest, [] =>
      renderFrom heap fuel rest [] (out ++ "%!" ++ String.singleton verb ++ "(MISSING)")
  | fuel + 1, c :: rest, args, out => renderFrom heap fuel rest args (out.push c)

/-- A format with its directives replaced. -/
def render (heap : Heap) (format : String) (args : List Value) : String :=
  heap.renderFrom (format.length + 1) format.toList args ""

/-- Formats arguments; the first one is the format. -/
def format (heap : Heap) : List Value → Except RuntimeError Value
  | [] => .error (.tooFewArguments 1 0)
  | .string format :: args => Value.ofText (heap.render format args)
  | other :: _ => .error (.argumentType "format" "string" other.type)

end Heap

end Skiff
