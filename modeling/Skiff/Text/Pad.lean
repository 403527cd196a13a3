/-!
# Padding

Filling texts up to a width.
-/

namespace Skiff

def padLeft (fill : Char) (width : Nat) (text : String) : String :=
  String.ofList (List.replicate (width - text.length) fill) ++ text

def padRight (fill : Char) (width : Nat) (text : String) : String :=
  text ++ String.ofList (List.replicate (width - text.length) fill)

/-- Lower-case hexadecimal digits, with zeros in front up to a width. -/
def hexText (width n : Nat) : String := padLeft '0' width (String.ofList (Nat.toDigits 16 n))

end Skiff
