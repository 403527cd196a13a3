import Skiff.Text.Hidden

/-!
# Quoted texts

Texts between quotes, with a backslash before quotes and backslashes, short escapes for common
control characters, and the code of every other character that is not shown as itself.
-/

namespace Skiff

/-- A character inside quotes of the given kind. -/
def quotedChar (quote c : Char) : String :=
  if c = '\x00' then "\\0"
  else if c = '\t' then "\\t"
  else if c = '\r' then "\\r"
  else if c = '\n' then "\\n"
  else if c = quote ∨ c = '\\' then "\\" ++ String.singleton c
  else if isHidden c then "\\u\x7b" ++ String.ofList (Nat.toDigits 16 c.toNat) ++ "\x7d"
  else String.singleton c

/-- A text between double quotes. -/
def quoteString (text : String) : String :=
  text.foldl (fun quoted c => quoted ++ quotedChar '"' c) "\"" ++ "\""

/-- A character between single quotes. -/
def quoteChar (c : Char) : String := "'" ++ quotedChar '\'' c ++ "'"

end Skiff
