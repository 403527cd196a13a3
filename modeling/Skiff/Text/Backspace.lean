import Skiff.Text.Cluster

/-!
# Backspaces

In a line as it was typed, a backspace erases the cluster before it. How many bytes a cluster has
is remembered in one byte, so of a cluster of 256 bytes or more only the remainder is erased.
-/

namespace Skiff

/-- A line that is being typed: its characters, the last first, and how many bytes each further
backspace erases. -/
structure TypedLine where
  kept : List Char := []
  sizes : List UInt8 := []

/-- Drops the given number of bytes in front of a text. -/
def dropBytes : Nat → List Char → List Char
  | 0, text => text
  | _ + 1, [] => []
  | n + 1, c :: rest => dropBytes (n + 1 - c.utf8Size) rest

namespace TypedLine

/-- Erases the last cluster. -/
def erase (line : TypedLine) : TypedLine :=
  match line.sizes with
  | [] => line
  | size :: sizes => { kept := dropBytes size.toNat line.kept, sizes }

/-- Types a cluster; a backspace always stands alone. -/
def put (line : TypedLine) (cluster : List Char) : TypedLine :=
  if cluster = ['\x08'] then line.erase
  else
    { kept := cluster.reverse ++ line.kept
      sizes := UInt8.ofNat (String.ofList cluster).utf8ByteSize :: line.sizes }

end TypedLine

/-- What is left of a line when its backspaces have been obeyed. -/
def obeyBackspaces (line : List Char) : List Char :=
  if line.contains '\x08' then ((clusters line).foldl TypedLine.put {}).kept.reverse else line

end Skiff
