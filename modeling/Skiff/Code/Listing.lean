import Skiff.Code.Instr
import Skiff.Text.Blank
import Skiff.Text.Pad

/-!
# Listings

One line for each instruction: its offset, its name and its operands. A byte that is no opcode
gets a line of its own.
-/

namespace Skiff

/-- The line of an instruction at an offset. -/
def listingLine (offset : Nat) (op : Opcode) (operands : List Nat) : String :=
  let place := padLeft '0' 4 (toString offset)
  let name := op.mnemonic
  let columns := match operands with
    | [] => name
    | operands =>
      operands.foldl (fun line operand => line ++ " " ++ padRight ' ' 5 (toString operand))
        (padRight ' ' 8 name)
  String.ofList ((place ++ " " ++ columns).toList.reverse.dropWhile isBlank).reverse

def listingFrom (code : ByteArray) (offset pos : Nat) (done : Array String) : Array String :=
  if pos < code.size then
    let byte := byteAt code pos
    match Opcode.ofByte? byte with
    | none =>
      let place := padLeft '0' 4 (toString (offset + pos))
      let shown := hexText 2 byte.toNat
      listingFrom code offset (pos + 1) (done.push s!"{place} <invalid 0x{shown}>")
    | some op =>
      listingFrom code offset (pos + op.size)
        (done.push (listingLine (offset + pos) op (op.operandsAt code pos)))
  else done
termination_by code.size - pos
decreasing_by
  · omega
  · simp only [Opcode.size]; omega

/-- The lines of a byte sequence whose first byte has the given offset. -/
def listing (code : ByteArray) (offset : Nat) : Array String := listingFrom code offset 0 #[]

end Skiff
