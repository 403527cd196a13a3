import Skiff.Code.Opcode

/-!
# Instructions as bytes

Encoding instructions, and decoding them again from a byte sequence.
-/

namespace Skiff

/-- The lowest `width` bytes of a number, the lowest first. -/
def littleEndian : (width : Nat) → Nat → List UInt8
  | 0, _ => []
  | width + 1, n => UInt8.ofNat (n % 256) :: littleEndian width (n / 256)

/-- The byte at a place; zero behind the end. -/
def byteAt (code : ByteArray) (pos : Nat) : UInt8 :=
  if inside : pos < code.size then code[pos] else 0

/-- The number in the `width` bytes from `pos` on; bytes behind the end count as zero. -/
def readNumber (code : ByteArray) (pos : Nat) : (width : Nat) → Nat
  | 0 => 0
  | width + 1 => (byteAt code pos).toNat + 256 * readNumber code (pos + 1) width

/-- Writes bytes over those from `pos` on. -/
def writeBytes (code : ByteArray) (pos : Nat) : List UInt8 → ByteArray
  | [] => code
  | byte :: rest => writeBytes (code.set! pos byte) (pos + 1) rest

/-- Replaces the four-byte operand at `pos`. -/
def patchTarget (code : ByteArray) (pos target : Nat) : ByteArray :=
  writeBytes code pos (littleEndian 4 target)

namespace Opcode

/-- Encodes operands in their widths. Operands are cut to 32 bits and then to their width;
surplus ones are dropped, and missing ones leave the instruction short. -/
def encodeOperands : (widths operands : List Nat) → List UInt8
  | width :: widths, operand :: operands =>
    littleEndian width (operand % 0x100000000) ++ encodeOperands widths operands
  | _, _ => []

def encode (op : Opcode) (operands : List Nat) : List UInt8 :=
  op.byte :: encodeOperands op.widths operands

/-- Whether operands are as many as there are widths, and none needs more bytes than its width. -/
def fitWidths : (widths operands : List Nat) → Bool
  | [], [] => true
  | width :: widths, operand :: operands =>
    operand < 1 <<< (8 * width) && fitWidths widths operands
  | _, _ => false

/-- Whether encoding keeps the operands of an instruction. -/
def fits (op : Opcode) (operands : List Nat) : Bool := fitWidths op.widths operands

/-- Reads operands of the given widths from `pos` on. -/
def readOperands (code : ByteArray) : (widths : List Nat) → (pos : Nat) → List Nat
  | [], _ => []
  | width :: widths, pos => readNumber code pos width :: readOperands code widths (pos + width)

/-- The operands of an instruction whose opcode stands at `pos`. -/
def operandsAt (op : Opcode) (code : ByteArray) (pos : Nat) : List Nat :=
  readOperands code op.widths (pos + 1)

end Opcode

/-- An instruction at its place in a byte sequence. -/
structure PlacedInstr where
  pos : Nat
  op : Opcode
  operands : List Nat
  deriving DecidableEq, Repr

namespace PlacedInstr

def size (instr : PlacedInstr) : Nat := instr.op.size

def encode (instr : PlacedInstr) : List UInt8 := instr.op.encode instr.operands

/-- The target of a jump. -/
def target? (instr : PlacedInstr) : Option Nat :=
  if instr.op.isJump then instr.operands.head? else none

end PlacedInstr

/-- The instructions from `pos` on, up to the end or to a byte that is no opcode. -/
def decodeFrom (code : ByteArray) (pos : Nat) (done : Array PlacedInstr) : Array PlacedInstr :=
  if pos < code.size then
    match Opcode.ofByte? (byteAt code pos) with
    | none => done
    | some op =>
      decodeFrom code (pos + op.size) (done.push ⟨pos, op, op.operandsAt code pos⟩)
  else done
termination_by code.size - pos
decreasing_by simp only [Opcode.size]; omega

def decode (code : ByteArray) : Array PlacedInstr := decodeFrom code 0 #[]

end Skiff
