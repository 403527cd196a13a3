/-!
# Opcodes

An instruction is one opcode byte and operands of fixed widths behind it, little-endian.
-/

namespace Skiff

inductive Opcode where
  | const | undefined | true_ | false_ | pop
  | binary | equal | notEqual | negate | not | complement
  | jump | jumpFalsy | jumpAnd | jumpOr
  | getGlobal | setGlobal | setGlobalAt
  | getLocal | setLocal | defineLocal | setLocalAt | localCell
  | getFree | setFree | setFreeAt | freeCell
  | getBuiltin
  | array | map | error | immutable | index | slice
  | call | ret | closure
  | iterate | iterNext | iterKey | iterValue
  | suspend
  deriving DecidableEq, Repr, Inhabited

namespace Opcode

def byte : Opcode → UInt8
  | const => 0x00
  | undefined => 0x01
  | true_ => 0x02
  | false_ => 0x03
  | pop => 0x04
  | binary => 0x10
  | equal => 0x11
  | notEqual => 0x12
  | negate => 0x13
  | not => 0x14
  | complement => 0x15
  | jump => 0x20
  | jumpFalsy => 0x21
  | jumpAnd => 0x22
  | jumpOr => 0x23
  | getGlobal => 0x30
  | setGlobal => 0x31
  | setGlobalAt => 0x32
  | getLocal => 0x40
  | setLocal => 0x41
  | defineLocal => 0x42
  | setLocalAt => 0x43
  | localCell => 0x44
  | getFree => 0x48
  | setFree => 0x49
  | setFreeAt => 0x4A
  | freeCell => 0x4B
  | getBuiltin => 0x50
  | array => 0x60
  | map => 0x61
  | error => 0x62
  | immutable => 0x63
  | index => 0x64
  | slice => 0x65
  | call => 0x70
  | ret => 0x71
  | closure => 0x72
  | iterate => 0x80
  | iterNext => 0x81
  | iterKey => 0x82
  | iterValue => 0x83
  | suspend => 0xFF

/-- The opcode of a byte; most bytes have none. -/
def ofByte? (byte : UInt8) : Option Opcode :=
  match byte with
  | 0x00 => some const
  | 0x01 => some undefined
  | 0x02 => some true_
  | 0x03 => some false_
  | 0x04 => some pop
  | 0x10 => some binary
  | 0x11 => some equal
  | 0x12 => some notEqual
  | 0x13 => some negate
  | 0x14 => some not
  | 0x15 => some complement
  | 0x20 => some jump
  | 0x21 => some jumpFalsy
  | 0x22 => some jumpAnd
  | 0x23 => some jumpOr
  | 0x30 => some getGlobal
  | 0x31 => some setGlobal
  | 0x32 => some setGlobalAt
  | 0x40 => some getLocal
  | 0x41 => some setLocal
  | 0x42 => some defineLocal
  | 0x43 => some setLocalAt
  | 0x44 => some localCell
  | 0x48 => some getFree
  | 0x49 => some setFree
  | 0x4A => some setFreeAt
  | 0x4B => some freeCell
  | 0x50 => some getBuiltin
  | 0x60 => some array
  | 0x61 => some map
  | 0x62 => some error
  | 0x63 => some immutable
  | 0x64 => some index
  | 0x65 => some slice
  | 0x70 => some call
  | 0x71 => some ret
  | 0x72 => some closure
  | 0x80 => some iterate
  | 0x81 => some iterNext
  | 0x82 => some iterKey
  | 0x83 => some iterValue
  | 0xFF => some suspend
  | _ => none

/-- The widths of the operands in bytes. -/
def widths : Opcode → List Nat
  | const | getGlobal | setGlobal | array | map => [2]
  | jump | jumpFalsy | jumpAnd | jumpOr => [4]
  | binary | getLocal | setLocal | defineLocal | localCell | getFree | setFree | freeCell
  | getBuiltin | ret => [1]
  | setGlobalAt | closure => [2, 1]
  | setLocalAt | setFreeAt | call => [1, 1]
  | undefined | true_ | false_ | pop | equal | notEqual | negate | not | complement | error
  | immutable | index | slice | iterate | iterNext | iterKey | iterValue | suspend => []

/-- The size of a whole instruction. -/
def size (op : Opcode) : Nat := 1 + op.widths.foldr (· + ·) 0

def isJump : Opcode → Bool
  | jump | jumpFalsy | jumpAnd | jumpOr => true
  | _ => false

/-- The name used in listings. -/
def mnemonic : Opcode → String
  | const => "CONST"
  | undefined => "NULL"
  | true_ => "TRUE"
  | false_ => "FALSE"
  | pop => "POP"
  | binary => "BINARYOP"
  | equal => "EQL"
  | notEqual => "NEQ"
  | negate => "NEG"
  | not => "NOT"
  | complement => "CMPL"
  | jump => "JMP"
  | jumpFalsy => "JMPF"
  | jumpAnd => "ANDJMP"
  | jumpOr => "ORJMP"
  | getGlobal => "GETG"
  | setGlobal => "SETG"
  | setGlobalAt => "SETSG"
  | getLocal => "GETL"
  | setLocal => "SETL"
  | defineLocal => "DEFL"
  | setLocalAt => "SETSL"
  | localCell => "GETLP"
  | getFree => "GETF"
  | setFree => "SETF"
  | setFreeAt => "SETSF"
  | freeCell => "GETFP"
  | getBuiltin => "BUILTIN"
  | array => "ARR"
  | map => "MAP"
  | error => "ERROR"
  | immutable => "IMMUT"
  | index => "INDEX"
  | slice => "SLICE"
  | call => "CALL"
  | ret => "RET"
  | closure => "CLOSURE"
  | iterate => "ITER"
  | iterNext => "ITNXT"
  | iterKey => "ITKEY"
  | iterValue => "ITVAL"
  | suspend => "SUSPEND"

end Opcode

/-- The bits by which a call says what lies on the stack behind its positional arguments. -/
def spreadFlag : Nat := 1
def namedFlag : Nat := 2
def namedSpreadFlag : Nat := 4

end Skiff
