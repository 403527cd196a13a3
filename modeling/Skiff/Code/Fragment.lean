import Skiff.Code.Instr
import Skiff.Code.SourceMap

/-!
# Code fragments

Code that does not know yet where it will stand. Jumps carry the distance to their target, so
fragments are put together by placing them one behind the other. Jumps out of a loop wait, as
exits, until the loop around them is complete. Assembling a fragment gives every jump its target
and yields bytes and a source map.
-/

namespace Skiff

/-- The two ways out of the body of a loop. -/
inductive LoopExit where
  | leave
  | next
  deriving DecidableEq, Repr

inductive CodeItem where
  | instr (op : Opcode) (operands : List Nat)
  /-- A jump to the place at a distance from its own. -/
  | jump (op : Opcode) (distance : Int)
  /-- A jump that waits for its loop. -/
  | exit (kind : LoopExit)
  deriving DecidableEq, Repr

def CodeItem.size : CodeItem → Nat
  | instr op _ | jump op _ => op.size
  | exit _ => Opcode.jump.size

/-- Whether encoding keeps the operands of an item that stands at a place. -/
def CodeItem.fits (place : Nat) : CodeItem → Bool
  | instr op operands => op.fits operands
  | jump op distance => op.fits [((place : Int) + distance).toNat]
  | exit _ => true

/-- An item and the span it came from. -/
structure CodePiece where
  item : CodeItem
  span : Span
  deriving DecidableEq, Repr

abbrev Fragment := Array CodePiece

namespace Fragment

/-- The number of bytes that a fragment assembles to. -/
def byteSize (code : Fragment) : Nat := code.foldl (fun size piece => size + piece.item.size) 0

def instr (span : Span) (op : Opcode) (operands : List Nat) : Fragment :=
  #[⟨.instr op operands, span⟩]

def jump (span : Span) (op : Opcode) (distance : Int) : Fragment := #[⟨.jump op distance, span⟩]

def exit (span : Span) (kind : LoopExit) : Fragment := #[⟨.exit kind, span⟩]

/-- The size of any jump. -/
def jumpSize : Nat := Opcode.jump.size

/-- Code that evaluates `test` and goes on with `yes` or `no`. -/
def choice (span : Span) (test yes no : Fragment) : Fragment :=
  test ++ jump span .jumpFalsy (jumpSize + yes.byteSize + jumpSize) ++ yes
    ++ jump span .jump (jumpSize + no.byteSize) ++ no

/-- Code that evaluates `test` and goes on with `yes` or not. -/
def guarded (span : Span) (test yes : Fragment) : Fragment :=
  test ++ jump span .jumpFalsy (jumpSize + yes.byteSize) ++ yes

/-- Code that evaluates `left`, and `right` only if `op` does not jump over it. -/
def shortCircuit (span : Span) (op : Opcode) (left right : Fragment) : Fragment :=
  left ++ jump span op (jumpSize + right.byteSize) ++ right

/-- An item of a loop body with exits made jumps. The places, and that of the item, are counted from
the start of the body. -/
def closeItem (leave next place : Nat) : CodeItem → CodeItem
  | .exit .leave => .jump .jump ((leave : Int) - place)
  | .exit .next => .jump .jump ((next : Int) - place)
  | item => item

/-- Adds a piece of a loop body to those before it, which have the given size. -/
def closePiece (leave next : Nat) : Fragment × Nat → CodePiece → Fragment × Nat
  | (closed, place), piece =>
    (closed.push { piece with item := closeItem leave next place piece.item },
      place + piece.item.size)

/-- Makes the exits of a loop body jumps. The places are counted from the start of the body. -/
def closeExits (body : Fragment) (leave next : Nat) : Fragment :=
  (body.foldl (closePiece leave next) (#[], 0)).1

/-- A loop: `test` if there is one, the body, the step behind it and the jump back. -/
def loop (span : Span) (test : Option Fragment) (body post : Fragment) : Fragment :=
  let rest := body.byteSize + post.byteSize + jumpSize
  let head : Fragment := test.elim #[] fun test => test ++ jump span .jumpFalsy (jumpSize + rest)
  head ++ body.closeExits rest body.byteSize ++ post
    ++ jump span .jump (-((head.byteSize + body.byteSize + post.byteSize : Nat) : Int))

/-- The bytes of an item that stands at a place. -/
def encodeItem (place : Nat) : CodeItem → List UInt8
  | .instr op operands => op.encode operands
  | .jump op distance => op.encode [((place : Int) + distance).toNat]
  | .exit _ => Opcode.jump.encode [0]

/-- Adds a piece to the bytes and spans of those before it. -/
def assemblePiece : ByteArray × SourceMap → CodePiece → ByteArray × SourceMap
  | (bytes, map), piece =>
    ((encodeItem bytes.size piece.item).foldl ByteArray.push bytes,
      map.insert bytes.size piece.span)

/-- The bytes of a fragment and the span of every instruction. -/
def assemble (code : Fragment) : ByteArray × SourceMap := code.foldl assemblePiece (.empty, {})

/-- Checks a piece behind those that have been checked, which have the given size. -/
def fitPiece : Bool × Nat → CodePiece → Bool × Nat
  | (fits, place), piece => (fits && piece.item.fits place, place + piece.item.size)

/-- Whether assembling a fragment keeps all of its operands. -/
def fits (code : Fragment) : Bool := (code.foldl fitPiece (true, 0)).1

end Fragment

end Skiff
