import Std.Data.HashMap
import Skiff.Code.Listing
import Skiff.Source.File
import Skiff.Value.Text

/-!
# Programs

A program is a main function and the constants that all its functions refer to by number.
Constants that are equal scalars or the same function can be merged, and a program can be
listed.
-/

namespace Skiff

structure Program where
  files : FileSet := {}
  /-- The main function, as a reference into the heap. -/
  main : Nat := 0
  constants : Array Value := #[]
  deriving Inhabited

/-- What decides whether two constants are merged. -/
inductive MergeKey where
  | function (ref : Nat)
  | int (n : Int64)
  | float (bits : UInt64)
  | string (text : String)
  | char (code : UInt32)
  deriving DecidableEq, Hashable

/-- Constants without a key are never merged. -/
def MergeKey.ofValue? : Value → Option MergeKey
  | .function ref => some (function ref)
  | .int n => some (int n)
  | .float x => some (float x.bits)
  | .string s => some (string s)
  | .char c => some (char c.val)
  | _ => none

/-- Constants with one of each kind, and where each of the constants before has gone. -/
structure Merged where
  constants : Array Value := #[]
  places : Array Nat := #[]
  known : Std.HashMap MergeKey Nat := {}

/-- Adds a constant of its own. -/
def Merged.addNew (merged : Merged) (constant : Value) : Merged :=
  { merged with
    places := merged.places.push merged.constants.size
    constants := merged.constants.push constant }

/-- Adds a constant unless an equal one is there. -/
def Merged.add (merged : Merged) (constant : Value) : Merged :=
  match MergeKey.ofValue? constant with
  | none => merged.addNew constant
  | some key =>
    match merged.known[key]? with
    | some place => { merged with places := merged.places.push place }
    | none =>
      { merged with known := merged.known.insert key merged.constants.size }.addNew constant

/-- Code with the numbers of its constants replaced. -/
def renumber (places : Array Nat) (code : ByteArray) : ByteArray :=
  (decode code).foldl (fun code instr =>
    match instr.op, instr.operands with
    | .const, old :: _ | .closure, old :: _ =>
      match places[old]? with
      | some place => writeBytes code (instr.pos + 1) (littleEndian 2 place)
      | none => code
    | _, _ => code) code

namespace Program

/-- A new function with the numbers of the constants in its code replaced. -/
def renumberFunction (places : Array Nat) (ref : Nat) (heap : Heap) : Value × Heap :=
  let function := heap.function ref
  heap.newFunction { function with code := renumber places function.code }

/-- Adds a constant to others; a function is made anew. -/
def renew (places : Array Nat) : Array Value × Heap → Value → Array Value × Heap
  | (constants, heap), .function ref =>
    let (function, heap) := renumberFunction places ref heap
    (constants.push function, heap)
  | (constants, heap), constant => (constants.push constant, heap)

/-- Merges equal constants. Every function is made anew, with the new numbers in its code. -/
def merge (program : Program) (heap : Heap) : Program × Heap :=
  let merged := program.constants.foldl Merged.add {}
  let (constants, heap) := merged.constants.foldl (renew merged.places) (#[], heap)
  let main := heap.functions.size
  let (_, heap) := renumberFunction merged.places program.main heap
  ({ program with main, constants }, heap)

/-- The lines of a constant in a listing. -/
def constantLines (heap : Heap) (index : Nat) (constant : Value) : List String :=
  let place := "[" ++ padLeft ' ' 3 (toString index) ++ "] "
  match constant with
  | .function ref =>
    let function := heap.function ref
    let variadic := if function.variadic then ", varargs" else ""
    s!"{place}compiled-function (locals={function.locals}, params={function.params}{variadic})"
      :: (Skiff.listing function.code 0).toList.map ("     " ++ ·)
  | constant => [place ++ heap.inspect constant]

/-- The instructions of the main function, and the constants with the instructions of those that
are functions. -/
def listing (program : Program) (heap : Heap) : String :=
  let main := (Skiff.listing (heap.function program.main).code 0).toList
  let constants := program.constants.toList.zipIdx.flatMap fun (constant, index) =>
    constantLines heap index constant
  String.join (("Main:" :: main ++ "Constants:" :: constants).map (· ++ "\n"))

end Program

end Skiff
