import Skiff.Machine.Call
import Skiff.Value.Arithmetic
import Skiff.Value.Equality
import Skiff.Value.Index
import Skiff.Value.Iterator

/-!
# Instructions

An instruction is fetched with its operands and executed. The place in the code is behind the
instruction while it is executed, so that jumps and calls can change it.
-/

namespace Skiff

/-- An instruction with its operands; those it does not have are zero. -/
structure Fetched where
  op : Opcode
  first : Nat := 0
  second : Nat := 0
  deriving DecidableEq, Repr

/-- The instruction of a code at a place, if all of it is there. -/
def fetchAt? (code : ByteArray) (op : Opcode) (ip : Nat) : Option (Fetched × Nat) :=
  match op.widths with
  | [] => some ({ op }, ip + 1)
  | [width] =>
    if ip + 1 + width ≤ code.size then
      some ({ op, first := readNumber code (ip + 1) width }, ip + 1 + width)
    else none
  | width :: other :: _ =>
    if ip + 1 + width + other ≤ code.size then
      some ({ op, first := readNumber code (ip + 1) width,
              second := readNumber code (ip + 1 + width) other }, ip + 1 + width + other)
    else none

namespace Exec

/-- The next instruction and the place behind it, unless the thread has been told to stop. -/
def nextInstr (machine : Machine) : Except RuntimeError (Fetched × Nat) :=
  let thread := machine.thread
  if machine.world.tokens.isCancelled thread.token then .error .aborted
  else if thread.code.size ≤ thread.ip then .error .codeEnd
  else
    let byte := byteAt thread.code thread.ip
    match Opcode.ofByte? byte with
    | none => .error (.opcode byte)
    | some op =>
      match fetchAt? thread.code op thread.ip with
      | some fetched => .ok fetched
      | none => .error .outsideBuffer

/-- Takes the next instruction. -/
def fetch : Exec Fetched := fun machine =>
  match nextInstr machine with
  | .ok (fetched, ip) => .ok fetched (machine.mapThread (·.moveTo ip))
  | .error e => .error e machine

def jump (target : Nat) : Exec Unit := modifyThread (·.moveTo target)

def isFalsy (value : Value) : Exec Bool := return (← get).heap.isFalsy value

/-- Charges for a value and pushes it. -/
def pushCharged (value : Value) : Exec Unit := do
  charge 1
  push value

/-- Assigns through selectors, which lie on the stack above the value. -/
def assignAt (target : Value) (count : Nat) : Exec Unit := do
  let selectors := (← popMany count).toList
  let value ← pop
  match selectors.getLast? with
  | none => return
  | some last =>
    let container ← selectors.dropLast.foldlM (fun container selector =>
      onHeap (Heap.getIndex container selector)) target
    onHeap (Heap.setIndex container last value)

/-- The entries of a map from keys and values in turn. -/
def mapEntries : List Value → Dict Value → Except RuntimeError (Dict Value)
  | .string key :: value :: rest, entries => mapEntries rest (entries.insert key value)
  | other :: _ :: _, _ => .error (.indexType other.type)
  | _, entries => .ok entries

/-- The cell of a local variable, which gets one if it has none yet. -/
def localCell (index : Nat) : Exec Nat := do
  let place ← localSlot index
  match ← slot place with
  | .cell ref => return ref
  | value =>
    let ref ← allocate fun heap => heap.newCell value
    setSlot place (.cell ref)
    return ref

/-- The cells that a new function captures; values without a cell get one. -/
def captureAll (values : Array Value) : Exec (Array Nat) :=
  values.mapM fun
    | .cell ref => pure ref
    | value => allocate fun heap => heap.newCell value

/-- Pops an iterator. -/
def popIterator : Exec Nat := do
  match ← pop with
  | .iterator ref => return ref
  | _ => throw .iteratorExpected

/-- Executes an instruction. The machine halts when no more than `depth` frames are left. -/
def execute (depth : Nat) (instr : Fetched) : Exec Signal := do
  match instr.op with
  | .const => push (← constant instr.first)
  | .undefined => push .undefined
  | .true_ => push (.bool true)
  | .false_ => push (.bool false)
  | .pop => let _ ← pop
  | .binary =>
    let some op := Operator.ofNumber? instr.first | throw (.opcode (UInt8.ofNat instr.first))
    let right ← pop
    let left ← pop
    pushCharged (← onHeap (Heap.binary op left right))
  | .equal =>
    let right ← pop
    let left ← pop
    push (.bool ((← get).heap.equal left right))
  | .notEqual =>
    let right ← pop
    let left ← pop
    push (.bool (!(← get).heap.equal left right))
  | .negate => pushCharged (← ofExcept (← pop).negate)
  | .not => push (.bool (← isFalsy (← pop)))
  | .complement => pushCharged (← ofExcept (← pop).complement)
  | .jump => jump instr.first
  | .jumpFalsy => if ← isFalsy (← pop) then jump instr.first
  | .jumpAnd => if ← isFalsy (← top) then jump instr.first else let _ ← pop
  | .jumpOr => if ← isFalsy (← top) then let _ ← pop else jump instr.first
  | .getGlobal => push (← global instr.first)
  | .setGlobal => setGlobal instr.first (← pop)
  | .setGlobalAt => assignAt (← global instr.first) instr.second
  | .getLocal =>
    let value ← slot (← localSlot instr.first)
    push ((← get).heap.deref value)
  | .setLocal =>
    let value ← pop
    let place ← localSlot instr.first
    match ← slot place with
    | .cell ref => modifyHeap fun heap => heap.setCell ref value
    | _ => setSlot place value
  | .defineLocal =>
    let value ← pop
    setSlot (← localSlot instr.first) value
  | .setLocalAt =>
    let value ← slot (← localSlot instr.first)
    assignAt ((← get).heap.deref value) instr.second
  | .localCell => push (.cell (← localCell instr.first))
  | .getFree =>
    let cell ← freeCell instr.first
    push ((← get).heap.cell cell)
  | .setFree =>
    let value ← pop
    let cell ← freeCell instr.first
    modifyHeap fun heap => heap.setCell cell value
  | .setFreeAt =>
    let cell ← freeCell instr.first
    assignAt ((← get).heap.cell cell) instr.second
  | .freeCell => push (.cell (← freeCell instr.first))
  | .getBuiltin =>
    let some builtin := Builtin.ofNumber? instr.first | throw (.builtinIndex instr.first)
    push (.builtin builtin)
  | .array =>
    let items ← popMany instr.first
    charge 1
    push (← allocate fun heap => heap.newArray items)
  | .map =>
    let items ← popMany instr.first
    let entries ← ofExcept (mapEntries items.toList .empty)
    charge 1
    push (← allocate fun heap => heap.newMap entries)
  | .error => pushCharged (.error (← pop))
  | .immutable => pushCharged (← pop).immutable
  | .index =>
    let index ← pop
    let object ← pop
    push (← onHeap (Heap.getIndex object index))
  | .slice =>
    let high ← pop
    let low ← pop
    let object ← pop
    pushCharged (← onHeap (Heap.getSlice object low high))
  | .call => return ← call instr.first instr.second
  | .ret => return ← ret depth (instr.first == 1)
  | .closure =>
    match ← constant instr.first with
    | .function ref =>
      let free ← captureAll (← popMany instr.second)
      charge 1
      push (← allocate fun heap => heap.newFunction { heap.function ref with free })
    | _ => throw (.functionConstant instr.first)
  | .iterate =>
    let value ← pop
    let value := (← get).heap.deref value
    pushCharged (← onHeap (Heap.iterate value))
  | .iterNext =>
    let ref ← popIterator
    push (.bool (← allocate fun heap => heap.advance ref))
  | .iterKey =>
    let ref ← popIterator
    push ((← get).heap.currentKey ref)
  | .iterValue =>
    let ref ← popIterator
    push ((← get).heap.currentValue ref)
  | .suspend => return .halt .undefined
  return .next

/-- Executes the next instruction. -/
def step (depth : Nat) : Exec Signal := do
  execute depth (← fetch)

end Exec

end Skiff
