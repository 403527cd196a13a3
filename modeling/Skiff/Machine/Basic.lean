import Skiff.Concurrent.Budget
import Skiff.Concurrent.Cancel
import Skiff.Concurrent.Channel
import Skiff.Concurrent.Routine
import Skiff.Program

/-!
# Machines

A machine runs one thread: a program with a stack of values, global variables and the frames of
the functions that have been called and have not returned. Threads share a heap and a world,
which holds what they talk to each other through and what they show to the host.
-/

namespace Skiff

structure Config where
  /-- Slots of the stack. -/
  stackSize : Nat := 2048
  /-- How many functions may be running inside one another. -/
  maxFrames : Nat := 1024
  /-- How many global variables there are at the start. -/
  globalsSize : Nat := 1024
  /-- Allocations per run; negative for no limit. -/
  maxAllocs : Int64 := -1
  /-- For how many values the host has room at once. -/
  maxReserve : Nat := 0x100000000
  deriving DecidableEq, Repr, Inhabited

/-- A call that has not returned. -/
structure Frame where
  /-- The function, as a reference into the heap. -/
  function : Nat
  /-- Where the function goes on; the running one has its place in the thread. -/
  ip : Nat
  /-- The slot of the first argument. -/
  base : Nat
  /-- Whether the value that is returned is thrown away. -/
  discard : Bool := false
  deriving DecidableEq, Repr, Inhabited

structure Thread where
  program : Program
  config : Config
  stack : Array Value
  /-- The first slot that is not in use. -/
  sp : Nat := 0
  globals : Array Value
  /-- The innermost frame is the last one. -/
  frames : Array Frame := #[]
  /-- The running function and its code. -/
  function : Nat
  code : ByteArray
  /-- The place behind the instruction that is being executed. -/
  ip : Nat := 0
  base : Nat := 0
  /-- The number of the budget that allocations are charged to, if there is a limit. -/
  budget : Option Nat := none
  /-- The token that stops the thread. -/
  token : Nat
  /-- The last number that was drawn for the thread. -/
  draws : UInt32 := Branch.firstDraw
  deriving Inhabited

/-- Functions that the host offers to programs. They see the heap and the lines of the
transcript. -/
structure HostFunction where
  name : String
  run : List Value → Dict Value → EStateM RuntimeError (Heap × Array String) Value

/-- What a thread waits for. -/
inductive Waiting where
  /-- An offer to a channel, by its ticket, which ends by what comes first in an order. -/
  | send (channel ticket : Nat) (order : List Branch)
  | receive (channel : Nat)
  /-- The end of a routine or a point in time, and then whether the routine is done. -/
  | finish (routine : Nat) (deadline : Option Nat)
  /-- The result of a routine. -/
  | result (routine : Nat)
  deriving DecidableEq, Repr

/-- How a thread goes on. -/
inductive TaskState where
  | ready
  /-- The value goes onto the stack, or is the result of the whole task if it is `direct`. -/
  | waiting (on : Waiting) (direct : Bool)
  | done
  deriving DecidableEq, Repr, Inhabited

/-- A thread that a program has spawned. -/
structure Task where
  thread : Thread
  routine : Nat
  state : TaskState := .ready
  /-- What the task calls when it starts. -/
  start : Option (Value × List Value) := none
  deriving Inhabited

structure World where
  tokens : CancelTokens := {}
  channels : Array Channel := #[]
  routines : Array Routine := #[]
  budgets : Array Budget := #[]
  /-- How many allocations have been charged for, whether there is a limit or not. -/
  charged : Nat := 0
  tasks : Array Task := #[]
  hosts : Array HostFunction := #[]
  /-- The lines that host functions have written. -/
  transcript : Array String := #[]
  /-- Time, counted in instructions. -/
  clock : Nat := 0
  deriving Inhabited

structure Machine where
  thread : Thread
  heap : Heap
  world : World
  deriving Inhabited

namespace Thread

/-- Makes the slots from `low` on, up to `high`, undefined. -/
def clearSlots (stack : Array Value) (low high : Nat) : Array Value :=
  (List.range' low (high - low)).foldl (fun stack slot => stack.setIfInBounds slot .undefined) stack

/-- The thread with a value above its stack, which has a slot for it. -/
def push (thread : Thread) (value : Value) : Thread :=
  { thread with stack := thread.stack.setIfInBounds thread.sp value, sp := thread.sp + 1 }

/-- The thread with its stack cut off at a slot. What was above is undefined. -/
def cut (thread : Thread) (slot : Nat) : Thread :=
  { thread with stack := clearSlots thread.stack slot thread.sp, sp := slot }

/-- The thread without its last value, which lies at a slot. -/
def drop (thread : Thread) (slot : Nat) : Thread :=
  { thread with stack := thread.stack.setIfInBounds slot .undefined, sp := slot }

/-- The thread with a value in a slot. -/
def setSlot (thread : Thread) (slot : Nat) (value : Value) : Thread :=
  { thread with stack := thread.stack.setIfInBounds slot value }

/-- The thread with a global variable set; there are as many as needed. -/
def setGlobal (thread : Thread) (index : Nat) (value : Value) : Thread :=
  let missing := index + 1 - thread.globals.size
  let globals := if missing = 0 then thread.globals
    else thread.globals ++ Array.replicate missing .undefined
  { thread with globals := globals.setIfInBounds index value }

/-- The thread with a longer stack; the new slots are undefined. -/
def grow (thread : Thread) (top : Nat) : Thread :=
  { thread with stack := clearSlots thread.stack thread.sp top, sp := top }

/-- The thread at another place of the running function. -/
def moveTo (thread : Thread) (ip : Nat) : Thread := { thread with ip }

/-- The thread in a frame whose function has the given code. -/
def goOn (thread : Thread) (frame : Frame) (code : ByteArray) : Thread :=
  { thread with function := frame.function, code, ip := frame.ip, base := frame.base }

end Thread

namespace Machine

/-- The machine with a changed thread. -/
@[inline] def mapThread (change : Thread → Thread) : Machine → Machine
  | ⟨thread, heap, world⟩ => ⟨change thread, heap, world⟩

end Machine

/-- Computations of a machine; its state is kept when they fail. -/
abbrev Exec := EStateM RuntimeError Machine

namespace Exec

/-- Runs a computation on the heap. -/
def onHeap {α : Type} (action : HeapM α) : Exec α
  | ⟨thread, heap, world⟩ =>
    match action heap with
    | .ok result heap => .ok result ⟨thread, heap, world⟩
    | .error e heap => .error e ⟨thread, heap, world⟩

/-- Makes something new on the heap. -/
def allocate {α : Type} (make : Heap → α × Heap) : Exec α
  | ⟨thread, heap, world⟩ =>
    let (result, heap) := make heap
    .ok result ⟨thread, heap, world⟩

@[inline] def modifyThread (change : Thread → Thread) : Exec Unit :=
  fun machine => .ok () (machine.mapThread change)

def modifyHeap (change : Heap → Heap) : Exec Unit
  | ⟨thread, heap, world⟩ => .ok () ⟨thread, change heap, world⟩

def modifyWorld (change : World → World) : Exec Unit
  | ⟨thread, heap, world⟩ => .ok () ⟨thread, heap, change world⟩

def ofExcept {α : Type} : Except RuntimeError α → Exec α
  | .ok result => pure result
  | .error e => throw e

/-- Counts allocations and draws them from the budget of the thread. -/
def charge (count : Nat) : Exec Unit := do
  modifyWorld fun world => { world with charged := world.charged + count }
  match (← get).thread.budget with
  | none => return
  | some id =>
    let enough ← modifyGet fun ⟨thread, heap, world⟩ =>
      let (enough, budget) := (world.budgets.getD id default).charge count
      (enough, ⟨thread, heap, { world with budgets := world.budgets.setIfInBounds id budget }⟩)
    if !enough then throw .allocationLimit

/-- Pushes a value onto the stack. -/
def push (value : Value) : Exec Unit := fun machine =>
  if machine.thread.sp < machine.thread.stack.size then .ok () (machine.mapThread (·.push value))
  else .error .stackOverflow machine

/-- Pops a value; its slot becomes undefined. -/
def pop : Exec Value := fun machine =>
  match machine.thread.sp with
  | 0 => .error .stackUnderflow machine
  | sp + 1 =>
    let value := machine.thread.stack.getD sp .undefined
    .ok value (machine.mapThread (·.drop sp))

/-- The value on top of the stack. -/
def top : Exec Value := fun machine =>
  match machine.thread.sp with
  | 0 => .error .stackUnderflow machine
  | sp + 1 => .ok (machine.thread.stack.getD sp .undefined) machine

/-- Pops several values, the oldest first. -/
def popMany (count : Nat) : Exec (Array Value) := fun machine =>
  if machine.thread.sp < count then .error .stackUnderflow machine
  else
    let sp := machine.thread.sp - count
    let values := machine.thread.stack.extract sp machine.thread.sp
    .ok values (machine.mapThread (·.cut sp))

/-- Drops everything from a slot on; the stack then ends there. -/
def clearFrom (slot : Nat) : Exec Unit := modifyThread (·.cut slot)

/-- The slot of a local variable of the running function. -/
def localSlot (index : Nat) : Exec Nat := do
  let thread := (← get).thread
  if thread.base + index < thread.stack.size then return thread.base + index
  else throw .outsideBuffer

def slot (index : Nat) : Exec Value := return (← get).thread.stack.getD index .undefined

def setSlot (index : Nat) (value : Value) : Exec Unit := modifyThread (·.setSlot index value)

def constant (index : Nat) : Exec Value := do
  match (← get).thread.program.constants[index]? with
  | some value => return value
  | none => throw (.constantIndex index)

/-- A global variable; those that were never set are undefined. -/
def global (index : Nat) : Exec Value := return (← get).thread.globals.getD index .undefined

/-- Sets a global variable. -/
def setGlobal (index : Nat) (value : Value) : Exec Unit :=
  modifyThread (·.setGlobal index value)

/-- The cell of a captured variable of the running function. -/
def freeCell (index : Nat) : Exec Nat := do
  let machine ← get
  match (machine.heap.function machine.thread.function).free[index]? with
  | some cell => return cell
  | none => throw (.freeIndex index)

/-- Whether the thread has been told to stop. -/
def isCancelled : Exec Bool := do
  let machine ← get
  return machine.world.tokens.isCancelled machine.thread.token

end Exec

end Skiff
