import Skiff.Machine.Basic
import Skiff.Value.Collection
import Skiff.Value.Convert
import Skiff.Value.Copy
import Skiff.Value.Format

/-!
# Calls that no byte code stands behind

Builtin functions, methods of routines and channels, and functions of the host. Such a call
gives a value, fails, or has to wait.
-/

namespace Skiff

inductive Reply where
  | value (value : Value)
  | wait (on : Waiting)

/-- How many instructions pass in a second. -/
def instructionsPerSecond : Nat := 20000000

namespace Exec

/-- Checks the number of arguments. -/
def arity (args : List Value) (want : Nat) : Exec Unit :=
  if args.length = want then pure () else throw (.argumentCount want args.length)

/-- A test of the only argument. -/
def testOne (args : List Value) (test : Value → Bool) : Exec Value := do
  arity args 1
  return .bool (test (args.headD .undefined))

/-- A conversion of the first argument; the second is the result if there is none. -/
def convertOr (args : List Value) (convert : Value → Exec (Option Value)) : Exec Value := do
  let (value, default) ← match args with
    | [value] => pure (value, Value.undefined)
    | [value, default] => pure (value, default)
    | _ => throw (.argumentCount 1 args.length)
  return (← convert value).getD default

/-- Zeros, each of which is charged for. -/
def zeroBytes (count : Int64) : Exec Value := do
  let count := count.toInt.toNat
  if maxTextSize < count then throw .bytesLimit
  charge count
  return .bytes ⟨Array.replicate count 0⟩

def intArgument (name : String) : Value → Exec Int64
  | .int n => pure n
  | other => throw (.ofArgument name "int" other)

/-- Integers from the first argument towards the second, each of which is charged for. -/
def range (args : List Value) : Exec Value := do
  let (start, stop, step) ← match args with
    | [start, stop] => pure (start, stop, Value.int 1)
    | [start, stop, step] => pure (start, stop, step)
    | _ => throw (.argumentCount 2 args.length)
  let start ← intArgument "start" start
  let stop ← intArgument "stop" stop
  let step ← intArgument "step" step
  if step ≤ 0 then throw .rangeStep
  let count := rangeCount start stop step
  charge count
  if (← get).thread.config.maxReserve < count then throw .allocationLimit
  allocate fun heap => heap.newArray (rangeItems start stop step)

def channelCapacity : List Value → Exec Nat
  | [] => return 0
  | [.int n] =>
    if 0 ≤ n then return n.toInt.toNat
    else throw (.ofArgument "capacity" "non-negative int" (.int n))
  | [other] => throw (.ofArgument "capacity" "non-negative int" other)
  | args => throw (.argumentCount 1 args.length)

def makeChannel (args : List Value) : Exec Value := do
  let capacity ← channelCapacity args
  let channel := (← get).world.channels.size
  modifyWorld fun world => { world with channels := world.channels.push { capacity } }
  return .channel channel

/-- A new task that calls a function with a stack of its own and a copy of the globals. Its token
is a child of the spawner's. -/
def spawn (callee : Value) (args : List Value) : Exec Value := do
  if !callee.isCallable then throw (.ofArgument "first" "callable" callee)
  modifyGet fun ⟨thread, heap, world⟩ =>
    let (tokens, token) := world.tokens.child thread.token
    let routine := world.routines.size
    let main := thread.program.main
    let fresh : Thread := {
      program := thread.program
      config := thread.config
      stack := Array.replicate thread.config.stackSize .undefined
      globals := thread.globals
      function := main
      code := (heap.function main).code
      budget := thread.budget
      token }
    let task : Task := { thread := fresh, routine, start := some (callee, args) }
    (.routine routine, ⟨thread, heap, { world with
      tokens
      routines := world.routines.push { token }
      tasks := world.tasks.push task }⟩)

/-- Calls a builtin function. -/
def callBuiltin (builtin : Builtin) (args : List Value) : Exec Value :=
  let first := args.headD .undefined
  let heap : Exec Heap := return (← get).heap
  match builtin with
  | .len => do
    arity args 1
    return .int (Int64.ofNat (← ofExcept ((← heap).length first)))
  | .copy => do
    arity args 1
    allocate fun heap => heap.copy first
  | .append => onHeap (Heap.append args)
  | .delete => do
    arity args 2
    onHeap (Heap.delete first (args.getD 1 .undefined))
  | .splice => onHeap (Heap.splice args)
  | .typeName => do
    arity args 1
    return .string first.type.name
  | .format => do
    ofExcept ((← heap).format args)
  | .range => range args
  | .string => convertOr args fun value => do
    match (← heap).toText? value with
    | some text => return some (← ofExcept (Value.ofText text))
    | none => return none
  | .int => convertOr args fun value => return (Heap.toInt? value).map .int
  | .bool => do
    arity args 1
    return .bool (!(← heap).isFalsy first)
  | .float => convertOr args fun value => return (Heap.toFloat? value).map .float
  | .char => convertOr args fun value => return (Heap.toChar? value).map .char
  | .bytes => convertOr args fun value => do
    match value with
    | .int count => return some (← zeroBytes count)
    | value => return (Heap.toBytes? value).map .bytes
  | .time => convertOr args fun value => return (Heap.toTime? value).map .time
  | .isInt => testOne args (·.type = .int)
  | .isFloat => testOne args (·.type = .float)
  | .isString => testOne args (·.type = .string)
  | .isBool => testOne args (·.type = .bool)
  | .isChar => testOne args (·.type = .char)
  | .isBytes => testOne args (·.type = .bytes)
  | .isArray => testOne args (·.type = .array)
  | .isImmutableArray => testOne args (·.type = .immutableArray)
  | .isMap => testOne args (·.type = .map)
  | .isImmutableMap => testOne args (·.type = .immutableMap)
  | .isIterable => testOne args Value.isIterable
  | .isTime => testOne args (·.type = .time)
  | .isError => testOne args (·.type = .error)
  | .isUndefined => testOne args (·.type = .undefined)
  | .isFunction => testOne args (·.type = .function)
  | .isCallable => testOne args Value.isCallable
  | .spawn =>
    match args with
    | [] => throw (.tooFewArguments 1 0)
    | callee :: rest => spawn callee rest
  | .makeChannel => makeChannel args

/-- Stops the computation if the thread has been told to stop. -/
def checkCancelled : Exec Unit := do
  if ← isCancelled then throw .aborted

def channel (ref : Nat) : Exec Channel := return (← get).world.channels.getD ref default

def setChannel (ref : Nat) (channel : Channel) : Exec Unit := modifyWorld fun world =>
  { world with channels := world.channels.setIfInBounds ref channel }

def routine (ref : Nat) : Exec Routine := return (← get).world.routines.getD ref default

/-- Draws a number for the thread. -/
def draw : Exec UInt32 := do
  let draws := Branch.nextDraw (← get).thread.draws
  modifyThread fun thread => { thread with draws }
  return draws

/-- Draws some numbers that do not matter. -/
def skipDraws : Nat → Exec Unit
  | 0 => return
  | count + 1 => do
    let _ ← draw
    skipDraws count

/-- Looks whether what a thread waits for has come. -/
def poll : Waiting → Exec (Option Value)
  | .send ref ticket order => do
    let channel ← channel ref
    if !channel.isWaiting ticket then return some .undefined
    match order.find? (channel.isReady (← isCancelled)) with
    | none => return none
    | some .room => setChannel ref (channel.commit ticket); return some .undefined
    | some .closing => setChannel ref (channel.withdraw ticket); throw .closedChannel
    | some .token => setChannel ref (channel.withdraw ticket); throw .aborted
  | .receive ref => do
    checkCancelled
    let channel ← channel ref
    match channel.take? with
    | some (value, channel) => setChannel ref channel; return some value
    | none => return if channel.closed then some .undefined else none
  | .finish ref deadline => do
    if (← routine ref).isDone then return some (.bool true)
    checkCancelled
    match deadline with
    | some deadline => return if deadline ≤ (← get).world.clock then some (.bool false) else none
    | none => return none
  | .result ref => do
    let routine ← routine ref
    if routine.isDone then return some routine.value
    checkCancelled
    return none

/-- Waits, unless what is waited for is there. -/
def pollOrWait (on : Waiting) : Exec Reply := do
  match ← poll on with
  | some value => return .value value
  | none => return .wait on

/-- Waits for a routine, or for a time. -/
def awaitRoutine (ref : Nat) (on : Waiting) : Exec Reply := do
  skipDraws (if (← routine ref).isDone then 0 else 1)
  pollOrWait on

/-- How long a timeout is in instructions; nothing for one that never ends. -/
def timeout : List Value → Exec (Option Nat)
  | [] => return none
  | [.int seconds] =>
    return if 0 ≤ seconds then some (seconds.toInt.toNat * instructionsPerSecond) else none
  | [.float seconds] => return seconds.scaledCeil? instructionsPerSecond
  | [other] => throw (.ofArgument "timeout" "int or float" other)
  | args => throw (.argumentCount 1 args.length)

def send (ref : Nat) (value : Value) : Exec Reply := do
  checkCancelled
  let before ← channel ref
  if before.closed then throw .closedChannel
  let order := Branch.order (← draw) (← draw)
  let (after, ticket) := before.offer value
  setChannel ref after
  pollOrWait (.send ref ticket order)

/-- Calls a method of a routine or channel. -/
def callMethod (method : Method) (args : List Value) : Exec Reply :=
  let ref := method.target
  match method.name with
  | .wait => do
    let deadline := (← timeout args).map (· + (← get).world.clock)
    awaitRoutine ref (.finish ref deadline)
  | .result => do
    arity args 0
    awaitRoutine ref (.result ref)
  | .abort => do
    arity args 0
    let token := (← routine ref).token
    modifyWorld fun world => { world with tokens := world.tokens.cancel token }
    return .value .undefined
  | .send => do
    arity args 1
    send ref (args.headD .undefined)
  | .recv => do
    arity args 0
    skipDraws (if (← channel ref).closed then 0 else 2)
    pollOrWait (.receive ref)
  | .close => do
    arity args 0
    setChannel ref (← channel ref).close
    return .value .undefined

/-- Calls a function of the host. -/
def callHost (ref : Nat) (args : List Value) (named : Dict Value) : Exec Value
  | ⟨thread, heap, world⟩ =>
    match world.hosts[ref]? with
    | none => .error (.notCallable .host) ⟨thread, heap, world⟩
    | some function =>
      match function.run args named (heap, world.transcript) with
      | .ok value (heap, transcript) => .ok value ⟨thread, heap, { world with transcript }⟩
      | .error e (heap, transcript) => .error e ⟨thread, heap, { world with transcript }⟩

/-- Calls what no byte code stands behind. Only functions of the host take named arguments. -/
def callNative (callee : Value) (args : List Value) (named : Dict Value) : Exec Reply :=
  match callee with
  | .builtin builtin => do
    if named.size ≠ 0 then throw .namedArguments
    return .value (← callBuiltin builtin args)
  | .host ref _ => do
    return .value (← callHost ref args named)
  | .method ref => do
    if named.size ≠ 0 then throw .namedArguments
    callMethod ((← get).heap.method ref) args
  | other => throw (.notCallable other.type)

end Exec

end Skiff
