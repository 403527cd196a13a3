import Skiff.Machine.Native

/-!
# Calls

The callee lies on the stack below its arguments. A function with byte code gets a frame, which
reuses the one of the caller if the function calls itself and returns the result, or throws it
away and returns.
-/

namespace Skiff

/-- What executing an instruction leads to. -/
inductive Signal where
  | next
  | halt (value : Value)
  | wait (on : Waiting)

namespace Exec

/-- Continues the innermost frame, if there is one. -/
def restoreFrame : Exec Unit := fun machine =>
  match machine.thread.frames.back? with
  | none => .ok () machine
  | some frame =>
    let code := (machine.heap.function frame.function).code
    .ok () (machine.mapThread (·.goOn frame code))

/-- Checks the number of arguments on the stack, and collects the surplus ones of a variadic
function in an array. The result is how many arguments lie on the stack then. -/
def packArgs (params : Nat) (variadic : Bool) (count : Nat) : Exec Nat := do
  if variadic then
    let fixed := params - 1
    if count < fixed then throw (.tooFewArguments fixed count)
    let rest ← popMany (count - fixed)
    push (← allocate fun heap => heap.newArray rest)
    return fixed + 1
  else if count ≠ params then throw (.argumentCount params count)
  else return count

/-- Makes room for the local variables of a function behind its arguments. -/
def reserveLocals (base locals : Nat) : Exec Unit := fun machine =>
  let top := base + max locals (machine.thread.sp - base)
  if machine.thread.stack.size < top then .error .stackOverflow machine
  else .ok () (machine.mapThread (·.grow top))

/-- What happens to the result of a call behind which the code goes on at `ip`: it is returned,
it is thrown away (`true`) and nothing is returned, or it is used. -/
def tailPosition? (code : ByteArray) (ip : Nat) : Option Bool :=
  if code.size ≤ ip then none
  else if byteAt code ip = Opcode.ret.byte then
    some (ip + 1 < code.size && byteAt code (ip + 1) = 0)
  else if byteAt code ip = Opcode.pop.byte && ip + 1 < code.size
      && byteAt code (ip + 1) = Opcode.ret.byte then some true
  else none

/-- Starts the running function again with new arguments, in the frame that it has. -/
def repeatFrame (function : Function) (count : Nat) (discard : Bool) : Exec Unit := do
  let base := (← get).thread.base
  let args ← popMany count
  clearFrom base
  args.forM push
  reserveLocals base function.locals
  modifyThread fun thread =>
    { thread with
      ip := 0
      frames := thread.frames.modify (thread.frames.size - 1) fun frame =>
        { frame with discard := frame.discard || discard } }

/-- Gives a function a frame of its own. -/
def pushFrame (ref : Nat) (function : Function) (count : Nat) : Exec Unit := do
  let thread := (← get).thread
  if thread.config.maxFrames ≤ thread.frames.size then throw .stackOverflow
  let base := thread.sp - count
  reserveLocals base function.locals
  modifyThread fun thread =>
    let frames := thread.frames.modify (thread.frames.size - 1) fun caller =>
      { caller with ip := thread.ip }
    { thread with
      frames := frames.push { function := ref, ip := 0, base }
      function := ref
      code := function.code
      ip := 0
      base }

/-- Enters a function whose arguments lie on the stack. -/
def enter (ref count : Nat) (allowTail : Bool) : Exec Unit := do
  let function := (← get).heap.function ref
  let count ← packArgs function.params function.variadic count
  let thread := (← get).thread
  if allowTail && ref == thread.function then
    match tailPosition? thread.code thread.ip with
    | some discard => repeatFrame function count discard
    | none => pushFrame ref function count
  else pushFrame ref function count

/-- The entries of a map of named arguments. -/
def namedEntries (value : Value) : Exec (Dict Value) := do
  match value with
  | .map ref | .immutableMap ref => return (← get).heap.map ref
  | other => throw (.ofArgument "kwargs" "map" other)

/-- Pops a map of named arguments if a flag says that there is one. -/
def popNamedIf (flags flag : Nat) : Exec (Dict Value) := do
  if flags &&& flag = 0 then return .empty else namedEntries (← pop)

/-- Pops the named arguments: those of a spread map, and over them the explicit ones. -/
def popNamed (flags : Nat) : Exec (Dict Value) := do
  let spread ← popNamedIf flags namedSpreadFlag
  let explicit ← popNamedIf flags namedFlag
  return spread.insertAll explicit.entries.toList

/-- Replaces an array on top of the stack by its elements. The result is how many arguments there
are then. -/
def spreadArgs (flags count : Nat) : Exec Nat := do
  if flags &&& spreadFlag = 0 then return count
  match ← pop with
  | .array ref | .immutableArray ref =>
    let items := (← get).heap.array ref
    items.forM push
    if count + items.size = 0 then throw .stackUnderflow
    return count + items.size - 1
  | other => throw (.ofArgument "spread" "array" other)

/-- Goes on behind a call that no byte code stands behind, once its value is there. -/
def finishNative (value : Value) : Exec Unit := do
  charge 1
  push value

/-- Calls something that no byte code stands behind, and that lies on the stack below its
arguments. -/
def callPlain (callee : Value) (count : Nat) (named : Dict Value) : Exec Signal := do
  let args ← popMany count
  let _ ← pop
  match ← callNative callee args.toList named with
  | .value value => finishNative value; return .next
  | .wait on => return .wait on

/-- Executes a call. -/
def call (count flags : Nat) : Exec Signal := do
  let named ← popNamed flags
  let count ← spreadArgs flags count
  let thread := (← get).thread
  if thread.sp < count + 1 then throw .stackUnderflow
  match thread.stack.getD (thread.sp - (count + 1)) .undefined with
  | .function ref =>
    if named.size ≠ 0 then throw .namedArguments
    enter ref count true
    return .next
  | callee => callPlain callee count named

/-- Leaves the running function with a value. The machine halts when no more than `depth` frames are
left. -/
def leave (depth : Nat) (value : Value) : Exec Signal := do
  let some frame := (← get).thread.frames.back? | throw .stackUnderflow
  modifyThread fun thread => { thread with frames := thread.frames.pop }
  let value := if frame.discard then .undefined else value
  clearFrom (frame.base - 1)
  let depthNow := (← get).thread.frames.size
  restoreFrame
  if depthNow ≤ depth then return .halt value
  push value
  return .next

/-- Executes a return, with or without a value on the stack. -/
def ret (depth : Nat) (hasValue : Bool) : Exec Signal := do
  if hasValue then leave depth (← pop) else leave depth .undefined

end Exec

end Skiff
