import Skiff.Machine.Schedule

/-!
# Running programs

A machine runs the main function of its program, or calls a function from outside. It keeps its
global variables, and leaves nothing on its stack.
-/

namespace Skiff

/-- An error and the places at which the functions that were running were, the innermost first. -/
structure RunError where
  error : RuntimeError
  trace : List Position
  deriving DecidableEq, Repr

def RunError.message (e : RunError) : String :=
  "Runtime Error: " ++ e.error.message ++
    String.join (e.trace.map fun place => "\n\tat " ++ place.render)

namespace Machine

/-- A new budget, if the thread has a limit. -/
def freshBudget (machine : Machine) : Machine :=
  let limit := machine.thread.config.maxAllocs
  if limit < 0 then { machine with thread := { machine.thread with budget := none } }
  else
    let id := machine.world.budgets.size
    { machine with
      thread := { machine.thread with budget := some id }
      world := { machine.world with budgets := machine.world.budgets.push (.ofLimit limit) } }

/-- A machine for a program in a world, with a token and a budget of its own. -/
def load (program : Program) (config : Config) (globals : Array Value) (heap : Heap)
    (world : World) : Machine :=
  let (tokens, token) := world.tokens.add
  let missing := config.globalsSize - globals.size
  let thread : Thread := {
    program, config, token
    stack := Array.replicate config.stackSize .undefined
    globals := globals ++ Array.replicate missing .undefined
    function := program.main
    code := (heap.function program.main).code }
  freshBudget ⟨thread, heap, { world with tokens }⟩

/-- The place in the source of the instruction of a function that stands before `ip`. -/
def position? (machine : Machine) (function ip : Nat) : Option Position :=
  ((machine.heap.function function).map.spanAt (ip - 1)).map machine.thread.program.files.position

/-- The places in the source at which the functions of all frames are. -/
def trace (machine : Machine) : List Position :=
  match machine.thread.frames.toList.reverse with
  | [] => []
  | _ :: outer =>
    (machine.position? machine.thread.function machine.thread.ip).toList
      ++ outer.filterMap fun frame => machine.position? frame.function frame.ip

/-- Puts the main function at its start. -/
def atMain (machine : Machine) : Machine :=
  let main := machine.thread.program.main
  { machine with thread := { machine.thread with
      sp := 0
      frames := #[{ function := main, ip := 0, base := 0 }]
      function := main
      code := (machine.heap.function main).code
      ip := 0
      base := 0 } }

/-- Drops everything from a slot and a frame on. -/
def unwind (machine : Machine) (slot depth : Nat) : Machine :=
  let thread := machine.thread
  { machine with thread := { thread with
      frames := thread.frames.extract 0 depth
      stack := Thread.clearSlots thread.stack slot thread.sp
      sp := slot } }

/-- Runs the main function, stopped by a token, with a new budget. There is no answer if the program
does not end within `fuel` rounds. -/
def runWith (machine : Machine) (fuel token : Nat) : Option (Except RunError Unit) × Machine :=
  let machine := { machine with thread := { machine.thread with token } }.freshBudget.atMain
  let (result, machine) := rounds 0 fuel (Exec.takeTurn 0 .ready) machine
  let answer := result.map fun
    | .ok _ => .ok ()
    | .error error => .error { error, trace := machine.trace }
  (answer, machine.unwind 0 0)

/-- Runs the main function under the token that the machine has. -/
def run (machine : Machine) (fuel : Nat) : Option (Except RunError Unit) × Machine :=
  machine.runWith fuel machine.thread.token

/-- Continues the innermost frame, if there is one. -/
def restoreFrame (machine : Machine) : Machine :=
  match Exec.restoreFrame machine with
  | .ok _ machine | .error _ machine => machine

/-- Calls a value. -/
def call (machine : Machine) (fuel : Nat) (callee : Value) (args : List Value) :
    Option (Except RunError Value) × Machine :=
  let depth := machine.thread.frames.size
  let slot := machine.thread.sp
  match rounds depth fuel (Exec.startTurn depth callee args) machine with
  | (some (.error error), machine) =>
    let trace := machine.trace
    let machine := { machine with thread := { machine.thread with
      frames := machine.thread.frames.extract 0 depth } }.restoreFrame
    (some (.error { error, trace }), machine.unwind slot depth)
  | (some (.ok value), machine) => (some (.ok value), machine)
  | (none, machine) => (none, machine)

/-- Does something that may have to wait. -/
def await (machine : Machine) (fuel : Nat) (action : Exec Reply) :
    Option (Except RuntimeError Value) × Machine :=
  rounds machine.thread.frames.size fuel (Exec.awaitTurn action) machine

/-- Cancels the token of the machine, and with it what it has spawned. -/
def abort (machine : Machine) : Machine :=
  { machine with world := { machine.world with
      tokens := machine.world.tokens.cancel machine.thread.token } }

/-- Sets a global variable. -/
def setGlobal (machine : Machine) (slot : Nat) (value : Value) : Machine :=
  match Exec.setGlobal slot value machine with
  | .ok _ machine | .error _ machine => machine

/-- A new token. -/
def newToken (machine : Machine) : Nat × Machine :=
  let (tokens, token) := machine.world.tokens.add
  (token, { machine with world := { machine.world with tokens } })

end Machine

end Skiff
