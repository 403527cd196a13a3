import Skiff.Machine.Step

/-!
# Taking turns

The main thread and the tasks that it has spawned run in turn, each for a number of instructions
or until it has to wait. A round takes as long as the longest turn in it. If every thread waits,
time goes on to the first deadline.
-/

namespace Skiff

/-- Why a turn has ended. -/
inductive Pause where
  | halted (value : Value)
  | waiting (on : Waiting)
  | outOfTime

/-- How a call has begun. -/
inductive Started where
  | running
  | value (value : Value)
  | waiting (on : Waiting)

namespace Exec

/-- Executes instructions until the machine halts, has to wait, or has executed `fuel` of them. The
number of instructions that are left over is part of the answer. -/
def turn (depth : Nat) : (fuel : Nat) → Exec (Pause × Nat)
  | 0 => return (.outOfTime, 0)
  | fuel + 1 => do
    match ← step depth with
    | .next => turn depth fuel
    | .halt value => return (.halted value, fuel)
    | .wait on => return (.waiting on, fuel)

/-- Begins a call of something that no byte code stands behind. -/
def startPlain (callee : Value) (args : List Value) : Exec Started := do
  match ← callNative callee args .empty with
  | .value value => charge 1; return .value value
  | .wait on => return .waiting on

/-- Begins a call from outside of any function. -/
def start (callee : Value) (args : List Value) : Exec Started := do
  match callee with
  | .function ref =>
    push callee
    args.forM push
    enter ref args.length false
    return .running
  | callee => startPlain callee args

/-- How a thread goes on after a turn: the new state, the value of the whole thread if it has come
to an end, and how many instructions the turn took. -/
structure Turned where
  state : TaskState
  value : Option Value := none
  used : Nat := 0
  /-- Whether the thread did anything. -/
  active : Bool := true

/-- The number of instructions of a full turn. -/
def turnLength : Nat := 2000

/-- A turn of a thread that can run. -/
def run (depth : Nat) : Exec Turned := do
  let (pause, left) ← turn depth turnLength
  let used := turnLength - left
  match pause with
  | .halted value => return { state := .done, value := some value, used }
  | .waiting on => return { state := .waiting on false, used }
  | .outOfTime => return { state := .ready, used }

/-- A turn of a thread in any state. -/
def takeTurn (depth : Nat) : TaskState → Exec Turned
  | .ready => run depth
  | .waiting on direct => do
    match ← poll on with
    | none => return { state := .waiting on direct, active := false }
    | some value =>
      if direct then
        charge 1
        return { state := .done, value := some value }
      else
        finishNative value
        run depth
  | .done => return { state := .done, active := false }

/-- The first turn of a call. -/
def startTurn (depth : Nat) (callee : Value) (args : List Value) : Exec Turned := do
  match ← start callee args with
  | .running => run depth
  | .value value => return { state := .done, value := some value }
  | .waiting on => return { state := .waiting on true }

/-- The first turn of something that may have to wait. -/
def awaitTurn (action : Exec Reply) : Exec Turned := do
  match ← action with
  | .value value => return { state := .done, value := some value }
  | .wait on => return { state := .waiting on true }

end Exec

/-- The turn that a task takes next. -/
def Task.turn (task : Task) : Exec Exec.Turned :=
  match task.start with
  | some (callee, args) => Exec.startTurn 0 callee args
  | none => Exec.takeTurn 0 task.state

/-- The deadline of a thread in a state. -/
def TaskState.deadline? : TaskState → Option Nat
  | .waiting (.finish _ deadline) _ => deadline
  | _ => none

namespace World

/-- Notes how a routine has ended; its token is then on its own. -/
def finishRoutine (world : World) (ref : Nat) (result : Except String Value) : World :=
  let routine := world.routines.getD ref default
  { world with
    routines := world.routines.setIfInBounds ref { routine with result := some result }
    tokens := world.tokens.detach routine.token }

end World

namespace Machine

/-- What a round has done. -/
structure Progress where
  used : Nat := 0
  active : Bool := false

def Progress.add (progress : Progress) (turned : Exec.Turned) : Progress :=
  { used := max progress.used turned.used, active := progress.active || turned.active }

/-- A turn of a task, which takes the place of the main thread for that time. -/
def taskTurn (machine : Machine) (index : Nat) (progress : Progress) : Machine × Progress :=
  match machine with
  | ⟨main, heap, world⟩ =>
    match world.tasks[index]? with
    | none => (⟨main, heap, world⟩, progress)
    | some task =>
      if task.state = .done then (⟨main, heap, world⟩, progress)
      else
        let away : Task := { (default : Task) with state := .done }
        let world := { world with tasks := world.tasks.setIfInBounds index away }
        match task.turn ⟨task.thread, heap, world⟩ with
        | .ok turned ⟨thread, heap, world⟩ =>
          let world := match turned.value with
            | some value => world.finishRoutine task.routine (.ok value)
            | none =>
              let task : Task := { thread, routine := task.routine, state := turned.state }
              { world with tasks := world.tasks.setIfInBounds index task }
          (⟨main, heap, world⟩, progress.add turned)
        | .error e ⟨_, heap, world⟩ =>
          (⟨main, heap, world.finishRoutine task.routine (.error e.message)⟩,
            { progress with active := true })

/-- A turn of every task that there is when the round begins. -/
def taskTurns (machine : Machine) (progress : Progress) : Machine × Progress :=
  (List.range machine.world.tasks.size).foldl (fun (machine, progress) index =>
    machine.taskTurn index progress) (machine, progress)

/-- The first point in time at which a thread stops waiting. -/
def deadline? (machine : Machine) (main : TaskState) : Option Nat :=
  (main.deadline? :: machine.world.tasks.toList.map (·.state.deadline?)).reduceOption.min?

/-- Lets time pass after a round; nothing if all threads wait for ever. -/
def passTime (machine : Machine) (main : TaskState) (progress : Progress) : Option Machine :=
  let at_ (clock : Nat) : Machine := { machine with world := { machine.world with clock } }
  if progress.active then some (at_ (machine.world.clock + progress.used))
  else (machine.deadline? main).map fun deadline => at_ (max machine.world.clock deadline)

/-- Runs rounds, each of which begins with a turn of the main thread, until the main thread comes to
an end. There is no answer if that takes more than `fuel` rounds or never happens. -/
def rounds (depth : Nat) : (fuel : Nat) → Exec Exec.Turned → Machine →
    Option (Except RuntimeError Value) × Machine
  | 0, _, machine => (none, machine)
  | fuel + 1, turn, machine =>
    match turn machine with
    | .error e machine => (some (.error e), machine)
    | .ok turned machine =>
      match turned.value with
      | some value => (some (.ok value), machine)
      | none =>
        let (machine, progress) := machine.taskTurns (Progress.add {} turned)
        match machine.passTime turned.state progress with
        | none => (none, machine)
        | some machine => rounds depth fuel (Exec.takeTurn depth turned.state) machine

end Machine

end Skiff
