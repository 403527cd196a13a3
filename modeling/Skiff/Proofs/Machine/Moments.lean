import Mathlib
import Skiff.Machine.Run
import Skiff.Proofs.Stateful

/-!
# The moments of a run

A run goes on in small steps: a thread begins a call, executes an instruction, or looks whether what
it waits for has come; a task takes the place of the main thread, or gives it back; time passes. The
moments between these steps are what can be observed of a run.
-/

namespace Skiff

open Relation (ReflTransGen)

/-- How far a thread has come. -/
inductive Stage where
  /-- It is about to call something from outside of any function. -/
  | starting (callee : Value) (args : List Value)
  | ready
  | waiting (on : Waiting) (direct : Bool)
  | ended (result : Except RuntimeError Value)

def TaskState.stage : TaskState → Stage
  | .ready => .ready
  | .waiting on direct => .waiting on direct
  | .done => .ended (.ok .undefined)

def Signal.stage : Signal → Stage
  | .next => .ready
  | .halt value => .ended (.ok value)
  | .wait on => .waiting on false

def Started.stage : Started → Stage
  | .running => .ready
  | .value result => .ended (.ok result)
  | .waiting on => .waiting on true

namespace Exec

/-- Goes on behind something that was waited for. -/
def resume (direct : Bool) (value : Value) : Exec Stage := do
  if direct then
    charge 1
    return .ended (.ok value)
  else
    finishNative value
    return .ready

/-- Goes on by one step. -/
def proceed (depth : Nat) : Stage → Exec Stage
  | .starting callee args => Started.stage <$> start callee args
  | .ready => Signal.stage <$> step depth
  | .waiting on direct => do
    match ← poll on with
    | none => return .waiting on direct
    | some value => resume direct value
  | .ended result => return .ended result

end Exec

/-- The main thread while a task is in its place: how far it has come, and the number of the task
and its routine. -/
structure Away where
  thread : Thread
  stage : Stage
  index : Nat
  routine : Nat

/-- A moment of a run. -/
structure Moment where
  machine : Machine
  stage : Stage
  away : Option Away := none

/-- What a task does first when it takes the place of the main thread. -/
def Task.stage (task : Task) : Stage :=
  match task.start with
  | some (callee, args) => .starting callee args
  | none => task.state.stage

/-- The world without the task that is taking a turn. -/
def World.without (world : World) (index : Nat) : World :=
  { world with tasks := world.tasks.setIfInBounds index { (default : Task) with state := .done } }

/-- The world with a task that has had a turn. -/
def World.withTask (world : World) (index : Nat) (task : Task) : World :=
  { world with tasks := world.tasks.setIfInBounds index task }

namespace Moment

/-- The moment that a computation leads to. -/
def after (away : Option Away) : EStateM.Result RuntimeError Machine Stage → Moment
  | .ok stage machine => ⟨machine, stage, away⟩
  | .error e machine => ⟨machine, .ended (.error e), away⟩

/-- At which depth of frames the thread that is running halts, when the main thread does so at a
given one. -/
def depth (moment : Moment) (main : Nat) : Nat := if moment.away.isSome then 0 else main

/-- One step from a moment to another. -/
inductive Next (main : Nat) : Moment → Moment → Prop where
  | proceed (moment : Moment) :
      Next main moment
        (after moment.away (Exec.proceed (moment.depth main) moment.stage moment.machine))
  | take {thread : Thread} {heap : Heap} {world : World} {stage : Stage} {index : Nat} {task : Task}
      (found : world.tasks[index]? = some task) (undone : task.state ≠ .done) :
      Next main ⟨⟨thread, heap, world⟩, stage, none⟩
        ⟨⟨task.thread, heap, world.without index⟩, task.stage,
          some ⟨thread, stage, index, task.routine⟩⟩
  | giveBack {thread : Thread} {heap : Heap} {world : World} {away : Away} {state : TaskState}
      (undone : state ≠ .done) :
      Next main ⟨⟨thread, heap, world⟩, state.stage, some away⟩
        ⟨⟨away.thread, heap, world.withTask away.index { thread, routine := away.routine, state }⟩,
          away.stage, none⟩
  | finish {thread : Thread} {heap : Heap} {world : World} {away : Away}
      {result : Except RuntimeError Value} :
      Next main ⟨⟨thread, heap, world⟩, .ended result, some away⟩
        ⟨⟨away.thread, heap, world.finishRoutine away.routine
          (result.mapError RuntimeError.message)⟩, away.stage, none⟩
  | pass {thread : Thread} {heap : Heap} {world : World} {stage : Stage} (clock : Nat) :
      Next main ⟨⟨thread, heap, world⟩, stage, none⟩
        ⟨⟨thread, heap, { world with clock }⟩, stage, none⟩

theorem Next.of_step {main : Nat} {machine after : Machine}
    (done : Exec.step main machine = .ok .next after) :
    Next main ⟨machine, .ready, none⟩ ⟨after, .ready, none⟩ := by
  have next : Next main ⟨machine, .ready, none⟩
      (Moment.after none (Exec.proceed main .ready machine)) :=
    .proceed _
  rw [Exec.proceed, map_eq_pure_bind, bind_ok done] at next
  exact next

/-- A moment comes after another one, or is the same. -/
abbrev Reaches (main : Nat) : Moment → Moment → Prop := ReflTransGen (Next main)

end Moment

namespace Machine

/-- The moment at which a run of the main function begins. -/
def runStart (machine : Machine) (token : Nat) : Moment :=
  ⟨{ machine with thread := { machine.thread with token } }.freshBudget.atMain, .ready, none⟩

/-- The moment at which a call from outside begins. -/
def callStart (machine : Machine) (callee : Value) (args : List Value) : Moment :=
  ⟨machine, .starting callee args, none⟩

end Machine

namespace Moment

/-- The machine that a run, or a call from outside, leaves at its end. -/
inductive Leaves : Moment → Machine → Prop where
  | cut {machine : Machine} {result : Except RuntimeError Value} :
      Leaves ⟨machine, .ended result, none⟩ (machine.unwind 0 0)
  | kept {machine : Machine} {value : Value} : Leaves ⟨machine, .ended (.ok value), none⟩ machine

/-- A step of a run, or what the host does between runs with values that it is allowed to give. -/
inductive Later (allowed : Moment → Value → Prop) : Moment → Moment → Prop where
  | next {main : Nat} {moment after : Moment} (step : Next main moment after) :
      Later allowed moment after
  | run {moment : Moment} {machine : Machine} (leaves : moment.Leaves machine) (token : Nat) :
      Later allowed moment (machine.runStart token)
  | call {moment : Moment} {machine : Machine} (leaves : moment.Leaves machine) {callee : Value}
      {args : List Value} (known : ∀ value ∈ callee :: args, allowed moment value)
      (few : args.length < 2 ^ 64) : Later allowed moment (machine.callStart callee args)
  | setGlobal {moment : Moment} {machine : Machine} (leaves : moment.Leaves machine) (slot : Nat)
      {value : Value} (known : allowed moment value) :
      Later allowed moment ⟨machine.setGlobal slot value, .ended (.ok .undefined), none⟩

end Moment

end Skiff
