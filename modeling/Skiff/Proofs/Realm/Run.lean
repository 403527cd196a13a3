import Skiff.Proofs.Machine.Moments
import Skiff.Proofs.Realm.Step

/-!
# Runs inside of a realm

What may occur at one moment is all that may occur at any later one, in the same run or in one that
the host begins with values that may occur.
-/

namespace Skiff

open Array Option Realm

open Relation (ReflTransGen)

/-- How far a thread has come with what may occur. -/
def Stage.Inside (realm : Realm) : Stage → Prop
  | .starting callee args => CallInside realm callee args
  | .ready => True
  | .waiting on _ => on.Inside realm
  | .ended (.ok value) => value.Inside realm
  | .ended (.error e) => e.Inside realm

/-- A moment at which everything may occur. -/
structure Moment.Inside (realm : Realm) (moment : Moment) : Prop where
  machine : moment.machine.Inside realm
  stage : moment.stage.Inside realm
  away {away : Away} : moment.away = some away → away.thread.Inside realm ∧ away.stage.Inside realm

variable {realm : Realm} {value : Value}

theorem TaskState.Inside.stage {state : TaskState} (inside : state.Inside realm) :
    state.stage.Inside realm := by
  cases state with
  | ready => trivial
  | waiting on direct => exact inside
  | done => trivial

/-! ## Steps -/

namespace Exec

theorem inside_map {α β : Type} {good : α → Prop} {wanted : β → Prop} {action : Exec α}
    {change : α → β} (keeps : InsideKeeps realm good action)
    (implied : ∀ value, good value → wanted (change value)) :
    InsideKeeps realm wanted (change <$> action) := by
  intro machine inside
  have result := keeps machine inside
  simp only [Functor.map, EStateM.map]
  generalize action machine = result at result
  cases result with
  | ok holds kept => exact .ok (implied _ holds) kept
  | error holds kept => exact .error holds kept

section
variable (free : realm.Free)
include free

theorem inside_resume (direct : Bool) (known : value.Inside realm) :
    InsideKeeps realm (Stage.Inside realm) (resume direct value) := by
  cases direct with
  | true =>
    apply Keeps.bind (inside_charge 1)
    intro _ _
    exact .pure known
  | false =>
    apply Keeps.bind (keeps_of_holds ((stack free).pushCharged (values known)))
    intro _ _
    exact .pure trivial

/-- Going on by one step. -/
theorem inside_proceed (depth : Nat) {stage : Stage} (known : stage.Inside realm) :
    InsideKeeps realm (Stage.Inside realm) (proceed depth stage) := by
  cases stage with
  | starting callee args =>
    apply inside_map
      (keeps_of_holds ((calls free).start (values known.known) (Realm.args known.others known.few)))
    intro begun starts
    cases starts with
    | running => trivial
    | value values => exact values.inside
    | waiting inside => exact inside
  | ready =>
    apply inside_map (keeps_of_holds (Realm.step free depth))
    intro signal signals
    cases signals with
    | next => trivial
    | halt values => exact values.inside
    | wait inside => exact inside
  | waiting on direct =>
    apply Keeps.bind (keeps_of_holds ((stack free).poll known))
    intro answer answers
    cases answers with
    | none => exact .pure known
    | some values => exact inside_resume free direct values.inside
  | ended result => exact .pure known

end

end Exec

/-! ## Tasks -/

namespace World.Inside

variable {able : Task → Prop} {world : World}

theorem setTask (inside : world.Inside realm able) (index : Nat) {task : Task}
    (known : task.state ≠ .done → able task) : (world.withTask index task).Inside realm able := by
  refine { inside with tasks := ?_ }
  intro other member undone
  rcases mem_or_eq_of_mem_setIfInBounds member with old | rfl
  · exact inside.tasks old undone
  · exact known undone

theorem without (inside : world.Inside realm able) (index : Nat) :
    (world.without index).Inside realm able :=
  inside.setTask index fun undone => absurd rfl undone

theorem finishRoutine (inside : world.Inside realm able) (lawful : realm.Lawful) (ref : Nat)
    {result : Except RuntimeError Value} (known : Stage.Inside realm (.ended result)) :
    (world.finishRoutine ref (result.mapError RuntimeError.message)).Inside realm able := by
  apply inside.setRoutine
  intro _
  cases result with
  | ok value => exact known
  | error e => exact lawful.message known

end World.Inside

/-- What a task begins with. -/
theorem Task.Inside.stage {task : Task} (inside : task.Inside realm) : task.stage.Inside realm := by
  unfold Task.stage
  cases start : task.start with
  | none => exact inside.state.stage
  | some call => exact inside.start start

namespace Moment.Inside

variable {moment after : Moment}

/-- One step of a run. -/
theorem next (inside : moment.Inside realm) (free : realm.Free) {main : Nat}
    (step : Next main moment after) : after.Inside realm := by
  have lawful := free.toLawful
  cases step with
  | proceed =>
    have result :=
      Exec.inside_proceed free (moment.depth main) inside.stage moment.machine inside.machine
    generalize Exec.proceed (moment.depth main) moment.stage moment.machine = result at result
    cases result with
    | ok holds kept | error holds kept => exact ⟨kept, holds, inside.away⟩
  | take found undone =>
    obtain ⟨⟨thread, heap, world⟩, stage, -⟩ := inside
    have task := world.tasks (mem_of_getElem? found) undone
    refine ⟨⟨task.thread, heap, world.without _⟩, task.stage, ?_⟩
    intro away same
    cases same
    exact ⟨thread, stage⟩
  | @giveBack _ _ _ away state undone =>
    obtain ⟨⟨thread, heap, world⟩, stage, behind⟩ := inside
    obtain ⟨home, before⟩ := behind rfl
    refine ⟨⟨home, heap, world.setTask _ ?_⟩, before, fun none => absurd none.symm (some_ne_none _)⟩
    intro _
    refine ⟨thread, ?_, fun none => absurd none.symm (some_ne_none _)⟩
    cases state with
    | ready => trivial
    | waiting on direct => exact stage
    | done => trivial
  | finish =>
    obtain ⟨⟨thread, heap, world⟩, stage, behind⟩ := inside
    obtain ⟨home, before⟩ := behind rfl
    exact ⟨⟨home, heap, world.finishRoutine lawful _ stage⟩, before, fun none =>
      absurd none.symm (some_ne_none _)⟩
  | pass clock =>
    obtain ⟨⟨thread, heap, world⟩, stage, behind⟩ := inside
    exact ⟨⟨thread, heap, world.congr rfl rfl rfl rfl⟩, stage, behind⟩

/-! ## What the host does -/

/-- A run or a call leaves a machine that holds what may occur. -/
theorem leaves (inside : moment.Inside realm) (free : realm.Free) {machine : Machine}
    (leaves : moment.Leaves machine) : machine.Inside realm := by
  obtain ⟨⟨thread, heap, world⟩, -, -⟩ := inside
  cases leaves with
  | kept => exact ⟨thread, heap, world⟩
  | cut =>
    have zero : realm.count 0 := free.count (Nat.two_pow_pos 64)
    refine ⟨{ thread.clear 0 _ zero with frames := ?_ }, heap, world⟩
    intro frame member
    exact thread.frames (mem_def.2 (mem_extract (mem_def.1 member)))

end Moment.Inside

/-- The main function is put at its start, with a new budget. -/
theorem Machine.Inside.runStart {machine : Machine} (inside : machine.Inside realm)
    (free : realm.Free) (token : Nat) : (machine.runStart token).Inside realm := by
  have zero : realm.count 0 := free.count (Nat.two_pow_pos 64)
  obtain ⟨thread, heap, world⟩ := inside
  have main : Frame.Inside realm { function := machine.thread.program.main, ip := 0, base := 0 } :=
    ⟨thread.main, zero⟩
  have start (budget : Option Nat) (code : ByteArray) : Thread.Inside realm { machine.thread with
      token, budget, code, sp := 0, ip := 0, base := 0
      frames := #[{ function := machine.thread.program.main, ip := 0, base := 0 }]
      function := machine.thread.program.main } := by
    refine { thread with frames := ?_, function := thread.main, sp := zero, base := zero }
    intro frame member
    rw [mem_singleton.1 member]
    exact main
  refine ⟨?_, trivial, fun none => absurd none.symm (some_ne_none _)⟩
  unfold Machine.runStart Machine.freshBudget
  dsimp only
  split
  · exact ⟨start none _, heap, world⟩
  · exact ⟨start _ _, heap, world.congr rfl rfl rfl rfl⟩

/-- A machine with nothing on its stack, for a program that holds what may occur. -/
theorem Machine.inside_load (free : realm.Free) {program : Program} {config : Config}
    {globals : Array Value} {heap : Heap} {world : World}
    (constants : ∀ value ∈ program.constants, value.Inside realm)
    (main : realm.function program.main) (room : config.stackSize < 2 ^ 64)
    (known : ∀ value ∈ globals, value.Inside realm) (kept : heap.Inside realm)
    (around : world.Inside realm (Task.Inside realm)) :
    (Machine.load program config globals heap world).Inside realm := by
  have zero : realm.count 0 := free.count (Nat.two_pow_pos 64)
  have start (token : Nat) (budget : Option Nat) : Thread.Inside realm {
      program, config, token, budget
      stack := replicate config.stackSize .undefined
      globals := globals ++ replicate (config.globalsSize - globals.size) .undefined
      function := program.main
      code := (heap.function program.main).code } := by
    refine ⟨?_, ?_, fun member => constants _ member, fun member => absurd member (not_mem_empty _),
      main, main, free.count ?_, free.count room, zero, zero⟩
    · intro value member
      rw [(mem_replicate.1 member).2]
      trivial
    · intro value member
      rcases mem_append.1 member with given | padding
      · exact known value given
      · rw [(mem_replicate.1 padding).2]
        trivial
    · rw [size_replicate]
      exact room
  unfold Machine.load Machine.freshBudget
  dsimp only
  split
  · exact ⟨start _ none, kept, around.congr rfl rfl rfl rfl⟩
  · exact ⟨start _ _, kept, around.congr rfl rfl rfl rfl⟩

namespace Moment.Inside

variable {moment after : Moment}

/-- A step of a run, or what the host does with values that may occur. -/
theorem later (inside : moment.Inside realm) (free : realm.Free) {allowed : Moment → Value → Prop}
    (known : ∀ value, allowed moment value → value.Inside realm)
    (step : Later allowed moment after) : after.Inside realm := by
  cases step with
  | next step => exact inside.next free step
  | run leaves token => exact (inside.leaves free leaves).runStart free token
  | call leaves allowed few =>
    refine ⟨inside.leaves free leaves, ⟨?_, ?_, free.count few⟩,
      fun none => absurd none.symm (some_ne_none _)⟩
    · exact known _ (allowed _ (List.mem_cons_self ..))
    · intro arg member
      exact known _ (allowed _ (List.mem_cons_of_mem _ member))
  | setGlobal leaves slot allowed =>
    obtain ⟨thread, heap, world⟩ := inside.leaves free leaves
    exact ⟨⟨thread.setGlobal slot (known _ allowed), heap, world⟩, trivial,
      fun none => absurd none.symm (some_ne_none _)⟩

end Moment.Inside

end Skiff
