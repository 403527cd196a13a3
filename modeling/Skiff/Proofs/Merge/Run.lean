import Skiff.Machine.Run
import Skiff.Proofs.Merge.Step

/-!
# Runs before and after merging

Corresponding machines stay so from step to step, hence over turns of a thread, rounds of all
threads and whole runs.
-/

namespace Skiff

open List Machine

namespace Merging

variable {merging : Merging} {stock : Stock}

/-! ## Turns -/

/-- Why turns have ended. -/
inductive PauseRel (link : Link) : Pause × Nat → Pause × Nat → Prop where
  | halted {value value' : Value} (same : ValueRel link value value') (left : Nat) :
      PauseRel link (.halted value, left) (.halted value', left)
  | waiting (on : Waiting) (left : Nat) : PauseRel link (.waiting on, left) (.waiting on, left)
  | outOfTime (left : Nat) : PauseRel link (.outOfTime, left) (.outOfTime, left)

/-- How threads go on after a turn. -/
structure TurnedRel (link : Link) (turned turned' : Exec.Turned) : Prop where
  state : turned.state = turned'.state
  value : Option.Rel (ValueRel link) turned.value turned'.value
  used : turned.used = turned'.used
  active : turned.active = turned'.active

theorem turn (lawful : merging.Lawful) (depth fuel : Nat) :
    merging.Grows stock (fun later => PauseRel (merging.link later)) (Exec.turn depth fuel)
      (Exec.turn depth fuel) := by
  induction fuel generalizing stock with
  | zero => exact .of_sim (.pure (.outOfTime 0))
  | succ fuel ih =>
    refine .bind (step lawful depth) fun _ signals => ?_
    cases signals with
    | next => exact ih
    | halt values => exact .of_sim (.pure (.halted values.same fuel))
    | @wait on => exact .of_sim (.pure (.waiting on fuel))

theorem run (lawful : merging.Lawful) (depth : Nat) :
    merging.Grows stock (fun later => TurnedRel (merging.link later)) (Exec.run depth)
      (Exec.run depth) := by
  refine .bind (turn lawful depth Exec.turnLength) fun _ pauses => ?_
  cases pauses with
  | halted values left => exact .of_sim (.pure ⟨rfl, .some values, rfl, rfl⟩)
  | waiting on left | outOfTime left => exact .of_sim (.pure ⟨rfl, .none, rfl, rfl⟩)

theorem takeTurn (lawful : merging.Lawful) (depth : Nat) (state : TaskState) :
    merging.Grows stock (fun later => TurnedRel (merging.link later)) (Exec.takeTurn depth state)
      (Exec.takeTurn depth state) := by
  cases state with
  | ready => exact run lawful depth
  | waiting on direct =>
    refine .after ((stack lawful).poll on.inside_whole) fun answers => ?_
    cases answers with
    | none => exact .of_sim (.pure ⟨rfl, .none, rfl, rfl⟩)
    | some values =>
      dsimp only
      split
      · exact .of_sim (Sim.bind ((stack lawful).charge 1) fun _ =>
          .pure ⟨rfl, .some values.same, rfl, rfl⟩)
      · exact .after ((stack lawful).pushCharged values) fun _ => run lawful depth
  | done => exact .of_sim (.pure ⟨rfl, .none, rfl, rfl⟩)

variable {callee callee' : Value} {args args' : List Value} {machine machine' : Machine}

theorem startTurn (lawful : merging.Lawful) (depth : Nat)
    (callees : ValueRel (merging.link stock) callee callee')
    (sames : Forall₂ (ValueRel (merging.link stock)) args args') :
    merging.Grows stock (fun later => TurnedRel (merging.link later))
      (Exec.startTurn depth callee args) (Exec.startTurn depth callee' args') := by
  refine .after ((calls lawful).start (Link.values callees) (Link.args sames)) fun starts => ?_
  cases starts with
  | running => exact run lawful depth
  | value values => exact .of_sim (.pure ⟨rfl, .some values.same, rfl, rfl⟩)
  | waiting _ => exact .of_sim (.pure ⟨rfl, .none, rfl, rfl⟩)

/-! ## Rounds -/

theorem finishRoutine {task : Task → Task → Prop} {world world' : World}
    (worlds : WorldRel (merging.link stock) task world world') (ref : Nat)
    {result result' : Except String Value}
    (results : OutcomeRel (merging.link stock) (some result) (some result')) :
    WorldRel (merging.link stock) task (world.finishRoutine ref result)
      (world'.finishRoutine ref result') := by
  have routines := forall₂_getD worlds.routines ref (⟨rfl, .running⟩ : RoutineRel _ default default)
  exact { worlds with
    routines := forall₂_setIfInBounds worlds.routines ref ⟨routines.token, results⟩
    tokens := by
      rw [World.finishRoutine, World.finishRoutine, worlds.tokens, routines.token] }

/-- The turn that a task takes next. -/
theorem nextTurn (lawful : merging.Lawful) {task task' : Task}
    (tasks : merging.TaskRel stock task task') :
    merging.Grows stock (fun later => TurnedRel (merging.link later)) task.turn task'.turn := by
  have starts := tasks.start
  unfold Task.turn
  rw [tasks.state]
  generalize task.start = start, task'.start = start' at starts
  cases starts with
  | none => exact takeTurn lawful 0 _
  | some both => exact startTurn lawful 0 both.1 both.2

section
variable (lawful : merging.Lawful) (same : (merging.frames stock).state machine machine')
include lawful same

/-- A turn of a task. -/
theorem taskTurn (index : Nat) (progress : Progress) :
    ∃ later, stock.Within later ∧
      (merging.frames later).state (machine.taskTurn index progress).1
        (machine'.taskTurn index progress).1 ∧
      (machine.taskTurn index progress).2 = (machine'.taskTurn index progress).2 := by
  obtain ⟨thread, heap, world⟩ := machine
  obtain ⟨thread', heap', world'⟩ := machine'
  obtain ⟨cores, threads, heaps, worlds⟩ := id same
  have found := forall₂_getElem? worlds.tasks index
  unfold Machine.taskTurn
  dsimp only at found ⊢
  rw [Array.getElem?_toList, Array.getElem?_toList] at found
  generalize world.tasks[index]? = task, world'.tasks[index]? = task' at found
  cases found with
  | none => exact ⟨stock, .refl stock, same, rfl⟩
  | @some task task' tasks =>
    dsimp only
    rw [tasks.state]
    split
    · exact ⟨stock, .refl stock, same, rfl⟩
    · rename_i active
      have away : merging.TaskRel stock { (default : Task) with state := .done }
          { (default : Task) with state := .done } :=
        ⟨rfl, rfl, .none, fun active => absurd rfl active⟩
      obtain ⟨later, more, results⟩ := nextTurn lawful tasks
        ⟨task.thread, heap, { world with tasks := world.tasks.setIfInBounds index _ }⟩
        ⟨task'.thread, heap', { world' with tasks := world'.tasks.setIfInBounds index _ }⟩
        ⟨cores, tasks.thread (by rwa [tasks.state]), heaps,
          { worlds with tasks := forall₂_setIfInBounds worlds.tasks index away }⟩
      have mains := threads.mono lawful cores.toStockRel more
      refine ⟨later, more, ?_⟩
      generalize task.turn ⟨task.thread, heap, _⟩ = left,
        task'.turn ⟨task'.thread, heap', _⟩ = right at results ⊢
      cases results with
      | @ok turned turned' machine machine' both states =>
        obtain ⟨next, heap, world⟩ := machine
        obtain ⟨next', heap', world'⟩ := machine'
        obtain ⟨cores, nexts, heaps, worlds⟩ := states
        obtain ⟨state, value, used, active⟩ := turned
        obtain ⟨state', value', used', active'⟩ := turned'
        obtain ⟨rfl, values, rfl, rfl⟩ := both
        refine ⟨⟨cores, mains, heaps, ?_⟩, rfl⟩
        cases values with
        | none =>
          exact { worlds with
            tasks := forall₂_setIfInBounds worlds.tasks index
              ⟨tasks.routine, rfl, .none, fun _ => nexts⟩ }
        | some values =>
          dsimp only
          rw [tasks.routine]
          exact finishRoutine worlds _ (.value values)
      | @error e _ machine machine' failures states =>
        obtain rfl : e = _ := failures
        obtain ⟨_, heap, world⟩ := machine
        obtain ⟨_, heap', world'⟩ := machine'
        obtain ⟨cores, _, heaps, worlds⟩ := states
        dsimp only
        rw [tasks.routine]
        exact ⟨⟨cores, mains, heaps, finishRoutine worlds _ (.failed _)⟩, rfl⟩
      | limit reached => exact reached.elim

/-- A turn of every task. -/
theorem taskTurns (progress : Progress) :
    ∃ later, stock.Within later ∧
      (merging.frames later).state (machine.taskTurns progress).1 (machine'.taskTurns progress).1 ∧
      (machine.taskTurns progress).2 = (machine'.taskTurns progress).2 := by
  unfold Machine.taskTurns
  rw [forall₂_size same.world.tasks]
  generalize range machine'.world.tasks.size = indices
  induction indices generalizing stock machine machine' progress with
  | nil => exact ⟨stock, .refl stock, same, rfl⟩
  | cons index _ ih =>
    obtain ⟨later, more, next, progressed⟩ := taskTurn lawful same index progress
    obtain ⟨last, further, states, progressed'⟩ := ih next (machine.taskTurn index progress).2
    refine ⟨last, more.trans further, ?_⟩
    rw [foldl_cons, foldl_cons]
    have start : machine'.taskTurn index progress
        = ((machine'.taskTurn index progress).1, (machine.taskTurn index progress).2) :=
      Prod.ext rfl progressed.symm
    dsimp only
    rw [start]
    exact ⟨states, progressed'⟩

end

section
variable (same : (merging.frames stock).state machine machine') (state : TaskState)
include same state

theorem deadline?_eq : machine.deadline? state = machine'.deadline? state := by
  unfold deadline?
  rw [map_eq_map_of_forall₂ same.world.tasks fun tasks => by rw [tasks.state]]

theorem passTime (progress : Progress) :
    Option.Rel (merging.frames stock).state (machine.passTime state progress)
      (machine'.passTime state progress) := by
  have at_ (clock : Nat) : (merging.frames stock).state
      { machine with world := { machine.world with clock } }
      { machine' with world := { machine'.world with clock } } :=
    { same with world := { same.world with clock := rfl } }
  unfold Machine.passTime
  dsimp only
  rw [deadline?_eq same, same.world.clock]
  split
  · exact .some (at_ _)
  · cases machine'.deadline? state with
    | none => exact .none
    | some deadline => exact .some (at_ _)

end

/-- What rounds come to. -/
inductive AnswerRel (link : Link) :
    Option (Except RuntimeError Value) → Option (Except RuntimeError Value) → Prop where
  | none : AnswerRel link none none
  | value {value value' : Value} (same : ValueRel link value value') :
      AnswerRel link (some (.ok value)) (some (.ok value'))
  | failed (e : RuntimeError) : AnswerRel link (some (.error e)) (some (.error e))

/-- Rounds until the main thread comes to an end. -/
theorem rounds (lawful : merging.Lawful) (depth fuel : Nat) {turn turn' : Exec Exec.Turned}
    (turns : merging.Grows stock (fun later => TurnedRel (merging.link later)) turn turn')
    (same : (merging.frames stock).state machine machine') :
    ∃ later, stock.Within later ∧
      AnswerRel (merging.link later) (Machine.rounds depth fuel turn machine).1
        (Machine.rounds depth fuel turn' machine').1 ∧
      (merging.frames later).state (Machine.rounds depth fuel turn machine).2
        (Machine.rounds depth fuel turn' machine').2 := by
  induction fuel generalizing stock turn turn' machine machine' with
  | zero => exact ⟨stock, .refl stock, .none, same⟩
  | succ fuel ih =>
    obtain ⟨later, more, results⟩ := turns _ _ same
    unfold Machine.rounds
    generalize turn machine = left, turn' machine' = right at results ⊢
    cases results with
    | @error e _ _ _ failures states =>
      obtain rfl : e = _ := failures
      exact ⟨later, more, .failed e, states⟩
    | limit reached => exact reached.elim
    | @ok turned turned' machine machine' both states =>
      obtain ⟨state, value, used, active⟩ := turned
      obtain ⟨state', value', used', active'⟩ := turned'
      obtain ⟨rfl, values, rfl, rfl⟩ := both
      cases values with
      | some values => exact ⟨later, more, .value values, states⟩
      | none =>
        dsimp only
        generalize Progress.add {} _ = progress
        obtain ⟨last, further, states, progressed⟩ := taskTurns lawful states progress
        generalize machine.taskTurns progress = done, machine'.taskTurns progress = done'
          at states progressed ⊢
        obtain ⟨machine, progress⟩ := done
        obtain ⟨machine', progress'⟩ := done'
        obtain rfl : progress = progress' := progressed
        have passed := passTime states state progress
        dsimp only at states passed ⊢
        generalize machine.passTime state progress = next, machine'.passTime state progress = next'
          at passed ⊢
        cases passed with
        | none => exact ⟨last, more.trans further, .none, states⟩
        | some states =>
          obtain ⟨end_, after, answers, states⟩ := ih (takeTurn lawful depth state) states
          exact ⟨end_, (more.trans further).trans after, answers, states⟩

/-! ## Runs -/

theorem freshBudget (same : (merging.frames stock).state machine machine') :
    (merging.frames stock).state machine.freshBudget machine'.freshBudget := by
  unfold Machine.freshBudget
  dsimp only
  rw [same.thread.config, same.world.budgets]
  split
  · exact { same with thread := { same.thread with budget := rfl, config := rfl } }
  · exact { same with
      thread := { same.thread with budget := rfl, config := rfl }
      world := { same.world with budgets := rfl } }

theorem atMain (lawful : merging.Lawful) (same : (merging.frames stock).state machine machine') :
    (merging.frames stock).state machine.atMain machine'.atMain := by
  have main : merging.function stock merging.before.main merging.after.main :=
    ⟨.inl lawful.main, Nat.lt_of_lt_of_le (lawful.old lawful.main) same.core.first⟩
  have full := (same.core.functions main).renumberable.full
  unfold Machine.atMain
  dsimp only
  rw [same.thread.program, same.thread.program', function_eq same, function_eq' same]
  exact { same with
    thread := { same.thread with
      program := rfl
      program' := rfl
      sp := rfl
      frames := .cons ⟨main, atInstr_zero full, rfl, rfl, rfl⟩ .nil
      last := by rintro _ ⟨⟩; rfl
      function := main
      code := rfl
      code' := rfl
      place := atInstr_zero full
      ip := rfl
      base := rfl } }

theorem unwind (same : (merging.frames stock).state machine machine') (slot : Nat) :
    (merging.frames stock).state (machine.unwind slot 0) (machine'.unwind slot 0) :=
  { same with
    thread := { same.thread with
      frames := forall₂_extract same.thread.frames 0 0
      last := by simp [Machine.unwind]
      stack := by
        simp only [Machine.unwind, same.thread.sp]
        exact clearSlots_rel same.thread.stack slot _
      sp := rfl } }

section
variable (lawful : merging.Lawful) (same : (merging.frames stock).state machine machine')
include lawful same

theorem position?_eq {ref ref' : Nat} (refs : merging.function stock ref ref') (ip : Nat) :
    machine.position? ref ip = machine'.position? ref' ip := by
  rw [position?, position?, function_eq same, function_eq' same,
    (same.core.functions refs).renumbered, same.thread.program, same.thread.program', lawful.files]
  rfl

/-- The places of an error are found in source maps, which stay. -/
theorem trace_eq : machine.trace = machine'.trace := by
  have outer {frames frames' : List Frame}
      (sames : Forall₂ (merging.FrameRel stock) frames frames') :
      (frames.filterMap fun frame => machine.position? frame.function frame.ip)
        = frames'.filterMap fun frame => machine'.position? frame.function frame.ip := by
    induction sames with
    | nil => rfl
    | cons first _ ih =>
      rw [filterMap_cons, filterMap_cons, ih, position?_eq lawful same first.function,
        first.ip]
  have frames := rel_reverse same.thread.frames
  unfold trace
  generalize machine.thread.frames.toList.reverse = left,
    machine'.thread.frames.toList.reverse = right at frames
  cases frames with
  | nil => rfl
  | cons _ rest =>
    dsimp only
    rw [outer rest, position?_eq lawful same same.thread.function, same.thread.ip]

/-- Running the main functions. -/
theorem runWith (fuel token : Nat) :
    (machine.runWith fuel token).1 = (machine'.runWith fuel token).1 ∧
      ∃ later, stock.Within later ∧
        (merging.frames later).state (machine.runWith fuel token).2
          (machine'.runWith fuel token).2 := by
  have renewed : (merging.frames stock).state
      { machine with thread := { machine.thread with token } }
      { machine' with thread := { machine'.thread with token } } :=
    { same with thread := { same.thread with token := rfl } }
  obtain ⟨later, more, answers, states⟩ := rounds lawful 0 fuel (takeTurn lawful 0 .ready)
    (atMain lawful (freshBudget renewed))
  unfold Machine.runWith
  dsimp only
  generalize Machine.rounds 0 fuel _
    (Machine.atMain (Machine.freshBudget ⟨_, machine.heap, _⟩)) = done at answers states ⊢
  generalize Machine.rounds 0 fuel _
    (Machine.atMain (Machine.freshBudget ⟨_, machine'.heap, _⟩)) = done' at answers states ⊢
  obtain ⟨answer, machine⟩ := done
  obtain ⟨answer', machine'⟩ := done'
  dsimp only at answers states ⊢
  refine ⟨?_, later, more, unwind states 0⟩
  cases answers with
  | none => rfl
  | value _ => rfl
  | failed e =>
    dsimp only [Option.map]
    rw [trace_eq lawful states]

end

end Merging

end Skiff
