import Skiff.Proofs.Budget.Governed

/-!
# Limits are exact

A run that spawns nothing is not touched by a limit that it stays within, and fails for one that it
does not stay within. There is no limit in between, and no allocation that escapes it.
-/

namespace Skiff

open Array Nat Exec Machine Int64

/-! ## What has been charged for over a run -/

theorem takeTurn_growing (depth : Nat) (state : TaskState) : Growing (takeTurn depth state) :=
  (Governed.takeTurn depth state : Governed ⟨0, 0, by decide⟩ _).grows

theorem Task.turn_growing (task : Task) : Growing task.turn :=
  (Governed.taskTurn task : Governed ⟨0, 0, by decide⟩ _).grows

variable {depth : Nat} {limited free : Machine} {turn : Exec Turned}
  {answer : Except RuntimeError Value}

namespace Machine

theorem taskTurn_grows (machine : Machine) (index : Nat) (progress : Progress) :
    machine.Grows (machine.taskTurn index progress).1 := by
  obtain ⟨main, heap, world⟩ := machine
  unfold taskTurn
  dsimp only
  cases found : world.tasks[index]? with
  | none => exact .refl _
  | some task =>
    dsimp only
    split
    · exact .refl _
    · rename_i goesOn
      have grows := task.turn_growing ⟨task.thread, heap, { world with
          tasks := world.tasks.setIfInBounds index { (default : Task) with state := .done } }⟩
      generalize task.turn _ = result at grows ⊢
      -- The task that takes its turn is away; it is done unless it comes back.
      have tasks {place : Nat} {other : Task} (here : world.tasks[place]? = some other) :
          ∃ later, (left result).world.tasks[place]? = some later ∧ other.Keeps later := by
        by_cases same : index = place
        · subst same
          obtain ⟨later, there, keeps⟩ := grows.tasks
            (getElem?_setIfInBounds_self_of_lt (Array.getElem?_eq_some_iff.1 here).1)
          exact ⟨later, there, .inl (keeps.resolve_right fun both => both.1 rfl)⟩
        · exact grows.tasks (by simpa [same] using here)
      cases result with
      | ok turned after =>
        dsimp only [left] at tasks ⊢
        cases turned.value with
        | some value => exact ⟨grows.charged, rfl, tasks⟩
        | none =>
          refine ⟨grows.charged, rfl, fun {place other} here => ?_⟩
          obtain ⟨later, there, keeps⟩ := tasks here
          by_cases same : index = place
          · subst same
            cases found.symm.trans here
            exact ⟨_, getElem?_setIfInBounds_self_of_lt (Array.getElem?_eq_some_iff.1 there).1,
              .inr ⟨goesOn, grows.program⟩⟩
          · exact ⟨later, by simpa [same] using there, keeps⟩
      | error e after => exact ⟨grows.charged, rfl, tasks⟩

theorem taskTurns_grows (machine : Machine) (progress : Progress) :
    machine.Grows (machine.taskTurns progress).1 := by
  unfold taskTurns
  generalize List.range machine.world.tasks.size = places
  induction places generalizing machine progress with
  | nil => exact .refl _
  | cons index rest ih =>
    exact (taskTurn_grows machine index progress).trans (ih _ _)

variable {machine : Machine}

/-- Time passes without a charge. -/
theorem passTime_eq {later : Machine} {state : TaskState} {progress : Progress}
    (passes : machine.passTime state progress = some later) :
    ∃ clock, later = { machine with world := { machine.world with clock } } := by
  unfold passTime at passes
  split at passes
  · cases passes
    exact ⟨_, rfl⟩
  · obtain ⟨deadline, -, rfl⟩ := Option.map_eq_some_iff.1 passes
    exact ⟨_, rfl⟩

/-- What follows a turn of the main thread. -/
def afterTurn (depth fuel : Nat) : EStateM.Result RuntimeError Machine Turned →
    Option (Except RuntimeError Value) × Machine
  | .error e machine => (some (.error e), machine)
  | .ok turned machine =>
    match turned.value with
    | some value => (some (.ok value), machine)
    | none =>
      let (machine, progress) := machine.taskTurns (Progress.add {} turned)
      match machine.passTime turned.state progress with
      | none => (none, machine)
      | some machine => rounds depth fuel (takeTurn depth turned.state) machine

theorem rounds_succ (depth fuel : Nat) (turn : Exec Turned) (machine : Machine) :
    rounds depth (fuel + 1) turn machine = afterTurn depth fuel (turn machine) := by
  rw [rounds]
  cases turn machine <;> rfl

theorem afterTurn_grows (depth fuel : Nat)
    (rest : ∀ {turn : Exec Turned}, Growing turn → ∀ machine : Machine,
      machine.Grows (rounds depth fuel turn machine).2)
    (result : EStateM.Result RuntimeError Machine Turned) :
    (left result).Grows (afterTurn depth fuel result).2 := by
  cases result with
  | error e machine => exact .refl machine
  | ok turned machine =>
    unfold afterTurn
    dsimp only
    cases turned.value with
    | some value => exact .refl machine
    | none =>
      have others := machine.taskTurns_grows (Progress.add {} turned)
      generalize machine.taskTurns (Progress.add {} turned) = taken at others
      obtain ⟨taken, progress⟩ := taken
      dsimp only at others ⊢
      cases passes : taken.passTime turned.state progress with
      | none => exact others
      | some later =>
        obtain ⟨clock, rfl⟩ := passTime_eq passes
        have grows := rest (takeTurn_growing depth turned.state)
          { taken with world := { taken.world with clock } }
        exact others.trans ⟨grows.charged, grows.program, grows.tasks⟩

theorem rounds_grows {fuel : Nat} (growing : Growing turn) (machine : Machine) :
    machine.Grows (rounds depth fuel turn machine).2 := by
  induction fuel generalizing turn machine with
  | zero => exact .refl machine
  | succ fuel ih =>
    rw [rounds_succ]
    exact (growing machine).trans (afterTurn_grows depth fuel ih (turn machine))

/-! ## Rounds without tasks -/

theorem taskTurns_alone (alone : machine.world.tasks = #[]) (progress : Progress) :
    machine.taskTurns progress = (machine, progress) := by
  unfold taskTurns
  rw [alone]
  rfl

end Machine

variable {allowed : Allowance}

/-- When threads stop waiting has nothing to do with limits. -/
theorem Machine.deadline?_unlimited (machine : Machine) (state : TaskState) :
    machine.unlimited.deadline? state = machine.deadline? state := by
  have states : machine.unlimited.world.tasks.toList.map (·.state.deadline?)
      = machine.world.tasks.toList.map (·.state.deadline?) := by
    simp only [Machine.unlimited, World.unlimited, toList_map, List.map_map]
    rfl
  unfold deadline?
  rw [states]

namespace Paired

variable {limited free : Machine}

section
variable (paired : Paired allowed limited free)
include paired

/-- The machines stay side by side if both are changed in a way that is blind to limits. -/
theorem change (change : Machine → Machine)
    (blind : ∀ machine : Machine, (change machine).unlimited = change machine.unlimited)
    (keeps : ∀ machine : Machine, machine.Keeps (change machine)) :
    Paired allowed (change limited) (change free) := by
  refine paired.keep ?_ (keeps limited) (keeps free)
  rw [blind limited, blind free, paired.same]

theorem atTime (clock : Nat) :
    Paired allowed { limited with world := { limited.world with clock } }
      { free with world := { free.world with clock } } :=
  paired.change (fun machine => { machine with world := { machine.world with clock } })
    (fun _ => rfl) fun _ => ⟨rfl, rfl, rfl, rfl, id⟩

/-- Side by side, time passes alike. -/
theorem passTime (state : TaskState) (progress : Progress) :
    Option.Rel (Paired allowed) (limited.passTime state progress)
      (free.passTime state progress) := by
  have clocks : limited.world.clock = free.world.clock := by
    have kept (machine : Machine) : machine.world.clock = machine.unlimited.world.clock := rfl
    rw [kept limited, paired.same, kept free]
  have deadlines : limited.deadline? state = free.deadline? state := by
    rw [← deadline?_unlimited limited, paired.same, deadline?_unlimited]
  unfold Machine.passTime
  dsimp only
  rw [clocks, deadlines]
  split
  · exact .some (paired.atTime _)
  · cases free.deadline? state with
    | none => exact .none
    | some deadline => exact .some (paired.atTime _)

theorem tasks_eq (alone : free.world.tasks = #[]) : limited.world.tasks = #[] := by
  have tasks : limited.unlimited.world.tasks = free.unlimited.world.tasks := by rw [paired.same]
  have none : limited.world.tasks.map Task.unlimited = #[] := by
    rw [show limited.world.tasks.map Task.unlimited = free.world.tasks.map
      Task.unlimited from tasks, alone, map_empty]
  exact map_eq_empty_iff.1 none

end

end Paired

/-- How runs with and without a limit end. -/
inductive Ended (allowed : Allowance) (answer : Except RuntimeError Value) (final : Machine) :
    Option (Except RuntimeError Value) × Machine → Prop where
  | alike {limited : Machine} (paired : Paired allowed limited final) :
      Ended allowed answer final (some answer, limited)
  | exceeded {limited : Machine} (beyond : allowed.start + allowed.limit < final.world.charged) :
      Ended allowed answer final (some (.error .allocationLimit), limited)

variable {fuel : Nat} {final : Machine}

/-- What follows a turn that one of two machines has taken with a limit and the other without. -/
theorem afterTurn_ended (alone : final.world.tasks = #[])
    (rest : ∀ {turn : Exec Turned}, Governed allowed turn →
      ∀ {limited free : Machine}, Paired allowed limited free →
      rounds depth fuel turn free = (some answer, final) →
        Ended allowed answer final (rounds depth fuel turn limited))
    {limited free : EStateM.Result RuntimeError Machine Turned}
    (lockstep : Lockstep allowed Eq limited free)
    (ends : afterTurn depth fuel free = (some answer, final)) :
    Ended allowed answer final (afterTurn depth fuel limited) := by
  have grows := afterTurn_grows depth fuel rounds_grows free
  rw [ends] at grows
  cases lockstep with
  | error paired =>
    cases ends
    exact .alike paired
  | exceeded beyond => exact .exceeded (lt_of_lt_of_le beyond grows.charged)
  | @ok turned _ limited free same paired =>
    cases same
    -- Nobody has been spawned yet, for tasks stay.
    have early : free.world.tasks = #[] := by
      refine eq_empty_iff_forall_not_mem.2 fun task member => ?_
      obtain ⟨place, here⟩ := getElem?_of_mem member
      obtain ⟨later, there, -⟩ := grows.tasks here
      rw [alone] at there
      cases there
    unfold afterTurn at ends ⊢
    cases value : turned.value with
    | some value =>
      simp only [value] at ends ⊢
      cases ends
      exact .alike paired
    | none =>
      simp only [value, taskTurns_alone early] at ends
      simp only [value, taskTurns_alone (paired.tasks_eq early)]
      have passing := paired.passTime turned.state (Progress.add {} turned)
      generalize limited.passTime _ _ = one, free.passTime _ _ = two at passing ends ⊢
      cases passing with
      | none => cases ends
      | some paired => exact rest (.takeTurn depth turned.state) paired ends

/-- By induction on the rounds: if the machine without a limit comes to an end and has spawned
nothing, then so does the one with a limit, or it fails for its limit. -/
theorem rounds_ended (governed : Governed allowed turn) (paired : Paired allowed limited free)
    (ends : rounds depth fuel turn free = (some answer, final)) (alone : final.world.tasks = #[]) :
    Ended allowed answer final (rounds depth fuel turn limited) := by
  induction fuel generalizing turn limited free with
  | zero => cases ends
  | succ fuel ih =>
    rw [rounds_succ] at ends ⊢
    exact afterTurn_ended alone (fun governed => ih governed) (governed.lockstep paired) ends

/-! ## Runs -/

theorem Machine.freshBudget_unlimited (machine : Machine) :
    machine.freshBudget.unlimited = machine.unlimited := by
  unfold Machine.freshBudget
  dsimp only
  split <;> rfl

theorem Machine.freshBudget_tasks (machine : Machine) :
    machine.freshBudget.world.tasks = machine.world.tasks := by
  unfold Machine.freshBudget
  dsimp only
  split <;> rfl

/-- Tasks stay over a run. -/
theorem Machine.run_tasks (fuel : Nat) {machine : Machine} {index : Nat} {task : Task}
    (found : machine.world.tasks[index]? = some task) :
    ∃ later, (machine.run fuel).2.world.tasks[index]? = some later ∧ task.Keeps later :=
  (rounds_grows (takeTurn_growing 0 .ready) _).tasks ((congrArg (·[index]?) (freshBudget_tasks _)).trans found)

theorem Machine.trace_unlimited (machine : Machine) : machine.unlimited.trace = machine.trace := rfl

/-- What may be allocated under a limit from some point on. -/
def Allowance.ofLimit (start : Nat) (limit : Int64) (room : limit < maxValue) : Allowance where
  start := start
  limit := limit.toInt.toNat
  room := by
    have below : limit.toInt < maxValue.toInt := lt_iff_toInt_lt.1 room
    have top : maxValue.toInt = Budget.greatest := by decide
    have positive : 0 < Budget.greatest := by decide
    omega

theorem Budget.ofLimit_eq {limit : Int64} (room : limit < maxValue) :
    Budget.ofLimit limit = ⟨limit.toInt + 1⟩ := by
  have below : limit.toInt < maxValue.toInt := lt_iff_toInt_lt.1 room
  have top : maxValue.toInt = Budget.greatest := by decide
  have fits : min (limit.toInt + 1) Budget.greatest = limit.toInt + 1 := by omega
  rw [Budget.ofLimit, fits]

section
variable (same : limited.unlimited = free.unlimited) (unbounded : free.thread.config.maxAllocs < 0)
  (nonneg : 0 ≤ limited.thread.config.maxAllocs) (room : limited.thread.config.maxAllocs < maxValue)
include same unbounded nonneg room

/-- With a new budget a machine may draw all that its limit allows. -/
theorem Paired.freshBudget :
    Paired (.ofLimit limited.world.charged limited.thread.config.maxAllocs room) limited.freshBudget
      free.freshBudget := by
  have positive : 0 ≤ limited.thread.config.maxAllocs.toInt := Int64.le_iff_toInt_le.1 nonneg
  have bounded : ¬ limited.thread.config.maxAllocs < 0 := Int64.not_lt.2 nonneg
  have sames : limited.freshBudget.unlimited = free.freshBudget.unlimited := by
    rw [Machine.freshBudget_unlimited, Machine.freshBudget_unlimited, same]
  unfold Machine.freshBudget at sames ⊢
  simp only [if_pos unbounded, if_neg bounded, Budget.ofLimit_eq room] at sames ⊢
  refine ⟨sames, rfl, ⟨limited.world.budgets.size, _, rfl, getElem?_push_size, ?_⟩, ?_, ?_⟩
  all_goals
    simp only [Allowance.ofLimit]
    omega

/-- The same machine with a limit may run up to it, from what has been charged for. -/
theorem runWith_exact {answer : Except RunError Unit} {token : Nat}
    (ends : free.runWith fuel token = (some answer, final)) (alone : final.world.tasks = #[]) :
    ∃ outcome machine, limited.runWith fuel token = (some outcome, machine) ∧
      (final.world.charged ≤ limited.world.charged + limited.thread.config.maxAllocs.toInt.toNat →
        outcome = answer ∧ machine.unlimited = final.unlimited) ∧
      (limited.world.charged + limited.thread.config.maxAllocs.toInt.toNat < final.world.charged →
        ∃ trace, outcome = .error ⟨.allocationLimit, trace⟩) := by
  have renewed (machine : Machine) :
      ({ machine with thread := { machine.thread with token } } : Machine).unlimited
        = { machine.unlimited with thread := { machine.unlimited.thread with token } } := rfl
  have sames : ({ limited with thread := { limited.thread with token } } : Machine).unlimited
      = ({ free with thread := { free.thread with token } } : Machine).unlimited := by
    rw [renewed, renewed, same]
  have started := (Paired.freshBudget sames unbounded nonneg room).change atMain
    (fun _ => rfl) fun _ => ⟨rfl, rfl, rfl, rfl, id⟩
  unfold runWith at ends ⊢
  dsimp only at ends ⊢
  cases done : rounds 0 fuel (takeTurn 0 .ready)
      ({ free with thread := { free.thread with token } } : Machine).freshBudget.atMain with
  | mk result last =>
    rw [done] at ends
    cases result with
    | none => cases ends
    | some result =>
      cases ends
      have ended := rounds_ended (.takeTurn 0 .ready) started done alone
      generalize rounds 0 fuel (takeTurn 0 .ready) _ = other at ended ⊢
      cases ended with
      | @alike stopped paired =>
        refine ⟨_, _, rfl, fun _ => ⟨?_, ?_⟩, fun beyond => ?_⟩
        · have traces : stopped.trace = last.trace := by
            rw [← trace_unlimited stopped, paired.same, trace_unlimited]
          dsimp only
          rw [traces]
        · have unwound := paired.change (·.unwind 0 0) (fun _ => rfl)
            fun _ => ⟨rfl, rfl, rfl, rfl, id⟩
          exact unwound.same
        · have within := paired.within
          rw [paired.charged_eq] at within
          exact absurd beyond (not_lt.2 within)
      | exceeded beyond =>
        exact ⟨_, _, rfl, fun within => absurd beyond (not_lt.2 within), fun _ => ⟨_, rfl⟩⟩

end

/-- Loading a program under another limit changes nothing else. -/
theorem Machine.load_unlimited (program : Program) (config : Config) (limit : Int64)
    (globals : Array Value) (heap : Heap) (world : World) :
    (load program { config with maxAllocs := limit } globals heap world).unlimited
      = (load program config globals heap world).unlimited := by
  unfold load
  dsimp only
  rw [freshBudget_unlimited, freshBudget_unlimited]
  rfl

theorem Machine.load_keeps (program : Program) (config : Config) (globals : Array Value)
    (heap : Heap) (world : World) :
    (load program config globals heap world).thread.config = config ∧
      (load program config globals heap world).world.charged = world.charged ∧
      (load program config globals heap world).thread.token = world.tokens.add.2 := by
  unfold load freshBudget
  dsimp only
  split <;> exact ⟨rfl, rfl, rfl⟩

/-- A limit is exact. Take a run without a limit that comes to an end and spawns nothing. With a
limit that is not below what the run is charged for, the run goes the same way to the same end.
With a lower limit it fails for the limit. -/
theorem limit_exact (program : Program) (config : Config) (globals : Array Value) (heap : Heap)
    (world : World) (fuel : Nat) {answer : Except RunError Unit} {final : Machine}
    (unbounded : config.maxAllocs < 0)
    (ends : (load program config globals heap world).run fuel = (some answer, final))
    (alone : final.world.tasks = #[]) (limit : Int64) (nonneg : 0 ≤ limit)
    (room : limit < maxValue) :
    ∃ outcome limited,
      (load program { config with maxAllocs := limit } globals heap world).run fuel
        = (some outcome, limited) ∧
      ((final.world.charged : Int) - world.charged ≤ limit.toInt →
        outcome = answer ∧ limited.thread.globals = final.thread.globals ∧
          limited.heap = final.heap ∧ limited.unlimited = final.unlimited) ∧
      (limit.toInt < (final.world.charged : Int) - world.charged →
        ∃ trace, outcome = .error ⟨.allocationLimit, trace⟩) := by
  obtain ⟨config_free, charged_free, token_free⟩ := load_keeps program config globals heap world
  obtain ⟨config_limited, charged_limited, token_limited⟩ :=
    load_keeps program { config with maxAllocs := limit } globals heap world
  have bound : (load program { config with maxAllocs := limit } globals heap
      world).thread.config.maxAllocs = limit := by rw [config_limited]
  have positive : 0 ≤ limit.toInt := Int64.le_iff_toInt_le.1 nonneg
  unfold Machine.run at ends ⊢
  rw [token_free] at ends
  rw [token_limited]
  obtain ⟨outcome, limited, runs, within, beyond⟩ := runWith_exact
    (load_unlimited program config limit globals heap world) (by rw [config_free]; exact unbounded)
    (by rw [bound]; exact nonneg) (by rw [bound]; exact room) ends alone
  rw [charged_limited, bound] at within beyond
  refine ⟨outcome, limited, runs, fun fits => ?_, fun exceeds => beyond (by omega)⟩
  obtain ⟨answers, sames⟩ := within (by omega)
  have threads : limited.unlimited.thread.globals = final.unlimited.thread.globals := by rw [sames]
  have heaps : limited.unlimited.heap = final.unlimited.heap := by rw [sames]
  exact ⟨answers, threads, heaps, sames⟩

/-- A run of `out = range(0, 3)` under a limit. -/
def rangeRun (limit : Int64) : Option (Except RunError Unit) × Machine :=
  let code : ByteArray := ⟨#[0x50, 7, 0x00, 0, 0, 0x00, 1, 0, 0x70, 2, 0, 0x31, 0, 0, 0xFF]⟩
  (load { constants := #[.int 0, .int 3] }
    { stackSize := 4, globalsSize := 1, maxAllocs := limit } #[]
      { functions := #[{ code }] } {}).run 1

/-- Three elements and the array itself are charged for. -/
theorem limit_exact_range :
    (∃ limited, rangeRun 4 = (some (.ok ()), limited) ∧ limited.heap = (rangeRun (-1)).2.heap) ∧
      ∃ trace limited, rangeRun 3 = (some (.error ⟨.allocationLimit, trace⟩), limited) := by
  have ends : rangeRun (-1) = (some (.ok ()), (rangeRun (-1)).2) := Prod.ext rfl rfl
  have alone : (rangeRun (-1)).2.world.tasks = #[] :=
    eq_empty_of_size_eq_zero (by decide +kernel)
  have charged : (rangeRun (-1)).2.world.charged = 4 := by decide +kernel
  obtain ⟨outcome, limited, runs, within, -⟩ :=
    limit_exact _ _ _ _ _ _ (by decide) ends alone 4 (by decide) (by decide)
  obtain ⟨outcome', limited', fails, -, beyond⟩ :=
    limit_exact _ _ _ _ _ _ (by decide) ends alone 3 (by decide) (by decide)
  rw [charged] at within beyond
  obtain ⟨rfl, -, heap, -⟩ := within (by decide)
  obtain ⟨trace, rfl⟩ := beyond (by decide)
  exact ⟨⟨limited, runs, heap⟩, trace, limited', fails⟩

end Skiff
