import Mathlib
import Skiff.Machine.Run
import Skiff.Proofs.Stateful

/-!
# Machines with and without a limit

Two machines that differ in nothing but what they may allocate do the same until the one with a
limit has used it up. A computation is *governed* if that is so for it: either both machines end in
the same way, or the limited one fails for its limit and the other has been charged for more than
the limit allows. The same can be said of two computations that give related values.
-/

namespace Skiff

open Nat EStateM

/-! ## Forgetting limits -/

/-- The thread without a limit. -/
def Thread.unlimited (thread : Thread) : Thread :=
  { thread with config := { thread.config with maxAllocs := -1 }, budget := none }

/-- The task without a limit. -/
def Task.unlimited (task : Task) : Task := { task with thread := task.thread.unlimited }

/-- The world without the budgets. What has been charged for stays. -/
def World.unlimited (world : World) : World :=
  { world with budgets := #[], tasks := world.tasks.map Task.unlimited }

/-- The machine without limits. -/
def Machine.unlimited (machine : Machine) : Machine :=
  ⟨machine.thread.unlimited, machine.heap, machine.world.unlimited⟩

section Computation
variable {α β : Type}

namespace Exec

/-- The machine that a computation leaves behind. -/
def left : Result RuntimeError Machine α → Machine
  | .ok _ machine => machine
  | .error _ machine => machine

/-- A result without limits. -/
def unlimited : Result RuntimeError Machine α → Result RuntimeError Machine α
  | .ok value machine => .ok value machine.unlimited
  | .error e machine => .error e machine.unlimited

end Exec

/-- What a computation that charges for nothing keeps of a machine. It may spawn tasks. -/
structure Machine.Keeps (before after : Machine) : Prop where
  budget : after.thread.budget = before.thread.budget
  budgets : after.world.budgets = before.world.budgets
  charged : after.world.charged = before.world.charged
  program : after.thread.program = before.thread.program
  tasks {index : Nat} {task : Task} : before.world.tasks[index]? = some task →
    after.world.tasks[index]? = some task

/-- A computation that charges for nothing and does not see the limits. -/
structure Plain (action : Exec α) : Prop where
  blind (machine : Machine) : action machine.unlimited = Exec.unlimited (action machine)
  keeps (machine : Machine) : machine.Keeps (Exec.left (action machine))

/-! ## Side by side -/

/-- What a run may allocate from the moment at which it has been charged for `start`. -/
structure Allowance where
  start : Nat
  limit : Nat
  /-- Counters have room for one unit more than may be drawn. -/
  room : (limit : Int) < Budget.greatest

variable (allowed : Allowance)

/-- A machine that has not used up its limit, and one without limits that is like it otherwise. -/
structure Paired (limited free : Machine) : Prop where
  same : limited.unlimited = free.unlimited
  unbounded : free.thread.budget = none
  /-- One unit more than may still be drawn is left. -/
  account : ∃ id left, limited.thread.budget = some id ∧
    limited.world.budgets[id]? = some ⟨left⟩ ∧
    left + limited.world.charged = allowed.start + allowed.limit + 1
  started : allowed.start ≤ limited.world.charged
  within : limited.world.charged ≤ allowed.start + allowed.limit

/-- Results on machines with and without a limit. -/
inductive Lockstep (rel : α → β → Prop) : Result RuntimeError Machine α →
    Result RuntimeError Machine β → Prop where
  | ok {value : α} {value' : β} {limited free : Machine} (same : rel value value')
      (paired : Paired allowed limited free) : Lockstep rel (.ok value limited) (.ok value' free)
  | error {e : RuntimeError} {limited free : Machine} (paired : Paired allowed limited free) :
      Lockstep rel (.error e limited) (.error e free)
  /-- The limited machine has failed where the other has gone on. -/
  | exceeded {limited : Machine} {free : Result RuntimeError Machine β}
      (beyond : allowed.start + allowed.limit < (Exec.left free).world.charged) :
      Lockstep rel (.error .allocationLimit limited) free

/-- What becomes of a task: it has its program until it is done, and is done then. -/
def Task.Keeps (task later : Task) : Prop :=
  later.state = .done ∨ task.state ≠ .done ∧ later.thread.program = task.thread.program

theorem Task.Keeps.refl (task : Task) : task.Keeps task :=
  (Classical.em _).imp_right fun goesOn => ⟨goesOn, rfl⟩

theorem Task.Keeps.trans {task later last : Task} (first : task.Keeps later)
    (second : later.Keeps last) : task.Keeps last := by
  refine second.imp_right fun ⟨goesOn, same⟩ => ?_
  obtain ⟨early, program⟩ := first.resolve_left goesOn
  exact ⟨early, same.trans program⟩

/-- No less has been charged for, programs are kept, and tasks stay. -/
structure Machine.Grows (before after : Machine) : Prop where
  charged : before.world.charged ≤ after.world.charged
  program : after.thread.program = before.thread.program
  tasks {index : Nat} {task : Task} : before.world.tasks[index]? = some task →
    ∃ later, after.world.tasks[index]? = some later ∧ task.Keeps later

theorem Machine.Grows.refl (machine : Machine) : machine.Grows machine :=
  ⟨le_refl _, rfl, fun found => ⟨_, found, .refl _⟩⟩

theorem Machine.Grows.trans {first second third : Machine} (before : first.Grows second)
    (after : second.Grows third) : first.Grows third := by
  refine ⟨le_trans before.charged after.charged, after.program.trans before.program,
    fun found => ?_⟩
  obtain ⟨later, found, keeps⟩ := before.tasks found
  obtain ⟨last, found, keeps'⟩ := after.tasks found
  exact ⟨last, found, keeps.trans keeps'⟩

theorem Machine.Keeps.grows {before after : Machine} (keeps : before.Keeps after) :
    before.Grows after :=
  ⟨le_of_eq keeps.charged.symm, keeps.program, fun found => ⟨_, keeps.tasks found, .refl _⟩⟩

/-- A computation after which no less has been charged for, and programs and tasks are kept. -/
def Growing (action : Exec α) : Prop :=
  ∀ machine : Machine, machine.Grows (Exec.left (action machine))

/-- Computations with and without a limit, the first of which stops exactly when it is reached. -/
structure Governs (rel : α → β → Prop) (action : Exec α) (action' : Exec β) : Prop where
  grows : Growing action'
  /-- Whatever the machine without a limit comes to, it is related to something. -/
  reached {machine after : Machine} {value' : β} :
    action' machine = .ok value' after → ∃ value, rel value value'
  lockstep {limited free : Machine} : Paired allowed limited free →
    Lockstep allowed rel (action limited) (action' free)

/-- A computation that a limit stops exactly when it is reached. -/
abbrev Governed (action : Exec α) : Prop := Governs allowed Eq action action

variable {allowed}

variable {action : Exec α} {limited free : Machine}

/-- The machines stay side by side if nothing is charged for. -/
theorem Paired.keep {limited' free' : Machine} (paired : Paired allowed limited free)
    (same : limited'.unlimited = free'.unlimited) (keeps : limited.Keeps limited')
    (keeps' : free.Keeps free') : Paired allowed limited' free' where
  same := same
  unbounded := keeps'.budget.trans paired.unbounded
  account := by
    rw [keeps.budget, keeps.budgets, keeps.charged]
    exact paired.account
  started := by
    rw [keeps.charged]
    exact paired.started
  within := by
    rw [keeps.charged]
    exact paired.within

theorem Paired.charged_eq (paired : Paired allowed limited free) :
    limited.world.charged = free.world.charged := by
  have kept (machine : Machine) : machine.world.charged = machine.unlimited.world.charged := rfl
  rw [kept limited, paired.same, kept free]

theorem Plain.governed (plain : Plain action) : Governed allowed action where
  grows machine := (plain.keeps machine).grows
  reached _ := ⟨_, rfl⟩
  lockstep {limited free} paired := by
    have results : Exec.unlimited (action limited) = Exec.unlimited (action free) := by
      rw [← plain.blind limited, ← plain.blind free, paired.same]
    have keeps := plain.keeps limited
    have keeps' := plain.keeps free
    generalize action limited = one, action free = two at results keeps keeps'
    cases one with
    | ok value machine =>
      cases two with
      | ok value' machine' =>
        obtain ⟨rfl, same⟩ : value = value' ∧ machine.unlimited = machine'.unlimited := by
          simpa [Exec.unlimited] using results
        exact .ok rfl (paired.keep same keeps keeps')
      | error _ _ => cases results
    | error e machine =>
      cases two with
      | ok _ _ => cases results
      | error e' machine' =>
        obtain ⟨rfl, same⟩ : e = e' ∧ machine.unlimited = machine'.unlimited := by
          simpa [Exec.unlimited] using results
        exact .error (paired.keep same keeps keeps')

namespace Governs

variable {γ δ : Type} {rel : α → β → Prop} {rel' : γ → δ → Prop}

theorem pure {value : α} {value' : β} (same : rel value value') :
    Governs allowed rel (Pure.pure value : Exec α) (Pure.pure value' : Exec β) where
  grows := .refl
  reached := by rintro _ _ _ ⟨⟩; exact ⟨value, same⟩
  lockstep := .ok same

theorem throw (e : RuntimeError) :
    Governs allowed rel (MonadExcept.throw e : Exec α) (MonadExcept.throw e : Exec β) where
  grows := .refl
  reached := by rintro _ _ _ ⟨⟩
  lockstep := .error

variable {action' : Exec β}

/-- One computation after another. If the limited machine fails in the first, then the other goes on
to the second, which does not take back what has been charged for. -/
theorem bind {next : α → Exec γ} {next' : β → Exec δ} (first : Governs allowed rel action action')
    (then_ : ∀ {value value'}, rel value value' → Governs allowed rel' (next value)
    (next' value')) : Governs allowed rel' (action >>= next) (action' >>= next') where
  grows machine := by
    have grows := first.grows machine
    have reached := @first.reached machine
    simp only [Bind.bind, EStateM.bind]
    generalize action' machine = result at grows reached
    cases result with
    | ok value' after =>
      obtain ⟨value, same⟩ := reached rfl
      exact grows.trans ((then_ same).grows after)
    | error _ _ => exact grows
  reached {machine last value''} run := by
    have reached := @first.reached machine
    simp only [Bind.bind, EStateM.bind] at run
    generalize action' machine = result at reached run
    cases result with
    | ok value' after =>
      obtain ⟨value, same⟩ := reached rfl
      exact (then_ same).reached run
    | error _ _ => cases run
  lockstep {limited free} paired := by
    have results := first.lockstep paired
    have reached := @first.reached free
    simp only [Bind.bind, EStateM.bind]
    generalize action limited = one, action' free = two at results reached
    cases results with
    | ok same paired => exact (then_ same).lockstep paired
    | error paired => exact .error paired
    | exceeded beyond =>
      refine .exceeded ?_
      cases two with
      | ok value' after =>
        obtain ⟨value, same⟩ := reached rfl
        exact lt_of_lt_of_le beyond ((then_ same).grows after).charged
      | error _ _ => exact beyond

/-- Looking at machines that differ in their limits. -/
theorem get_bind {next : Machine → Exec α} {next' : Machine → Exec β}
    (then_ : ∀ {limited free : Machine}, limited.unlimited = free.unlimited →
      Governs allowed rel (next limited) (next' free)) :
    Governs allowed rel (MonadState.get >>= next) (MonadState.get >>= next') where
  grows machine := (then_ rfl).grows machine
  reached {machine _ _} run := (@then_ machine machine rfl).reached run
  lockstep paired := (then_ paired.same).lockstep paired

theorem mono {wider : α → β → Prop} (governs : Governs allowed rel action action')
    (implied : ∀ {value value'}, rel value value' → wider value value') :
    Governs allowed wider action action' where
  grows := governs.grows
  reached run := (governs.reached run).imp fun _ => implied
  lockstep {limited free} paired := by
    have results := governs.lockstep paired
    generalize action limited = one, action' free = two at results
    cases results with
    | ok same paired => exact .ok (implied same) paired
    | error paired => exact .error paired
    | exceeded beyond => exact .exceeded beyond

end Governs

namespace Governed

/-- What is related to itself. -/
theorem relate {rel : α → α → Prop} (governed : Governed allowed action)
    (refl : ∀ value, rel value value) : Governs allowed rel action action :=
  governed.mono (by rintro value _ rfl; exact refl value)

theorem pure (value : α) : Governed allowed (Pure.pure value : Exec α) := Governs.pure rfl

theorem throw (e : RuntimeError) : Governed allowed (MonadExcept.throw e : Exec α) :=
  Governs.throw e

theorem bind {next : α → Exec β} (first : Governed allowed action)
    (then_ : ∀ value, Governed allowed (next value)) : Governed allowed (action >>= next) :=
  Governs.bind first (by rintro value _ rfl; exact then_ value)

theorem throw_bind (e : RuntimeError) (next : α → Exec β) :
    Governed allowed (MonadExcept.throw e >>= next) :=
  Governs.throw e

/-- Looking at the machine, but not at its limits. -/
theorem get_bind {next : Machine → Exec β}
    (blind : ∀ machine, next machine.unlimited = next machine)
    (then_ : ∀ machine, Governed allowed (next machine)) :
    Governed allowed (MonadState.get >>= next) := by
  refine Governs.get_bind fun {limited free} same => ?_
  rw [← blind limited, same, blind free]
  exact then_ free

/-- Reading something off the machine that is not a limit. -/
theorem get_pure (read : Machine → β) (blind : ∀ machine, read machine.unlimited = read machine) :
    Governed allowed (do return read (← get) : Exec β) :=
  get_bind (fun machine => by rw [blind]) fun _ => pure _

end Governed

end Computation

/-! ## Charging -/

namespace Machine

/-- The machine after being charged for so much. -/
def counting (machine : Machine) (count : Nat) : Machine :=
  { machine with world := { machine.world with charged := machine.world.charged + count } }

/-- The machine with a budget in place of another. -/
def withBudget (machine : Machine) (id : Nat) (budget : Budget) : Machine :=
  { machine with world := { machine.world with
      budgets := machine.world.budgets.setIfInBounds id budget } }

end Machine

variable {machine : Machine} {left : Int}

theorem charge_free (free : machine.thread.budget = none) (count : Nat) :
    Exec.charge count machine = .ok () (machine.counting count) := by
  obtain ⟨thread, heap, world⟩ := machine
  have free : thread.budget = none := free
  refine (bind_ok rfl).trans ?_
  simp only [get_bind, free]
  rfl

theorem charge_limited {id : Nat} {budget : Budget} (limited : machine.thread.budget = some id)
    (found : machine.world.budgets.getD id default = budget) (count : Nat) :
    Exec.charge count machine =
      if (budget.charge count).1 then
        .ok () ((machine.counting count).withBudget id (budget.charge count).2)
      else .error .allocationLimit
        ((machine.counting count).withBudget id (budget.charge count).2) := by
  obtain ⟨thread, heap, world⟩ := machine
  have limited : thread.budget = some id := limited
  have found : world.budgets.getD id default = budget := found
  refine (bind_ok rfl).trans ?_
  simp only [get_bind, limited]
  refine (bind_ok rfl).trans ?_
  simp only [found]
  cases (budget.charge count).1 <;> rfl

/-- A budget has enough for as long as one unit more than is drawn is left. -/
theorem Budget.charge_enough (room : left ≤ Budget.greatest) (count : Nat) :
    (Budget.charge ⟨left⟩ count).1 = true ↔ (count : Int) < left := by
  have amount : min (count : Int) greatest < left ↔ (count : Int) < left := by omega
  simpa only [Budget.charge, decide_eq_true_eq] using amount

theorem Budget.charge_left {count : Nat} (enough : (count : Int) < left)
    (room : left ≤ Budget.greatest) : (Budget.charge ⟨left⟩ count).2 = ⟨left - count⟩ := by
  have amount : min (count : Int) greatest = count := by omega
  have remains : max (left - count) least = left - count := by
    have below : least ≤ 0 := by decide
    omega
  rw [Budget.charge, amount, remains]

/-- Whatever is left of the budget, allocations are counted. -/
theorem charge_counts (count : Nat) (machine : Machine) :
    (Exec.left (Exec.charge count machine)).world.charged = machine.world.charged + count ∧
      (Exec.left (Exec.charge count machine)).world.tasks = machine.world.tasks ∧
      (Exec.left (Exec.charge count machine)).thread.program = machine.thread.program := by
  cases limit : machine.thread.budget with
  | none =>
    rw [charge_free limit]
    exact ⟨rfl, rfl, rfl⟩
  | some id =>
    rw [charge_limited limit rfl]
    split <;> exact ⟨rfl, rfl, rfl⟩

/-- Allocations are charged for until the limit is reached. -/
theorem Governed.charge {allowed : Allowance} (count : Nat) :
    Governed allowed (Exec.charge count) where
  grows machine := by
    obtain ⟨charged, tasks, program⟩ := charge_counts count machine
    exact ⟨charged ▸ le_add_right _ _, program, fun found => ⟨_, tasks ▸ found, .refl _⟩⟩
  reached _ := ⟨_, rfl⟩
  lockstep {limited free} paired := by
    obtain ⟨id, left, drawn, found, balance⟩ := paired.account
    have sums : limited.world.charged = free.world.charged := paired.charged_eq
    have started := paired.started
    have room : left ≤ Budget.greatest := by
      have room := allowed.room
      omega
    have got : limited.world.budgets.getD id default = ⟨left⟩ := by
      rw [Array.getD_eq_getD_getElem?, found]
      rfl
    rw [charge_free paired.unbounded, charge_limited drawn got]
    by_cases enough : (count : Int) < left
    · rw [if_pos ((Budget.charge_enough room count).2 enough), Budget.charge_left enough room]
      refine .ok rfl ⟨?_, paired.unbounded, ⟨id, left - count, drawn, ?_, ?_⟩, ?_, ?_⟩
      · exact congrArg (fun machine : Machine => machine.counting count) paired.same
      · show (limited.world.budgets.setIfInBounds id ⟨left - count⟩)[id]? = some ⟨left - count⟩
        obtain ⟨inside, -⟩ := Array.getElem?_eq_some_iff.1 found
        simp [inside]
      all_goals
        simp only [Machine.withBudget, Machine.counting]
        omega
    · rw [if_neg fun yes => enough ((Budget.charge_enough room count).1 yes)]
      refine .exceeded ?_
      show allowed.start + allowed.limit < free.world.charged + count
      omega

end Skiff
