import Skiff.Proofs.Budget.Exact

/-!
# Budgets that are shared

A thread and the tasks that it has spawned draw from one budget, in any order. A charge is granted
exactly if all that has been charged for, itself included, is within the limit. So no more than the
limit is ever drawn, and nothing is granted any more once a charge has been refused.
-/

namespace Skiff

open List

/-- What was charged for at once, and whether it was granted. -/
structure Draw where
  count : Nat
  granted : Bool

/-- All that has been charged for. -/
def totalOf (draws : List Draw) : Nat := (draws.map (·.count)).sum

def Exec.succeeds {α : Type} : EStateM.Result RuntimeError Machine α → Bool
  | .ok _ _ => true
  | .error _ _ => false

/-- The charges to a budget while a machine goes on. Between two of them anything may happen that
leaves the budget alone; in particular another thread may take the place of the one that runs. -/
inductive Draws (id : Nat) : Machine → List Draw → Machine → Prop where
  | stop (machine : Machine) : Draws id machine [] machine
  | other {machine next after : Machine} {draws : List Draw}
      (kept : next.world.budgets[id]? = machine.world.budgets[id]?)
      (later : Draws id next draws after) : Draws id machine draws after
  | charge {machine after : Machine} {draws : List Draw} {count : Nat}
      (shares : machine.thread.budget = some id)
      (later : Draws id (Exec.left (Exec.charge count machine)) draws after) :
      Draws id machine (⟨count, Exec.succeeds (Exec.charge count machine)⟩ :: draws) after

variable {limit : Int} {drawn id : Nat} {draws : List Draw} {machine after : Machine}

/-- What is left of a budget from which so much has been drawn. Below zero it may have stopped at
the least number there is, but it never comes up again. -/
def Budget.Owes (budget : Budget) (limit : Int) (drawn : Nat) : Prop :=
  budget.left = limit + 1 - drawn ∨ budget.left ≤ 0 ∧ limit < drawn

theorem Budget.charge_owes {budget : Budget} (owes : budget.Owes limit drawn)
    (room : limit < Budget.greatest) (count : Nat) :
    ((budget.charge count).1 = true ↔ ((drawn + count : Nat) : Int) ≤ limit) ∧
      (budget.charge count).2.Owes limit (drawn + count) := by
  have left : (budget.charge count).2.left = max (budget.left - min (count : Int) greatest) least :=
    rfl
  have enough : (budget.charge count).1 = true ↔ (count : Int) < budget.left :=
    Budget.charge_enough (by unfold Owes greatest at *; omega) count
  unfold Owes greatest least at *
  rw [enough, left]
  omega

/-- Each charge is granted as far as the limit goes, if so much has been drawn before. -/
def Exact (limit : Int) (drawn : Nat) (draws : List Draw) : Prop :=
  ∀ before draw later, draws = before ++ draw :: later →
    (draw.granted = true ↔ ((drawn + (totalOf before + draw.count) : Nat) : Int) ≤ limit)

theorem totalOf_append (draws more : List Draw) :
    totalOf (draws ++ more) = totalOf draws + totalOf more := by
  rw [totalOf, map_append, sum_append]
  rfl

theorem totalOf_cons (draw : Draw) (draws : List Draw) :
    totalOf (draw :: draws) = draw.count + totalOf draws := by
  rw [totalOf, map_cons, sum_cons]
  rfl

namespace Exact

theorem cons {draw : Draw}
    (first : draw.granted = true ↔ ((drawn + draw.count : Nat) : Int) ≤ limit)
    (later : Exact limit (drawn + draw.count) draws) : Exact limit drawn (draw :: draws) := by
  intro before other rest split
  cases before with
  | nil => cases split; simpa [totalOf] using first
  | cons _ before =>
    cases split
    have here := later before other rest rfl
    rwa [Nat.add_assoc, ← Nat.add_assoc draw.count, ← totalOf_cons] at here

/-- Nothing is granted any more behind what has been refused, as all that is charged for only
grows. -/
theorem refused {before : List Draw} {draw later : Draw}
    (exact_ : Exact limit drawn (before ++ draw :: draws))
    (failed : draw.granted = false) (member : later ∈ draws) : later.granted = false := by
  obtain ⟨between, rest, rfl⟩ := append_of_mem member
  have here := exact_ before draw _ rfl
  have there := exact_ (before ++ draw :: between) later rest (by simp)
  rw [totalOf_append, totalOf_cons] at there
  have beyond := mt here.2 (Bool.eq_false_iff.1 failed)
  rw [Bool.eq_false_iff, ne_eq, there]
  omega

/-- What has been granted last was within the limit with all that was granted before. -/
theorem granted_le (exact_ : Exact limit 0 draws) (nonneg : 0 ≤ limit) :
    (totalOf (draws.filter (·.granted)) : Int) ≤ limit := by
  induction draws using reverseRecOn with
  | nil => exact nonneg
  | append_singleton draws draw ih =>
    have within := exact_ draws draw [] rfl
    have before := ih fun before other later split =>
        exact_ before other (later ++ [draw]) (by simp [split])
    have less : totalOf (draws.filter (·.granted)) ≤ totalOf draws :=
      (filter_sublist.map _).sum_le_sum fun _ _ => Nat.zero_le _
    rw [filter_append, totalOf_append]
    cases granted : draw.granted with
    | true =>
      have last : totalOf ([draw].filter (·.granted)) = draw.count := by simp [granted, totalOf]
      have within := within.1 granted
      omega
    | false =>
      have none : totalOf ([draw].filter (·.granted)) = 0 := by simp [granted, totalOf]
      omega

end Exact

theorem Draws.exact (run : Draws id machine draws after) (room : limit < Budget.greatest)
    (account : ∃ budget, machine.world.budgets[id]? = some budget ∧ budget.Owes limit drawn) :
    Exact limit drawn draws := by
  induction run generalizing drawn with
  | stop => exact fun before _ _ split => by simp at split
  | other kept _ ih =>
    rw [← kept] at account
    exact ih account
  | @charge machine _ _ count shares _ ih =>
    obtain ⟨budget, found, owes⟩ := account
    have got : machine.world.budgets.getD id default = budget := by
      rw [Array.getD_eq_getD_getElem?, found, Option.getD_some]
    obtain ⟨granted, left⟩ := Budget.charge_owes owes room count
    have inside : id < machine.world.budgets.size := (Array.getElem?_eq_some_iff.1 found).1
    have stored :
        ((machine.counting count).withBudget id (budget.charge count).2).world.budgets[id]?
        = some (budget.charge count).2 := by
      simp [Machine.withBudget, Machine.counting, inside]
    rw [charge_limited shares got] at ih ⊢
    split at ih
    · rename_i enough
      rw [if_pos enough]
      exact .cons (iff_of_true rfl (granted.1 enough)) (ih ⟨_, stored, left⟩)
    · rename_i short
      rw [if_neg short]
      exact .cons (iff_of_false Bool.false_ne_true (mt granted.2 short)) (ih ⟨_, stored, left⟩)

/-- A budget is never overdrawn, however the threads that share it take turns. Tasks share the
budget of the thread that has spawned them. -/
theorem budget_never_overdrawn (machine : Machine) (nonneg : 0 ≤ machine.thread.config.maxAllocs)
    (room : machine.thread.config.maxAllocs < Int64.maxValue) :
    ∃ id, machine.freshBudget.thread.budget = some id ∧
      (∀ draws after, Draws id machine.freshBudget draws after →
        (∀ before draw later, draws = before ++ draw :: later → (draw.granted = true ↔
          ((totalOf before + draw.count : Nat) : Int) ≤ machine.thread.config.maxAllocs.toInt)) ∧
        (totalOf (draws.filter (·.granted)) : Int) ≤ machine.thread.config.maxAllocs.toInt ∧
        ∀ before refused later, draws = before ++ refused :: later → refused.granted = false →
          ∀ draw ∈ later, draw.granted = false) ∧
      ∀ spawner callee args routine after, Exec.spawn callee args spawner = .ok routine after →
        ∃ task, after.world.tasks = spawner.world.tasks.push task ∧
          task.thread.budget = spawner.thread.budget := by
  have positive : 0 ≤ machine.thread.config.maxAllocs.toInt := Int64.le_iff_toInt_le.1 nonneg
  have below : machine.thread.config.maxAllocs.toInt < Budget.greatest :=
    Int64.lt_iff_toInt_lt.1 room
  unfold Machine.freshBudget
  simp only [if_neg (Int64.not_lt.2 nonneg)]
  refine ⟨_, rfl, fun draws after run => ?_, fun spawner callee args routine after run => ?_⟩
  · have exact_ : Exact _ 0 draws := run.exact below
      ⟨_, Array.getElem?_push_size, .inl (by rw [Budget.ofLimit_eq room]; simp)⟩
    refine ⟨fun before draw later split => by simpa using exact_ before draw later split, ?_, ?_⟩
    · exact exact_.granted_le positive
    · rintro before refused later rfl failed draw member
      exact exact_.refused failed member
  · unfold Exec.spawn at run
    split at run
    · cases run
    · cases run
      exact ⟨_, rfl, rfl⟩

/-- Of a hundred, sixty are granted once. A task that shares the budget is then refused, even if it
asks for nothing. -/
theorem budget_never_overdrawn_hundred :
    let thread : Thread := { (default : Thread) with config := { maxAllocs := 100 } }
    let start := (Machine.mk thread {} {}).freshBudget
    let draws : List Draw := [⟨60, true⟩, ⟨60, false⟩, ⟨0, false⟩]
    (∃ after, Draws 0 start draws after) ∧ (totalOf (draws.filter (·.granted)) : Int) ≤ 100 := by
  intro thread start draws
  let task : Machine :=
    ⟨{ thread with budget := some 0 }, {}, (Exec.left (Exec.charge 60 start)).world⟩
  have first : Exec.succeeds (Exec.charge 60 start) = true := by decide +kernel
  have second : Exec.succeeds (Exec.charge 60 task) = false := by decide +kernel
  have third : Exec.succeeds (Exec.charge 0 (Exec.left (Exec.charge 60 task))) = false := by
    decide +kernel
  have run : Draws 0 start [⟨60, Exec.succeeds (Exec.charge 60 start)⟩,
      ⟨60, Exec.succeeds (Exec.charge 60 task)⟩,
      ⟨0, Exec.succeeds (Exec.charge 0 (Exec.left (Exec.charge 60 task)))⟩] _ :=
    .charge rfl
      (@Draws.other 0 _ task _ _ (by simp only [task])
        (.charge rfl (.charge (by decide +kernel) (.stop _))))
  rw [first, second, third] at run
  obtain ⟨id, same, exact_, -⟩ := budget_never_overdrawn ⟨thread, {}, {}⟩ (by decide) (by decide)
  cases same
  exact ⟨⟨_, run⟩, (exact_ _ _ run).2.1⟩

end Skiff
