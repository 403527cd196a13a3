import Skiff.Proofs.Budget.Lockstep
import Skiff.Proofs.Machine.Alone
import Skiff.Proofs.Machine.Instructions

/-!
# Every instruction is governed

What instructions are made of is blind to limits, but for charging. So every instruction is
governed, and with it a turn of a thread.
-/

namespace Skiff

open Nat Exec Realm

open Realm (eq_of_values eq_of_forall₂ heapRel_refl)

variable {α β : Type} {allowed : Allowance}

/-! ## Threads, heap and world -/

namespace Plain

/-- A computation that changes the thread, and looks at what is no limit. -/
theorem onThread {value : Machine → α} {thread : Machine → Thread}
    (same : ∀ machine, value machine.unlimited = value machine)
    (blind : ∀ machine, thread machine.unlimited = (thread machine).unlimited)
    (kept : ∀ machine, (thread machine).budget = machine.thread.budget ∧
      (thread machine).program = machine.thread.program) :
    Plain fun machine => .ok (value machine) ⟨thread machine, machine.heap, machine.world⟩ where
  blind machine := by
    simp only [same, blind]
    rfl
  keeps machine := ⟨(kept machine).1, rfl, rfl, (kept machine).2, id⟩

theorem throw (e : RuntimeError) : Plain (MonadExcept.throw e : Exec α) where
  blind _ := rfl
  keeps _ := ⟨rfl, rfl, rfl, rfl, id⟩

theorem ite {holds : Machine → Prop} [∀ machine, Decidable (holds machine)] {yes no : Exec α}
    (same : ∀ machine, holds machine.unlimited ↔ holds machine) (plain : Plain yes)
    (plain' : Plain no) :
    Plain fun machine => if holds machine then yes machine else no machine where
  blind machine := by
    simp only [same]
    split
    · exact plain.blind machine
    · exact plain'.blind machine
  keeps machine := by
    split
    · exact plain.keeps machine
    · exact plain'.keeps machine

theorem modifyThread {change : Thread → Thread}
    (blind : ∀ thread : Thread, change thread.unlimited = (change thread).unlimited)
    (kept : ∀ thread : Thread, (change thread).budget = thread.budget ∧
      (change thread).program = thread.program) : Plain (Exec.modifyThread change) :=
  onThread (fun _ => rfl) (fun machine => blind machine.thread) fun machine => kept machine.thread

theorem reserveLocals (base locals : Nat) : Plain (Exec.reserveLocals base locals) :=
  .ite (fun _ => .rfl) (.throw _) (.onThread (fun _ => rfl) (fun _ => rfl) fun _ => ⟨rfl, rfl⟩)

theorem pop : Plain Exec.pop where
  blind machine := by
    have same : machine.unlimited.thread.sp = machine.thread.sp := rfl
    simp only [Exec.pop, same]
    cases machine.thread.sp <;> rfl
  keeps machine := by
    unfold Exec.pop
    split <;> exact ⟨rfl, rfl, rfl, rfl, id⟩

theorem top : Plain Exec.top where
  blind machine := by
    have same : machine.unlimited.thread.sp = machine.thread.sp := rfl
    simp only [Exec.top, same]
    cases machine.thread.sp <;> rfl
  keeps machine := by
    unfold Exec.top
    split <;> exact ⟨rfl, rfl, rfl, rfl, id⟩

theorem restoreFrame : Plain Exec.restoreFrame where
  blind machine := by
    have same : machine.unlimited.thread.frames = machine.thread.frames := rfl
    simp only [Exec.restoreFrame, same]
    cases machine.thread.frames.back? <;> rfl
  keeps machine := by
    unfold Exec.restoreFrame
    split <;> exact ⟨rfl, rfl, rfl, rfl, id⟩

theorem fetch : Plain Exec.fetch where
  blind machine := by
    have same : nextInstr machine.unlimited = nextInstr machine := rfl
    simp only [Exec.fetch, same]
    cases nextInstr machine <;> rfl
  keeps machine := by
    unfold Exec.fetch
    split <;> exact ⟨rfl, rfl, rfl, rfl, id⟩

theorem onHeap (action : HeapM α) : Plain (Exec.onHeap action) where
  blind machine := by
    simp only [Exec.onHeap, Machine.unlimited]
    cases action machine.heap <;> rfl
  keeps machine := by
    simp only [Exec.onHeap]
    cases action machine.heap <;> exact ⟨rfl, rfl, rfl, rfl, id⟩

theorem allocate (make : Heap → α × Heap) : Plain (Exec.allocate make) where
  blind _ := rfl
  keeps _ := ⟨rfl, rfl, rfl, rfl, id⟩

theorem modifyHeap (change : Heap → Heap) : Plain (Exec.modifyHeap change) where
  blind _ := rfl
  keeps _ := ⟨rfl, rfl, rfl, rfl, id⟩

/-- Changes of a world that have nothing to do with budgets and tasks. -/
theorem modifyWorld {change : World → World}
    (blind : ∀ world : World, change world.unlimited = (change world).unlimited)
    (keeps : ∀ world, (change world).budgets = world.budgets ∧
      (change world).charged = world.charged ∧ (change world).tasks = world.tasks) :
    Plain (Exec.modifyWorld change) where
  blind machine := by
    simp only [Exec.modifyWorld, Machine.unlimited, blind, Exec.unlimited]
  keeps machine := by
    obtain ⟨budgets, charged, tasks⟩ := keeps machine.world
    exact ⟨rfl, budgets, charged, rfl, fun found => tasks ▸ found⟩

theorem callHost (ref : Nat) (args : List Value) (named : Dict Value) :
    Plain (Exec.callHost ref args named) where
  blind machine := by
    obtain ⟨thread, heap, world⟩ := machine
    have same : world.unlimited.hosts = world.hosts := rfl
    simp only [Exec.callHost, Machine.unlimited, same]
    cases world.hosts[ref]? with
    | none => rfl
    | some host =>
      have lines : world.unlimited.transcript = world.transcript := rfl
      dsimp only
      rw [lines]
      cases host.run args named (heap, world.transcript) <;> rfl
  keeps machine := by
    obtain ⟨thread, heap, world⟩ := machine
    simp only [Exec.callHost]
    cases world.hosts[ref]? with
    | none => exact ⟨rfl, rfl, rfl, rfl, id⟩
    | some host =>
      dsimp only
      cases host.run args named (heap, world.transcript) <;> exact ⟨rfl, rfl, rfl, rfl, id⟩

/-- A spawned task gets the limit of its spawner, and no limit if there is none. -/
theorem spawn (callee : Value) (args : List Value) : Plain (Exec.spawn callee args) := by
  unfold Exec.spawn
  cases callee.isCallable with
  | false => exact ⟨fun _ => rfl, fun _ => ⟨rfl, rfl, rfl, rfl, id⟩⟩
  | true =>
    refine ⟨fun machine => ?_, fun machine => ⟨rfl, rfl, rfl, rfl, fun found => ?_⟩⟩
    · refine congrArg (EStateM.Result.ok _) (congrArg (Machine.mk _ _) ?_)
      simp only [World.unlimited, Array.map_push]
      rfl
    · have inside := (Array.getElem?_eq_some_iff.1 found).1
      exact (Array.getElem?_push.trans (if_neg inside.ne)).trans found

end Plain

namespace Governed

theorem modifyThread {change : Thread → Thread}
    (blind : ∀ thread : Thread, change thread.unlimited = (change thread).unlimited)
    (kept : ∀ thread : Thread, (change thread).budget = thread.budget ∧
      (change thread).program = thread.program) : Governed allowed (Exec.modifyThread change) :=
  (Plain.modifyThread blind kept).governed

theorem push (value : Value) : Governed allowed (Exec.push value) :=
  Plain.governed
    (.ite (fun _ => .rfl) (.modifyThread (fun _ => rfl) fun _ => ⟨rfl, rfl⟩) (.throw _))

theorem popMany (count : Nat) : Governed allowed (Exec.popMany count) :=
  Plain.governed
    (.ite (fun _ => .rfl) (.throw _) (.onThread (fun _ => rfl) (fun _ => rfl) fun _ => ⟨rfl, rfl⟩))

/-! ## Channels and variables -/

theorem newChannel (capacity : Nat) : Governed allowed (Exec.newChannel capacity) := by
  refine get_bind (fun _ => rfl) fun machine => ?_
  exact bind (Plain.governed (.modifyWorld (fun _ => rfl) fun _ => ⟨rfl, rfl, rfl⟩)) fun _ => pure _

theorem localSlot (index : Nat) : Governed allowed (Exec.localSlot index) := by
  refine get_bind (fun _ => rfl) fun machine => ?_
  dsimp only
  split
  · exact pure _
  · exact throw _

theorem constant (index : Nat) : Governed allowed (Exec.constant index) := by
  refine get_bind (fun _ => rfl) fun machine => ?_
  cases machine.thread.program.constants[index]? with
  | none => exact throw _
  | some value => exact pure value

theorem freeCell (index : Nat) : Governed allowed (Exec.freeCell index) := by
  refine get_bind (fun _ => rfl) fun machine => ?_
  cases (machine.heap.function machine.thread.function).free[index]? with
  | none => exact throw _
  | some cell => exact pure cell

end Governed

namespace Allowance

/-- Machines with and without a limit as a way to speak of computations. -/
def logic (allowed : Allowance) : Logic whole.bond where
  holds := Governs allowed
  state limited free := limited.unlimited = free.unlimited
  heap {limited free} same := by
    have heaps : limited.heap = free.heap := congrArg (·.heap) same
    rw [heaps]
    exact ⟨heapRel_refl free.heap trivial, free.heap.inside_whole⟩
  pure := .pure
  throw _ := .throw _
  bind := .bind
  get_bind := .get_bind

theorem values (value : Value) : whole.bond.Values value value := Realm.values value.inside_whole

theorem channels (channel : Channel) : ChannelRel whole.bond.Values channel channel where
  capacity := rfl
  buffer := List.forall₂_same.2 fun value _ => values value
  offers := List.forall₂_same.2 fun offer _ => ⟨rfl, values offer.2⟩
  tickets := rfl
  closed := rfl

/-- What is done to the same heap does not depend on limits. -/
theorem onHeap {rel : α → β → Prop} {action : HeapM α} {action' : HeapM β}
    (sim : ∀ {core}, Sim (whole.bond.heapFrames core) rel action action') :
    Governs allowed rel (Exec.onHeap action) (Exec.onHeap action') := by
  have results (heap : Heap) := sim heap heap
    (⟨heapRel_refl heap ⟨rfl, rfl⟩, heap.inside_whole⟩ : whole.bond.Heaps
      (HeapRel.Still heap heap) heap heap)
  refine ⟨?_, ?_, ?_⟩
  · intro machine
    exact ((Plain.onHeap action').keeps machine).grows
  · intro machine after value' run
    have results := results machine.heap
    unfold Exec.onHeap at run
    dsimp only at run
    generalize action machine.heap = left, action' machine.heap = right at results run
    cases results with
    | ok same _ =>
      cases run
      exact ⟨_, same⟩
    | error _ _ => cases run
    | limit reached => exact reached.elim
  · rintro ⟨thread, heap, world⟩ ⟨thread', heap', world'⟩ paired
    obtain ⟨threads, rfl, worlds⟩ : thread.unlimited = thread'.unlimited ∧ heap = heap' ∧
        world.unlimited = world'.unlimited := by simpa [Machine.unlimited] using paired.same
    have kept (next : Heap) : Paired allowed ⟨thread, next, world⟩ ⟨thread', next, world'⟩ :=
      paired.keep (by simp only [Machine.unlimited, threads, worlds])
        ⟨rfl, rfl, rfl, rfl, id⟩ ⟨rfl, rfl, rfl, rfl, id⟩
    have results := results heap
    unfold Exec.onHeap
    dsimp only
    generalize action heap = left, action' heap = right at results
    cases results with
    | ok same states =>
      cases eq_of_heapRel states.same
      exact .ok same (kept _)
    | error failures states =>
      cases failures.1
      cases eq_of_heapRel states.same
      exact .error (kept _)
    | limit reached => exact reached.elim

/-- Computations for which limits do not matter, but for charging. -/
theorem stack (allowed : Allowance) : allowed.logic.Stack where
  faithful := Link.same_faithful
  lawful := whole_lawful
  known _ := trivial
  clock same := congrArg (·.world.clock) same
  maxReserve same := congrArg (·.thread.config.maxReserve) same
  draws same := congrArg (·.thread.draws) same
  setDraws _ := Governed.relate (Governed.modifyThread (fun _ => rfl) fun _ => ⟨rfl, rfl⟩) fun _ => trivial
  onHeap := onHeap
  charge count := (Governed.charge count).relate fun _ => trivial
  isCancelled := Governed.get_pure _ fun _ => rfl
  cancel _ := Governed.relate
    (Plain.governed (.modifyWorld (fun _ => rfl) fun _ => ⟨rfl, rfl, rfl⟩)) fun _ => trivial
  channel {ref} _ :=
    (Governed.get_pure (·.world.channels.getD ref default) fun _ => rfl).relate channels
  setChannel ref _ _ same := by
    cases eq_of_channelRel same
    exact Governed.relate
      (Plain.governed (.modifyWorld (fun _ => rfl) fun _ => ⟨rfl, rfl, rfl⟩)) fun _ => trivial
  newChannel capacity := (Governed.newChannel capacity).relate values
  routine ref := (Governed.get_pure (·.world.routines.getD ref default) fun _ => rfl).relate
    fun routine => ⟨routineRel_refl routine, fun _ => Value.inside_whole _⟩
  spawn callees args := by
    cases eq_of_values callees
    cases eq_of_forall₂ eq_of_values args.sames
    exact (Plain.spawn _ _).governed.relate values
  callHost ref _ _ _ _ args named := by
    cases eq_of_forall₂ eq_of_values args.sames
    cases eq_of_dictRel named.same
    exact (Plain.callHost ref _ _).governed.relate values
  shownCells := trivial
  sp same := ⟨congrArg (·.thread.sp) same, trivial⟩
  stack {limited free} same := by
    have equal : limited.thread.stack = free.thread.stack := congrArg (·.thread.stack) same
    rw [equal]
    exact List.forall₂_same.2 fun value _ => values value
  push same := by
    cases eq_of_values same
    exact (Governed.push _).relate fun _ => trivial
  pop := Plain.pop.governed.relate values
  popMany count := (Governed.popMany count).relate fun _ =>
    ⟨List.forall₂_same.2 fun value _ => values value, trivial⟩
  localSlot := Governed.localSlot
  setSlot index _ _ same := by
    cases eq_of_values same
    exact Governed.relate (Governed.modifyThread (fun _ => rfl) fun _ => ⟨rfl, rfl⟩) fun _ => trivial
  global index :=
    (Governed.get_pure (·.thread.globals.getD index .undefined) fun _ => rfl).relate values
  setGlobal index _ _ same := by
    cases eq_of_values same
    exact Governed.relate (Governed.modifyThread (fun _ => rfl) fun _ => ⟨rfl, rfl⟩) fun _ => trivial
  freeCell {index} _ := (Governed.freeCell index).relate fun _ => ⟨rfl, trivial⟩
  newCell same := by
    cases eq_of_values same
    exact (Plain.allocate _).governed.relate fun _ => ⟨rfl, trivial⟩
  setCell cells same := by
    cases cells
    cases eq_of_values same
    exact (Plain.modifyHeap _).governed.relate fun _ => trivial

end Allowance

namespace Governed

/-! ## Calls -/

theorem repeatFrame (function : Function) (count : Nat) (discard : Bool) :
    Governed allowed (Exec.repeatFrame function count discard) := by
  refine get_bind (fun _ => rfl) fun machine => bind (popMany count) fun args => ?_
  have pushed : Governed allowed (args.forM Exec.push) :=
    (allowed.logic.forM_array (List.forall₂_same.2 fun value _ => Allowance.values value)
      allowed.stack.push).mono fun _ => rfl
  refine bind (modifyThread (fun _ => rfl) fun _ => ⟨rfl, rfl⟩) fun _ => bind pushed fun _ => ?_
  refine bind (Plain.reserveLocals _ _).governed fun _ => ?_
  exact modifyThread (fun _ => rfl) fun _ => ⟨rfl, rfl⟩

theorem pushFrame (ref : Nat) (function : Function) (count : Nat) :
    Governed allowed (Exec.pushFrame ref function count) := by
  refine get_bind (fun _ => rfl) fun machine => ?_
  dsimp only
  split
  · exact throw_bind _ _
  · refine bind (Plain.reserveLocals _ _).governed fun _ => ?_
    exact modifyThread (fun _ => rfl) fun _ => ⟨rfl, rfl⟩

theorem enter (ref count : Nat) (allowTail : Bool) :
    Governed allowed (Exec.enter ref count allowTail) := by
  refine get_bind (fun _ => rfl) fun machine => bind (allowed.stack.packArgs _ trivial trivial)
    fun count => ?_
  refine get_bind (fun _ => rfl) fun machine => ?_
  dsimp only
  split
  · cases tailPosition? machine.thread.code machine.thread.ip with
    | none => exact pushFrame ref _ count
    | some discard => exact repeatFrame _ count discard
  · exact pushFrame ref _ count

theorem leave (depth : Nat) (value : Value) : Governed allowed (Exec.leave depth value) := by
  refine get_bind (fun _ => rfl) fun machine => ?_
  cases machine.thread.frames.back? with
  | none => exact throw _
  | some frame =>
    refine bind (modifyThread (fun _ => rfl) fun _ => ⟨rfl, rfl⟩) fun _ => ?_
    refine bind (modifyThread (fun _ => rfl) fun _ => ⟨rfl, rfl⟩) fun _ => ?_
    refine get_bind (fun _ => rfl) fun machine => bind Plain.restoreFrame.governed fun _ => ?_
    split
    · exact pure _
    · exact bind (push _) fun _ => pure _

end Governed

namespace Allowance

theorem calls (allowed : Allowance) : allowed.logic.Calls where
  toStack := allowed.stack
  enter {ref _ count} allowTail functions _ := by
    cases eq_of_values functions
    exact (Governed.enter ref count allowTail).relate fun _ => trivial
  leave depth value _ same := by
    cases eq_of_values same
    refine (Governed.leave depth value).relate fun signal => ?_
    cases signal with
    | next => exact .next
    | halt value => exact .halt (values value)
    | wait on => exact .wait on.inside_whole

end Allowance

namespace Governed

/-! ## Instructions -/

theorem eq_of_signals {signal signal' : Signal} (same : whole.bond.Signals signal signal') :
    signal = signal' := by
  cases same with
  | next | wait _ => rfl
  | halt values => rw [eq_of_values values]

/-- An instruction that does something and goes on. -/
theorem andNext {action : Exec α} (governed : Governed allowed action) :
    Governed allowed (do let _ ← action; return Signal.next) :=
  bind governed fun _ => pure _

/-- A function of a constant with captured cells. -/
theorem closure (depth first captured : Nat) :
    Governed allowed (Exec.execute depth ⟨.closure, first, captured⟩) := by
  refine bind (constant first) fun value => ?_
  cases value with
  | function ref =>
    refine bind (popMany captured) fun values => bind ?_ fun cells =>
      bind (charge 1) fun _ => bind (Plain.allocate _).governed fun _ => andNext (push _)
    have sames : whole.bond.Items values values :=
      List.forall₂_same.2 fun value _ => Allowance.values value
    exact (allowed.stack.captureAll sames).mono fun cells =>
      Array.toList_inj.1 (eq_of_forall₂ And.left cells)
  | _ => exact throw_bind _ _

/-- Every instruction is governed. -/
theorem execute (depth : Nat) (instr : Fetched) : Governed allowed (Exec.execute depth instr) := by
  by_cases jumps : instr.op.isJump = true
  · have jump : Governed allowed (jump instr.first) := modifyThread (fun _ => rfl) fun _ => ⟨rfl, rfl⟩
    exact (allowed.logic.executeJump jumps allowed.stack.pop
      (Plain.top.governed.relate Allowance.values)
      (jump.relate fun _ => trivial)).mono eq_of_signals
  · by_cases takes : instr.op = .const
    · obtain ⟨op, first, second⟩ := instr
      subst takes
      exact bind (constant first) fun _ => andNext (push _)
    · by_cases makes : instr.op = .closure
      · obtain ⟨op, first, second⟩ := instr
        subst makes
        exact closure depth first second
      · exact (allowed.calls.execute depth trivial (by simpa using jumps) ⟨takes, makes⟩).mono
          eq_of_signals

theorem step (depth : Nat) : Governed allowed (Exec.step depth) :=
  bind Plain.fetch.governed fun instr => execute depth instr

/-! ## Turns -/

/-- By induction on the number of instructions: a turn is governed because each of them is. -/
theorem turn (depth fuel : Nat) : Governed allowed (Exec.turn depth fuel) := by
  induction fuel with
  | zero => exact pure _
  | succ fuel ih =>
    refine bind (step depth) fun signal => ?_
    cases signal with
    | next => exact ih
    | halt value => exact pure _
    | wait on => exact pure _

theorem run (depth : Nat) : Governed allowed (Exec.run depth) := by
  refine bind (turn depth _) fun ended => ?_
  obtain ⟨pause, left⟩ := ended
  cases pause <;> exact pure _

/-- A turn of a thread in any state. -/
theorem takeTurn (depth : Nat) (state : TaskState) :
    Governed allowed (Exec.takeTurn depth state) := by
  cases state with
  | ready => exact run depth
  | waiting on direct =>
    have polled : Governed allowed (poll on) :=
      (allowed.stack.poll on.inside_whole).mono fun answers => by
        cases answers with
        | none => rfl
        | some values => rw [eq_of_values values]
    refine bind polled fun answer => ?_
    cases answer with
    | none => exact pure _
    | some value =>
      cases direct with
      | true => exact bind (charge 1) fun _ => pure _
      | false =>
        have finished : Governed allowed (finishNative value) := bind (charge 1) fun _ => push value
        exact bind finished fun _ => run depth
  | done => exact pure _

/-- The first turn of a call. -/
theorem startTurn (depth : Nat) (callee : Value) (args : List Value) :
    Governed allowed (Exec.startTurn depth callee args) := by
  have sames : Realm.whole.bond.Args args args :=
    Realm.args (fun value _ => value.inside_whole) trivial
  have started : Governed allowed (Exec.start callee args) :=
    (allowed.calls.start (Allowance.values callee) sames).mono fun starts => by
      cases starts with
      | running | waiting _ => rfl
      | value values => rw [eq_of_values values]
  refine bind started fun begun => ?_
  cases begun with
  | running => exact run depth
  | value value => exact pure _
  | waiting on => exact pure _

theorem taskTurn (task : Task) : Governed allowed task.turn := by
  unfold Task.turn
  split
  · exact startTurn 0 _ _
  · exact takeTurn 0 task.state

end Governed

end Skiff
