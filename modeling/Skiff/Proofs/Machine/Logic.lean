import Skiff.Machine.Schedule
import Skiff.Proofs.Machine.Relation

/-!
# A logic of two machines

Three things are shown of all that a machine does: that machines do the same before and after their
programs are merged, that a machine stays inside of a realm, and that a machine with a limit does
what one without does. Each of them is a way to speak of two computations at a time. What such a way
has to offer is collected here: laws for putting computations together, and laws for what
instructions are made of. Everything else is derived from the laws, once for all three.
-/

namespace Skiff

open List Exec

namespace Bond

/-- Arguments that correspond and may occur. -/
structure Args (bond : Bond) (args args' : List Value) : Prop where
  sames : Forall₂ bond.Values args args'
  few : bond.realm.count args.length

/-- Routines that correspond, with a result that may occur if the routine may. -/
def Routines (bond : Bond) (ref : Nat) (routine routine' : Routine) : Prop :=
  RoutineRel bond.link routine routine' ∧
    (bond.realm.routine ref → routine.value.Inside bond.realm)

/-- Answers to calls. -/
inductive Replies (bond : Bond) : Reply → Reply → Prop where
  | value {value value' : Value} (values : bond.Values value value') :
      bond.Replies (.value value) (.value value')
  | wait {on : Waiting} (inside : on.Inside bond.realm) : bond.Replies (.wait on) (.wait on)

/-- What instructions lead to. -/
inductive Signals (bond : Bond) : Signal → Signal → Prop where
  | next : bond.Signals .next .next
  | halt {value value' : Value} (values : bond.Values value value') :
      bond.Signals (.halt value) (.halt value')
  | wait {on : Waiting} (inside : on.Inside bond.realm) : bond.Signals (.wait on) (.wait on)

/-- What calls from outside begin with. -/
inductive Starts (bond : Bond) : Started → Started → Prop where
  | running : bond.Starts .running .running
  | value {value value' : Value} (values : bond.Values value value') :
      bond.Starts (.value value) (.value value')
  | waiting {on : Waiting} (inside : on.Inside bond.realm) : bond.Starts (.waiting on) (.waiting on)

end Bond

/-- The task that a thread spawns. -/
def spawnedTask (thread : Thread) (heap : Heap) (token routine : Nat) (callee : Value)
    (args : List Value) : Task where
  thread := {
    program := thread.program
    config := thread.config
    stack := Array.replicate thread.config.stackSize .undefined
    globals := thread.globals
    function := thread.program.main
    code := (heap.function thread.program.main).code
    budget := thread.budget
    token }
  routine
  start := some (callee, args)

/-- A new channel with room for so many values. -/
def Exec.newChannel (capacity : Nat) : Exec Value := do
  let channel := (← get).world.channels.size
  modifyWorld fun world => { world with channels := world.channels.push { capacity } }
  return .channel channel

/-- A way to speak of two computations that give related values, from machines that are related. -/
structure Logic (bond : Bond) where
  holds {α β : Type} : (α → β → Prop) → Exec α → Exec β → Prop
  state : Machine → Machine → Prop
  heap {machine machine' : Machine} : state machine machine' →
    bond.Heaps (fun _ _ => True) machine.heap machine'.heap
  pure {α β : Type} {rel : α → β → Prop} {result : α} {result' : β} :
    rel result result' → holds rel (Pure.pure result) (Pure.pure result')
  throw {α β : Type} {rel : α → β → Prop} {e : RuntimeError} :
    e.Inside bond.realm → holds rel (MonadExcept.throw e) (MonadExcept.throw e)
  bind {α β γ δ : Type} {rel : α → β → Prop} {rel' : γ → δ → Prop} {action : Exec α}
    {action' : Exec β} {next : α → Exec γ} {next' : β → Exec δ} : holds rel action action' →
    (∀ {result result'}, rel result result' → holds rel' (next result) (next' result')) →
    holds rel' (action >>= next) (action' >>= next')
  get_bind {α β : Type} {rel : α → β → Prop} {next : Machine → Exec α} {next' : Machine → Exec β} :
    (∀ {machine machine'}, state machine machine' → holds rel (next machine) (next' machine')) →
    holds rel (MonadState.get >>= next) (MonadState.get >>= next')

/-- Two computations that correspond in the sense of a simulation are such a way. -/
def Frames.logic (frames : Frames Machine Machine) (bond : Bond)
    (fails : ∀ {e : RuntimeError}, e.Inside bond.realm → frames.failure e e)
    (heap : ∀ {machine machine' : Machine}, frames.state machine machine' →
      bond.Heaps (fun _ _ => True) machine.heap machine'.heap) : Logic bond where
  holds := Sim frames
  state := frames.state
  heap := heap
  pure := .pure
  throw inside := .throw (fails inside)
  bind first rest := .bind first rest
  get_bind rest := .bind .get rest

namespace Logic

variable {bond : Bond}

/-! ## What instructions are made of -/

/-- Laws for heaps and worlds. -/
structure Native (logic : Logic bond) : Prop where
  faithful : bond.link.Faithful
  lawful : bond.realm.Lawful
  known (value : Value) : bond.link.handle value
  clock {machine machine' : Machine} : logic.state machine machine' →
    machine.world.clock = machine'.world.clock
  maxReserve {machine machine' : Machine} : logic.state machine machine' →
    machine.thread.config.maxReserve = machine'.thread.config.maxReserve
  draws {machine machine' : Machine} : logic.state machine machine' →
    machine.thread.draws = machine'.thread.draws
  setDraws (draws : UInt32) : logic.holds (fun _ _ => True)
    (modifyThread fun thread => { thread with draws }) (modifyThread fun thread =>
      { thread with draws })
  onHeap {α β : Type} {rel : α → β → Prop} {action : HeapM α} {action' : HeapM β} :
    (∀ {core}, Sim (bond.heapFrames core) rel action action') →
    logic.holds rel (onHeap action) (onHeap action')
  charge (count : Nat) : logic.holds (fun _ _ => True) (charge count) (charge count)
  isCancelled : logic.holds Eq isCancelled isCancelled
  cancel (token : Nat) : logic.holds (fun _ _ => True)
    (modifyWorld fun world => { world with tokens := world.tokens.cancel token })
    (modifyWorld fun world => { world with tokens := world.tokens.cancel token })
  channel {ref : Nat} : bond.realm.channel ref →
    logic.holds (ChannelRel bond.Values) (channel ref) (channel ref)
  setChannel (ref : Nat) {channel channel' : Channel} : ChannelRel bond.Values channel channel' →
    logic.holds (fun _ _ => True) (setChannel ref channel) (setChannel ref channel')
  newChannel (capacity : Nat) : logic.holds bond.Values (newChannel capacity)
    (newChannel capacity)
  routine (ref : Nat) : logic.holds (bond.Routines ref) (routine ref) (routine ref)
  spawn {callee callee' : Value} {args args' : List Value} : bond.Values callee callee' →
    bond.Args args args' → logic.holds bond.Values (spawn callee args) (spawn callee' args')
  callHost (ref : Nat) {args args' : List Value} {named named' : Dict Value} :
    bond.Args args args' → bond.Dicts named named' →
    logic.holds bond.Values (callHost ref args named) (callHost ref args' named')

/-- Laws for the stack and variables of a thread. -/
structure Stack (logic : Logic bond) : Prop extends logic.Native where
  shownCells : bond.realm.shownCells
  sp {machine machine' : Machine} : logic.state machine machine' →
    machine.thread.sp = machine'.thread.sp ∧ bond.realm.count machine.thread.sp
  stack {machine machine' : Machine} : logic.state machine machine' →
    bond.Items machine.thread.stack machine'.thread.stack
  push {value value' : Value} : bond.Values value value' →
    logic.holds (fun _ _ => True) (push value) (push value')
  pop : logic.holds bond.Values pop pop
  popMany (count : Nat) : logic.holds (fun values values' => bond.Args values.toList values'.toList)
    (popMany count) (popMany count)
  localSlot (index : Nat) : logic.holds Eq (localSlot index) (localSlot index)
  setSlot (index : Nat) {value value' : Value} : bond.Values value value' →
    logic.holds (fun _ _ => True) (setSlot index value) (setSlot index value')
  global (index : Nat) : logic.holds bond.Values (global index) (global index)
  setGlobal (index : Nat) {value value' : Value} : bond.Values value value' →
    logic.holds (fun _ _ => True) (setGlobal index value) (setGlobal index value')
  freeCell {index : Nat} : bond.realm.count index →
    logic.holds bond.Cells (freeCell index) (freeCell index)
  newCell {value value' : Value} : bond.Values value value' → logic.holds bond.Cells
    (Exec.allocate fun heap => heap.newCell value) (Exec.allocate fun heap => heap.newCell value')
  setCell {ref ref' : Nat} {value value' : Value} : bond.link.cell ref ref' →
    bond.Values value value' → logic.holds (fun _ _ => True)
      (modifyHeap fun heap => heap.setCell ref value)
      (modifyHeap fun heap => heap.setCell ref' value')

/-- Laws for entering and leaving functions. -/
structure Calls (logic : Logic bond) : Prop extends logic.Stack where
  enter {ref ref' count : Nat} (allowTail : Bool) : bond.Values (.function ref) (.function ref') →
    bond.realm.count count → logic.holds (fun _ _ => True) (enter ref count allowTail)
      (enter ref' count allowTail)
  leave (depth : Nat) {value value' : Value} : bond.Values value value' →
    logic.holds bond.Signals (leave depth value) (leave depth value')

/-! ## More laws -/

section
variable {α β γ δ : Type} {rel : α → β → Prop} {rel' : γ → δ → Prop} (logic : Logic bond)

variable {next : α → Exec γ} {next' : β → Exec δ} {items : List α} {items' : List β}
  {each : α → Exec PUnit} {each' : β → Exec PUnit}

theorem throw_bind {e : RuntimeError} (inside : e.Inside bond.realm) :
    logic.holds rel' (MonadExcept.throw e >>= next) (MonadExcept.throw e >>= next') := by
  have fails : logic.holds (fun (_ : α) (_ : β) => False) (MonadExcept.throw e)
      (MonadExcept.throw e) := logic.throw inside
  exact logic.bind fails False.elim

theorem pure_bind {result : α} {result' : β}
    (rest : logic.holds rel' (next result) (next' result')) :
    logic.holds rel' (Pure.pure result >>= next) (Pure.pure result' >>= next') :=
  rest

theorem ofExcept {result : Except RuntimeError α} {result' : Except RuntimeError β}
    (results : bond.Outcomes rel result result') :
    logic.holds rel (Exec.ofExcept result) (Exec.ofExcept result') := by
  cases results with
  | ok same => exact logic.pure same
  | error ordinary => exact logic.throw ordinary.1

/-- Doing something for the elements of related lists in turn. -/
theorem forM (sames : Forall₂ rel items items')
    (once : ∀ {item item'}, rel item item' → logic.holds (fun _ _ => True) (each item)
    (each' item')) : logic.holds (fun _ _ => True) (items.forM each) (items'.forM each') := by
  induction sames with
  | nil => exact logic.pure trivial
  | cons first _ ih => exact logic.bind (once first) fun _ => ih

theorem forM_array {items : Array α} {items' : Array β}
    (sames : Forall₂ rel items.toList items'.toList)
    (once : ∀ {item item'}, rel item item' → logic.holds (fun _ _ => True) (each item)
      (each' item')) :
    logic.holds (fun _ _ => True) (items.forM each) (items'.forM each') := by
  obtain ⟨items⟩ := items
  obtain ⟨items'⟩ := items'
  rw [forM_toArray' _ _ rfl, forM_toArray' _ _ rfl]
  exact logic.forM sames once

theorem mapM_array {items : Array α} {items' : Array β}
    (sames : Forall₂ rel items.toList items'.toList) {each : α → Exec γ} {each' : β → Exec δ}
    (once : ∀ {item item'}, rel item item' → logic.holds rel' (each item) (each' item')) :
    logic.holds (fun results results' => Forall₂ rel' results.toList results'.toList)
      (items.mapM each) (items'.mapM each') := by
  have lists : logic.holds (Forall₂ rel') (items.toList.mapM each) (items'.toList.mapM each') := by
    generalize items.toList = items, items'.toList = items' at sames
    induction sames with
    | nil => exact logic.pure .nil
    | cons first _ ih =>
      rw [mapM_cons, mapM_cons]
      exact logic.bind (once first) fun head => logic.bind ih fun tail =>
        logic.pure (.cons head tail)
  rw [Array.mapM_eq_mapM_toList, Array.mapM_eq_mapM_toList]
  exact logic.bind lists fun results => logic.pure results

/-- Going through related lists with something in hand. -/
theorem foldlM (sames : Forall₂ rel items items') {step : γ → α → Exec γ} {step' : δ → β → Exec δ}
    (once : ∀ {item item'}, rel item item' → ∀ {held held'}, rel' held held' →
      logic.holds rel' (step held item) (step' held' item'))
    {held : γ} {held' : δ} (start : rel' held held') :
    logic.holds rel' (items.foldlM step held) (items'.foldlM step' held') := by
  induction sames generalizing held held' with
  | nil => exact logic.pure start
  | cons first _ ih => exact logic.bind (once first start) fun next => ih next

/-- Something that is read from the heap. -/
theorem readHeap {read : Heap → α} {read' : Heap → β}
    (reads : ∀ {heap heap'}, bond.Heaps (fun _ _ => True) heap heap' →
      rel (read heap) (read' heap')) :
    logic.holds rel (do return read (← MonadState.get).heap)
      (do return read' (← MonadState.get).heap) :=
  logic.get_bind fun states => logic.pure (reads (logic.heap states))

end

theorem Native.allocate {logic : Logic bond} (native : logic.Native) {α β : Type}
    {rel : α → β → Prop} {make : Heap → α × Heap} {make' : Heap → β × Heap}
    (makes : ∀ {core heap heap'}, bond.Heaps core heap heap' →
      rel (make heap).1 (make' heap').1 ∧ bond.Heaps core (make heap).2 (make' heap').2) :
    logic.holds rel (Exec.allocate make) (Exec.allocate make') := by
  have made : logic.holds rel (Exec.onHeap fun heap => .ok (make heap).1 (make heap).2)
      (Exec.onHeap fun heap => .ok (make' heap).1 (make' heap).2) :=
    native.onHeap fun _ _ heaps => .ok (makes heaps).1 (makes heaps).2
  exact made

end Logic

end Skiff
