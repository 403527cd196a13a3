import Skiff.Proofs.Code.Follow
import Skiff.Proofs.Machine.Instructions
import Skiff.Proofs.Merge.Relation

/-!
# Parts of instructions before and after merging

What instructions are made of does the same to corresponding machines: moving values, reading
variables and constants, making cells, going to another place and taking the next instruction.
-/

namespace Skiff

open Exec

theorem clearSlots_rel {link : Link} {stack stack' : Array Value}
    (same : ItemsRel link stack stack') (low high : Nat) :
    ItemsRel link (Thread.clearSlots stack low high) (Thread.clearSlots stack' low high) := by
  unfold Thread.clearSlots
  generalize List.range' low (high - low) = slots
  induction slots generalizing stack stack' with
  | nil => exact same
  | cons slot _ ih => exact ih (forall₂_setIfInBounds same slot .undefined)

namespace Merging

/-! ## Threads -/

namespace ThreadRel

variable {merging : Merging} {stock : Stock} {thread thread' : Thread}
  (same : merging.ThreadRel stock thread thread')
include same

variable {value value' : Value}

theorem push (values : ValueRel (merging.link stock) value value') :
    merging.ThreadRel stock (thread.push value) (thread'.push value') :=
  { same with
    stack := by
      rw [Thread.push, Thread.push, same.sp]
      exact forall₂_setIfInBounds same.stack _ values
    sp := congrArg (· + 1) same.sp }

theorem cut (slot : Nat) :
    merging.ThreadRel stock (thread.cut slot) (thread'.cut slot) :=
  { same with
    stack := by
      rw [Thread.cut, Thread.cut, same.sp]
      exact clearSlots_rel same.stack _ _
    sp := rfl }

theorem drop (slot : Nat) :
    merging.ThreadRel stock (thread.drop slot) (thread'.drop slot) :=
  { same with stack := forall₂_setIfInBounds same.stack slot .undefined, sp := rfl }

theorem setSlot (slot : Nat) (values : ValueRel (merging.link stock) value value') :
    merging.ThreadRel stock (thread.setSlot slot value) (thread'.setSlot slot value') :=
  { same with stack := forall₂_setIfInBounds same.stack slot values }

theorem setGlobal (index : Nat) (values : ValueRel (merging.link stock) value value') :
    merging.ThreadRel stock (thread.setGlobal index value)
      (thread'.setGlobal index value') :=
  { same with
    globals := by
      refine forall₂_setIfInBounds ?_ index values
      rw [forall₂_size same.globals]
      split
      · exact same.globals
      · exact forall₂_append same.globals (forall₂_replicate _ .undefined) }

theorem grow (top : Nat) :
    merging.ThreadRel stock (thread.grow top) (thread'.grow top) :=
  { same with
    stack := by
      rw [Thread.grow, Thread.grow, same.sp]
      exact clearSlots_rel same.stack _ _
    sp := rfl }

theorem moveTo {ip : Nat} (place : AtInstr thread.code ip) :
    merging.ThreadRel stock (thread.moveTo ip) (thread'.moveTo ip) :=
  { same with place, ip := rfl }

end ThreadRel

/-! ## Parts of instructions -/

section Parts
variable {merging : Merging} {stock : Stock}

theorem agrees (lawful : merging.Lawful) : (merging.threads stock).Agrees (merging.link stock) where
  faithful := link_faithful lawful
  known _ := trivial
  token same := same.token
  budget same := same.budget
  config same := same.config
  draws same := same.draws
  setDraws draws _ _ _ _ same := { same with draws := rfl }
  spawn token routine cores same callees _ args := by
    have main : merging.function stock merging.before.main merging.after.main :=
      ⟨.inl lawful.main, Nat.lt_of_lt_of_le (lawful.old lawful.main) cores.first⟩
    refine ⟨rfl, rfl, .some ⟨callees, args⟩, fun _ => ?_⟩
    exact {
      same with
      stack := by
        simp only [spawnedTask, same.config]
        exact forall₂_replicate _ .undefined
      sp := rfl
      frames := .nil
      last := by rintro _ ⟨⟩
      function := by simpa only [spawnedTask, same.program, same.program'] using main
      code := by simp only [spawnedTask, cores.function]
      code' := by simp only [spawnedTask, cores.function']
      place := by
        simp only [spawnedTask, same.program, cores.function]
        exact atInstr_zero (cores.functions main).renumberable.full
      ip := rfl
      base := rfl
      token := rfl
      draws := rfl }

variable {machine machine' : Machine} {value value' : Value} {code : ByteArray}

section
variable (same : (merging.frames stock).state machine machine') (ref : Nat)
include same

theorem function_eq : machine.heap.function ref = stock.function ref := same.core.function ref

theorem function_eq' : machine'.heap.function ref = stock.function' ref := same.core.function' ref

end

theorem modifyThread {change change' : Thread → Thread}
    (changes : ∀ {thread thread'}, merging.StockRel stock → merging.ThreadRel stock thread thread' →
      merging.ThreadRel stock (change thread) (change' thread')) :
    Sim (merging.frames stock) (fun _ _ => True) (Exec.modifyThread change)
      (Exec.modifyThread change') := by
  rintro ⟨thread, heap, world⟩ ⟨thread', heap', world'⟩ ⟨cores, threads, heaps, worlds⟩
  exact .ok trivial ⟨cores, changes cores.toStockRel threads, heaps, worlds⟩

theorem push (values : (merging.bond stock).Values value value') :
    Sim (merging.frames stock) (fun _ _ => True) (Exec.push value) (Exec.push value') := by
  intro machine machine' same
  have sp := same.thread.sp
  have size := forall₂_size same.thread.stack
  unfold Exec.push
  rw [sp, size]
  split
  · exact modifyThread (fun _ threads => threads.push values.same) _ _ same
  · exact .error rfl same

theorem pop : Sim (merging.frames stock) (merging.bond stock).Values Exec.pop Exec.pop := by
  rintro ⟨thread, heap, world⟩ ⟨thread', heap', world'⟩ same
  obtain ⟨cores, threads, heaps, worlds⟩ := id same
  have sp : thread.sp = thread'.sp := threads.sp
  unfold Exec.pop
  dsimp only
  rw [sp]
  cases thread'.sp with
  | zero => exact .error rfl same
  | succ top =>
    exact .ok (Link.values (forall₂_getD threads.stack top .undefined))
      ⟨cores, threads.drop top, heaps, worlds⟩

theorem top : Sim (merging.frames stock) (merging.bond stock).Values Exec.top Exec.top := by
  intro machine machine' same
  unfold Exec.top
  rw [same.thread.sp]
  cases machine'.thread.sp with
  | zero => exact .error rfl same
  | succ top => exact .ok (Link.values (forall₂_getD same.thread.stack top .undefined)) same

theorem popMany (many : Nat) :
    Sim (merging.frames stock)
      (fun values values' => (merging.bond stock).Args values.toList values'.toList)
      (Exec.popMany many) (Exec.popMany many) := by
  rintro ⟨thread, heap, world⟩ ⟨thread', heap', world'⟩ same
  obtain ⟨cores, threads, heaps, worlds⟩ := id same
  have sp : thread.sp = thread'.sp := threads.sp
  unfold Exec.popMany
  dsimp only
  rw [sp]
  split
  · exact .error rfl same
  · exact .ok (Link.args (forall₂_extract threads.stack _ _)) ⟨cores, threads.cut _, heaps, worlds⟩

theorem clearFrom (slot : Nat) :
    Sim (merging.frames stock) (fun _ _ => True) (Exec.clearFrom slot) (Exec.clearFrom slot) :=
  modifyThread fun _ threads => threads.cut slot

/-- A constant of the program is found under its new number. -/
theorem constant (lawful : merging.Lawful) {index : Nat}
    (found : merging.before.constants[index]? = some value) :
    Sim (merging.frames stock)
      (fun here here' => here = value ∧ (merging.bond stock).Values here here')
      (Exec.constant index) (Exec.constant (merging.places.getD index index)) := by
  refine Sim.bind .get fun same => ?_
  obtain ⟨value', found', values⟩ := lawful.constants same.core.first found
  rw [same.thread.program, same.thread.program', found, found']
  exact .pure ⟨rfl, Link.values values⟩

/-- Cells that get new values. -/
theorem withCells {thread thread' : Thread} {heap heap' : Heap}
    {world world' : World} {cells cells' : Array Value}
    (same : MachineRel (merging.link stock) (merging.threads stock) ⟨thread, heap, world⟩
      ⟨thread', heap', world'⟩)
    (values : List.Forall₂ (ValueRel (merging.link stock)) cells.toList cells'.toList) :
    MachineRel (merging.link stock) (merging.threads stock) ⟨thread, { heap with cells }, world⟩
      ⟨thread', { heap' with cells := cells' }, world'⟩ := by
  obtain ⟨cores, threads, heaps, worlds⟩ := same
  refine ⟨{ cores with cells := forall₂_size values }, threads,
    { heaps with cell := ?_, reach := fun _ => congrArg (· + 1) (forall₂_size values) }, worlds⟩
  rintro ref _ rfl
  exact forall₂_getD values ref .undefined

theorem cells (same : MachineRel (merging.link stock) (merging.threads stock) machine machine') :
    List.Forall₂ (ValueRel (merging.link stock)) machine.heap.cells.toList
      machine'.heap.cells.toList := by
  refine List.forall₂_iff_get.2 ⟨same.core.cells, fun ref inside inside' => ?_⟩
  have values := same.heap.cell (rfl : ref = ref)
  rw [Array.length_toList] at inside inside'
  simpa [Heap.cell, inside, inside'] using values

/-- The laws for the stack and variables. -/
theorem stack (lawful : merging.Lawful) : (merging.logic stock).Stack where
  toNative := (agrees lawful).native
  shownCells := trivial
  sp same := ⟨same.thread.sp, trivial⟩
  stack same := same.thread.stack.imp fun _ _ => Link.values
  push := push
  pop := pop
  popMany := popMany
  localSlot index := Sim.bind .get fun same => by
    dsimp only
    rw [same.thread.base, forall₂_size same.thread.stack]
    split
    · exact .pure rfl
    · exact .throw rfl
  setSlot index _ _ values := modifyThread fun _ threads => threads.setSlot index values.same
  global index := Sim.bind .get fun same =>
    .pure (Link.values (forall₂_getD same.thread.globals index .undefined))
  setGlobal index _ _ values := modifyThread fun _ threads => threads.setGlobal index values.same
  freeCell _ := Sim.bind .get fun same => by
    have functions := same.core.functions same.thread.function
    rw [function_eq same, function_eq' same, functions.renumbered]
    dsimp only [Function.renumber]
    split
    · exact .pure ⟨rfl, trivial⟩
    · exact .throw rfl
  newCell values _ _ same :=
    .ok ⟨same.core.cells, trivial⟩ (withCells same (forall₂_push (cells same) values.same))
  setCell refs values _ _ same := by
    cases refs
    exact .ok trivial (withCells same (forall₂_setIfInBounds (cells same) _ values.same))

/-! ## Code -/

/-- Corresponding machines, the first of which runs a given code. -/
def framesIn (merging : Merging) (stock : Stock) (code : ByteArray) : Frames Machine Machine :=
  { merging.frames stock with
    state := fun machine machine' =>
      (merging.frames stock).state machine machine' ∧ machine.thread.code = code }

/-- The state that a computation leaves behind. -/
def leftBy {α : Type} : EStateM.Result RuntimeError Machine α → Machine
  | .ok _ machine | .error _ machine => machine

/-- These machines as a way to speak of computations. -/
def logicIn (merging : Merging) (stock : Stock) (code : ByteArray) : Logic (merging.bond stock) :=
  (merging.framesIn stock code).logic (merging.bond stock) (fun _ => rfl)
    fun same => (merging.logic stock).heap same.1

variable {α : Type} {rel : α → α → Prop} {action action' : Exec α}

theorem stay (sim : Sim (merging.frames stock) rel action action')
    (keeps : ∀ machine, (leftBy (action machine)).thread.code = machine.thread.code) :
    Sim (merging.framesIn stock code) rel action action' := by
  rintro machine machine' ⟨same, rfl⟩
  have results := sim _ _ same
  have kept := keeps machine
  generalize action machine = left, action' machine' = right at results kept
  cases results with
  | ok values states => exact .ok values ⟨states, kept⟩
  | error failures states => exact .error failures ⟨states, kept⟩
  | limit reached => exact reached.elim

theorem leave (sim : Sim (merging.framesIn stock code) rel action action')
    (same : (merging.frames stock).state machine machine') (here : machine.thread.code = code) :
    ResultRel (merging.frames stock) rel (action machine) (action' machine') := by
  have results := sim _ _ ⟨same, here⟩
  generalize action machine = left, action' machine' = right at results
  cases results with
  | ok values states => exact .ok values states.1
  | error failures states => exact .error failures states.1
  | limit reached => exact reached.elim

theorem jump {target : Nat} (place : AtInstr code target) :
    Sim (merging.framesIn stock code) (fun _ _ => True) (Exec.jump target) (Exec.jump target) := by
  rintro ⟨thread, heap, world⟩ ⟨thread', heap', world'⟩ ⟨⟨cores, threads, heaps, worlds⟩, rfl⟩
  exact .ok trivial ⟨⟨cores, threads.moveTo place, heaps, worlds⟩, rfl⟩

theorem popIn :
    Sim (merging.framesIn stock code) (merging.bond stock).Values Exec.pop Exec.pop := by
  refine stay pop fun machine => ?_
  unfold Exec.pop
  split <;> rfl

theorem topIn :
    Sim (merging.framesIn stock code) (merging.bond stock).Values Exec.top Exec.top := by
  refine stay top fun machine => ?_
  unfold Exec.top
  split <;> rfl

/-! ## Instructions -/

/-- The fetched instruction with the number of its constant replaced. -/
def renumbered (merging : Merging) (instr : Fetched) : Fetched :=
  match instr.op with
  | .const | .closure => { instr with first := merging.places.getD instr.first instr.first }
  | _ => instr

/-- What is known of an instruction of a code that can be renumbered. -/
structure Sound (merging : Merging) (code : ByteArray) (instr : Fetched) : Prop where
  jumps : instr.op.isJump = true → AtInstr code instr.first
  constants : instr.op = .const → instr.first < merging.before.constants.size
  closures : instr.op = .closure →
    ∃ ref, merging.before.constants[instr.first]? = some (.function ref)

theorem fetched_renumber {instr : PlacedInstr} (fits : instr.op.Fits instr.operands) :
    (instr.renumber merging.places).fetched = merging.renumbered instr.fetched := by
  obtain ⟨pos, op, operands⟩ := instr
  cases op with
  | const | closure =>
    obtain ⟨first, rest, _, _, rfl⟩ := List.forall₂_cons_left_iff.1 fits
    rfl
  | _ => rfl

/-- Taking an instruction. -/
theorem fetch (lawful : merging.Lawful) :
    Sim (merging.framesIn stock code)
      (fun instr instr' => instr' = merging.renumbered instr ∧ merging.Sound code instr)
      Exec.fetch Exec.fetch := by
  rintro machine machine' ⟨same, rfl⟩
  have threads := same.thread
  have functions := same.core.functions threads.function
  have renumberable : Renumberable merging.before machine.thread.code := by
    rw [threads.code]
    exact functions.renumberable
  have code' : machine'.thread.code = renumber merging.places machine.thread.code := by
    rw [threads.code, threads.code', functions.renumbered, Function.renumber]
  have size := size_renumber lawful.lowers renumberable.full
  -- Both machines meet the same token, the same number of bytes and the same place.
  have tokens : machine'.world.tokens.isCancelled machine'.thread.token
      = machine.world.tokens.isCancelled machine.thread.token := by
    rw [← same.world.tokens, ← threads.token]
  unfold Exec.fetch
  cases cancelled : machine.world.tokens.isCancelled machine.thread.token with
  | true =>
    simp only [nextInstr, tokens, cancelled, if_true]
    exact .error rfl ⟨same, rfl⟩
  | false =>
    rw [cancelled] at tokens
    rcases threads.place with behind | ⟨instr, member, place⟩
    · simp only [nextInstr, tokens, cancelled, Bool.false_eq_true, if_false, code', size,
        ← threads.ip, if_pos behind]
      exact .error rfl ⟨same, rfl⟩
    · have fits := (spells_decode renumberable.full).fits member
      have found := fetchCode?_of_mem (spells_decode renumberable.full) member
      have found' := fetchCode?_renumber lawful.lowers renumberable.full member
      rw [place] at found found'
      rw [threads.ip, ← code'] at found'
      rw [nextInstr_of_fetchCode? found cancelled, nextInstr_of_fetchCode? found' tokens]
      refine .ok ⟨fetched_renumber fits, renumberable.jumps instr member,
        renumberable.constants instr member, renumberable.closures instr member⟩ ⟨?_, rfl⟩
      obtain ⟨cores, threads, heaps, worlds⟩ := same
      rw [← threads.ip, ← place]
      exact ⟨cores, threads.moveTo (atInstr_next renumberable.full member), heaps, worlds⟩

end Parts

end Merging

end Skiff
