import Skiff.Proofs.Machine.Stack
import Skiff.Proofs.Merge.Parts

/-!
# Calls before and after merging

Entering and leaving functions does the same to corresponding machines, since the opcodes behind a
call decide whether it takes the frame of its caller. Making a function adds one on each side.
-/

namespace Skiff

open Exec

namespace Merging

variable {ref : Nat} {function function' : Function}

section Calls
variable {merging : Merging} {stock : Stock}

/-- Going back to the function that has called. -/
theorem restoreFrame {thread thread' : Thread} {heap heap' : Heap} {world world' : World}
    (same : (merging.frames stock).state ⟨thread, heap, world⟩ ⟨thread', heap', world'⟩)
    (slot : Nat) :
    ResultRel (merging.frames stock) (fun _ _ => True)
      (Exec.restoreFrame ⟨{ thread with frames := thread.frames.pop }.cut slot, heap, world⟩)
      (Exec.restoreFrame ⟨{ thread' with frames := thread'.frames.pop }.cut slot, heap',
        world'⟩) := by
  obtain ⟨cores, threads, heaps, worlds⟩ := same
  have frames := forall₂_pop threads.frames
  have lasts := forall₂_back? frames
  unfold Exec.restoreFrame Thread.cut
  dsimp only at lasts frames ⊢
  generalize last : thread.frames.pop.back? = found at lasts ⊢
  generalize thread'.frames.pop.back? = found' at lasts ⊢
  cases lasts with
  | none =>
    refine .ok trivial ⟨cores, { threads.cut slot with frames, last := ?_ }, heaps, worlds⟩
    intro frame found
    cases last.symm.trans found
  | @some frame frame' both =>
    refine .ok trivial ⟨cores, { threads.cut slot with
      frames
      function := both.function
      last := ?_
      code := congrArg Function.code (cores.function frame.function)
      code' := congrArg Function.code (cores.function' frame'.function)
      place := ?_
      ip := both.ip
      base := both.base }, heaps, worlds⟩
    · intro other found
      cases last.symm.trans found
      rfl
    · have place := both.place
      rw [← cores.function] at place
      exact place

theorem reserveLocals (base locals : Nat) :
    Sim (merging.frames stock) (fun _ _ => True) (Exec.reserveLocals base locals)
      (Exec.reserveLocals base locals) := by
  intro machine machine' same
  unfold Exec.reserveLocals
  dsimp only
  rw [same.thread.sp, forall₂_size same.thread.stack]
  split
  · exact .error rfl same
  · exact modifyThread (fun _ threads => threads.grow _) _ _ same

theorem back?_modify {α : Type} (items : Array α) (change : α → α) :
    (items.modify (items.size - 1) change).back? = items.back?.map change := by
  simp [Array.back?, Array.getElem?_modify]

theorem repeatFrame (functions : merging.FunctionRel function function') (given : Nat)
    (discard : Bool) :
    Sim (merging.frames stock) (fun _ _ => True) (Exec.repeatFrame function given discard)
      (Exec.repeatFrame function' given discard) := by
  rw [functions.renumbered]
  refine Sim.bind .get fun {machine machine'} same => ?_
  dsimp only
  rw [same.thread.base]
  refine Sim.bind (popMany given) fun args => Sim.bind (clearFrom _) fun _ => ?_
  refine Sim.bind ((merging.logic stock).forM_array args.sames push) fun _ =>
    Sim.bind (reserveLocals _ _) fun _ => ?_
  refine modifyThread fun stocked threads => { threads with
    ip := rfl
    place := atInstr_zero ?_
    last := ?_
    frames := ?_ }
  · dsimp only
    rw [forall₂_size threads.frames]
    exact forall₂_modify_each threads.frames _ fun _ frames =>
      { frames with discard := by rw [frames.discard] }
  · intro frame found
    rw [back?_modify] at found
    obtain ⟨old, was, rfl⟩ := Option.map_eq_some_iff.1 found
    exact (threads.last was : old.function = _)
  · dsimp only
    rw [threads.code]
    exact (stocked.functions threads.function).renumberable.full

variable {ref' : Nat}

theorem pushFrame (refs : merging.function stock ref ref') (given : Nat) :
    Sim (merging.frames stock) (fun _ _ => True)
      (Exec.pushFrame ref (stock.function ref) given)
      (Exec.pushFrame ref' (stock.function' ref') given) := by
  refine Sim.bind .get fun {machine machine'} same => ?_
  have functions := same.core.functions refs
  dsimp only
  rw [same.thread.config, forall₂_size same.thread.frames, same.thread.sp, functions.renumbered]
  split
  · exact .throw_bind rfl
  · refine Sim.bind (reserveLocals _ _) fun _ => modifyThread fun stocked threads => ?_
    have full := (stocked.functions refs).renumberable.full
    refine { threads with
      frames := forall₂_push ?_ ⟨refs, atInstr_zero full, rfl, rfl, rfl⟩
      function := refs
      last := ?_
      code := rfl
      code' := by rw [functions.renumbered]
      place := atInstr_zero full
      ip := rfl
      base := rfl }
    · rw [forall₂_size threads.frames]
      refine forall₂_modify_each threads.frames _ fun {frame frame'} found frames =>
        { frames with place := ?_, ip := threads.ip }
      have last : frame.function = _ := threads.last (by
        rw [Array.back?, forall₂_size threads.frames]
        exact found)
      dsimp only
      rw [last, ← threads.code]
      exact threads.place
    · intro frame found
      rw [Array.back?_push] at found
      cases found
      rfl

/-- Entering a function. -/
theorem enter (lawful : merging.Lawful) (refs : merging.function stock ref ref') (given : Nat)
    (allowTail : Bool) :
    Sim (merging.frames stock) (fun _ _ => True) (Exec.enter ref given allowTail)
      (Exec.enter ref' given allowTail) := by
  refine Sim.bind .get fun {machine machine'} same => ?_
  have functions := same.core.functions refs
  have renumbered := functions.renumbered
  rw [function_eq same, function_eq' same]
  dsimp only
  rw [show (stock.function' ref').params = (stock.function ref).params by rw [renumbered]; rfl,
    show (stock.function' ref').variadic = (stock.function ref).variadic by rw [renumbered]; rfl]
  refine Sim.bind ((stack lawful).packArgs _ trivial trivial) ?_
  rintro given _ rfl
  refine Sim.bind .get fun {machine machine'} same => ?_
  have own : (ref == machine.thread.function) = (ref' == machine'.thread.function) := by
    rw [Bool.eq_iff_iff, beq_iff_eq, beq_iff_eq]
    exact function_iff lawful refs same.thread.function
  have running := same.core.functions same.thread.function
  have tail : tailPosition? machine'.thread.code machine'.thread.ip
      = tailPosition? machine.thread.code machine.thread.ip := by
    have place := same.thread.place
    rw [same.thread.code] at place ⊢
    rw [same.thread.code', running.renumbered, ← same.thread.ip]
    exact tailPosition?_renumber lawful.lowers running.renumberable.full place
  rw [own, tail]
  split
  · split
    · exact repeatFrame functions given _
    · exact pushFrame refs given
  · exact pushFrame refs given

theorem leaveFunction (depth : Nat) {value value' : Value}
    (values : (merging.bond stock).Values value value') :
    Sim (merging.frames stock) (merging.bond stock).Signals (Exec.leave depth value)
      (Exec.leave depth value') := by
  intro machine machine' same
  have lasts := forall₂_back? same.thread.frames
  have sizes := forall₂_size (forall₂_pop same.thread.frames)
  generalize last : machine.thread.frames.back? = found at lasts
  generalize last' : machine'.thread.frames.back? = found' at lasts
  cases lasts with
  | none =>
    rw [leave_none last, leave_none last']
    exact .error rfl same
  | @some frame frame' frames =>
    rw [leave_some last, leave_some last', frames.discard, frames.base, sizes]
    have returned : (merging.bond stock).Values
        (if frame'.discard then .undefined else value)
        (if frame'.discard then .undefined else value') := by
      split
      · exact Link.values .undefined
      · exact values
    refine (restoreFrame same (frame'.base - 1)).bind fun _ => ?_
    split
    · exact .pure (.halt returned)
    · exact Sim.bind (push returned) fun _ => .pure .next

/-- The laws for functions as well. -/
theorem calls (lawful : merging.Lawful) : (merging.logic stock).Calls where
  toStack := stack lawful
  enter {_ _ count} allowTail functions _ := by
    cases functions.same with
    | data kind | handle kind _ => exact absurd kind Bool.false_ne_true
    | function refs => exact enter lawful refs count allowTail
  leave depth _ _ values := leaveFunction depth values

end Calls

/-! ## More functions -/

section Growth
variable {merging : Merging} {stock : Stock} {α β : Type}

/-- A function more in both heaps. -/
theorem StockRel.push (lawful : merging.Lawful) (stocked : merging.StockRel stock)
    (functions : merging.FunctionRel function function') :
    merging.StockRel (stock.push function function') where
  first := Nat.le_trans stocked.first (stock.within_push function function').size
  size := by simp [Stock.push, stocked.size]; omega
  functions {ref ref'} same := by
    have below : ref < stock.functions.size + 1 := by simpa [Stock.push] using same.2
    rcases Nat.lt_succ_iff_lt_or_eq.1 below with inside | rfl
    · have before : merging.function stock ref ref' := ⟨same.1, inside⟩
      have within := stock.within_push function function'
      rw [within.function inside, within.function' (function_lt lawful stocked before)]
      exact stocked.functions before
    · rcases same.1 with renewed | ⟨_, rfl⟩
      · exact absurd (lawful.old renewed) (Nat.not_lt.2 stocked.first)
      · rw [← stocked.size]
        simpa [Stock.push, Stock.function, Stock.function', Array.getD_eq_getD_getElem?]
          using functions

/-- Computations that correspond, possibly with more functions afterwards. -/
def Grows (merging : Merging) (stock : Stock) (rel : Stock → α → α → Prop)
    (action action' : Exec α) : Prop :=
  ∀ machine machine', (merging.frames stock).state machine machine' →
    ∃ later, stock.Within later ∧
      ResultRel (merging.frames later) (rel later) (action machine) (action' machine')

namespace Grows

variable {rel : Stock → α → α → Prop} {rel' : Stock → β → β → Prop} {action action' : Exec α}

theorem of_sim (sim : Sim (merging.frames stock) (rel stock) action action') :
    merging.Grows stock rel action action' :=
  fun _ _ same => ⟨stock, .refl stock, sim _ _ same⟩

variable {next next' : α → Exec β}

theorem bind (first : merging.Grows stock rel action action')
    (then_ : ∀ {later result result'}, stock.Within later → rel later result result' →
      merging.Grows later rel' (next result) (next' result')) :
    merging.Grows stock rel' (action >>= next) (action' >>= next') := by
  intro machine machine' same
  obtain ⟨later, more, results⟩ := first _ _ same
  simp only [Bind.bind, EStateM.bind]
  generalize action machine = left, action' machine' = right at results
  cases results with
  | ok values states =>
    obtain ⟨last, further, results⟩ := then_ more values _ _ states
    exact ⟨last, more.trans further, results⟩
  | error failures states => exact ⟨later, more, .error failures states⟩
  | limit reached => exact reached.elim

/-- What keeps the functions as they are comes first. -/
theorem after {same : α → α → Prop} (first : Sim (merging.frames stock) same action action')
    (then_ : ∀ {result result'}, same result result' → merging.Grows stock rel' (next result)
    (next' result')) : merging.Grows stock rel' (action >>= next) (action' >>= next') := by
  intro machine machine' states
  have results := first _ _ states
  simp only [Bind.bind, EStateM.bind]
  generalize action machine = left, action' machine' = right at results
  cases results with
  | ok values states => exact then_ values _ _ states
  | error failures states => exact ⟨stock, .refl stock, .error failures states⟩
  | limit reached => exact reached.elim

end Grows

theorem newFunction (lawful : merging.Lawful) {make make' : Heap → Function}
    (functions : ∀ {heap heap'}, merging.CoreRel stock heap.core heap'.core →
      merging.FunctionRel (make heap) (make' heap')) :
    merging.Grows stock (fun later => (merging.bond later).Values)
      (allocate fun heap => heap.newFunction (make heap))
      (allocate fun heap => heap.newFunction (make' heap)) := by
  rintro ⟨thread, heap, world⟩ ⟨thread', heap', world'⟩ ⟨cores, threads, heaps, worlds⟩
  have before : heap.functions = stock.functions := cores.before
  have after : heap'.functions = stock.functions' := cores.after
  have pushed := cores.toStockRel.push lawful (functions cores)
  have more := stock.within_push (make heap) (make' heap')
  refine ⟨stock.push (make heap) (make' heap'), more, .ok ?_ ⟨?_, ?_, ?_, ?_⟩⟩
  · refine Link.values (.function ⟨.inr ⟨?_, ?_⟩, ?_⟩)
    · rw [before]
      exact cores.first
    · rw [before, after, cores.size]
    · simp [before, Stock.push]
  · exact { pushed with
      before := congrArg (·.push (make heap)) before
      after := congrArg (·.push (make' heap')) after
      cells := cores.cells }
  · exact threads.mono lawful cores.toStockRel more
  · exact { heaps.mono (link_within more) with core := trivial }
  · exact worlds.mono (link_within more) (.mono lawful cores.toStockRel more)

/-- A function of a constant with captured cells. -/
theorem closure (lawful : merging.Lawful) {depth : Nat} {index captured : Nat}
    (found : merging.before.constants[index]? = some (.function ref)) :
    merging.Grows stock (fun later => (merging.bond later).Signals)
      (Exec.execute depth ⟨.closure, index, captured⟩)
      (Exec.execute depth ⟨.closure, merging.places.getD index index, captured⟩) := by
  refine .after (constant lawful found) ?_
  rintro _ value' ⟨rfl, values⟩
  cases values.same with
  | data kind | handle kind _ => exact absurd kind Bool.false_ne_true
  | @function _ ref' refs =>
    refine .after (popMany captured) fun values => ?_
    refine .after ((stack lawful).captureAll values.sames) fun {free free'} cells => ?_
    obtain rfl : free = free' := Array.toList_inj.1
      (List.forall₂_eq_eq_eq ▸ cells.imp fun _ _ => And.left)
    refine .after ((stack lawful).charge 1) fun _ => ?_
    refine .bind (newFunction lawful fun {heap heap'} cores => ?_) fun _ made =>
      .after (push made) fun _ => .of_sim (.pure .next)
    have functions := cores.functions refs
    rw [show heap.function ref = _ from cores.function ref,
      show heap'.function ref' = _ from cores.function' ref']
    exact ⟨by rw [functions.renumbered]; rfl, functions.renumberable⟩

end Growth

end Merging

end Skiff
