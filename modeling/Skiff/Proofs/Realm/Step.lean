import Skiff.Proofs.Code.Bytes
import Skiff.Proofs.Machine.Alone
import Skiff.Proofs.Machine.Instructions
import Skiff.Proofs.Machine.Stack
import Skiff.Proofs.Realm.World

/-!
# Instructions inside of a realm

Whatever the byte code is: when all that a machine holds may occur, then all that it holds after an
instruction may occur.
-/

namespace Skiff

open List Array Exec Nat

/-- A realm in which cells may be met, and functions be made without any condition. -/
structure Realm.Free (realm : Realm) : Prop extends realm.Lawful where
  shownCells : realm.shownCells
  newFunctions : realm.newFunctions
  table (functions : Array Function) : realm.table functions

/-- A frame of a function that may occur. -/
structure Frame.Inside (realm : Realm) (frame : Frame) : Prop where
  function : realm.function frame.function
  base : realm.count frame.base

/-- A thread that holds what may occur. -/
structure Thread.Inside (realm : Realm) (thread : Thread) : Prop where
  stack {value : Value} : value ∈ thread.stack → value.Inside realm
  globals {value : Value} : value ∈ thread.globals → value.Inside realm
  constants {value : Value} : value ∈ thread.program.constants → value.Inside realm
  frames {frame : Frame} : frame ∈ thread.frames → frame.Inside realm
  function : realm.function thread.function
  main : realm.function thread.program.main
  slots : realm.count thread.stack.size
  room : realm.count thread.config.stackSize
  sp : realm.count thread.sp
  base : realm.count thread.base

/-- A thread that waits for what may occur. -/
def TaskState.Inside (realm : Realm) : TaskState → Prop
  | .waiting on _ => on.Inside realm
  | .ready | .done => True

/-- A call of what may occur. -/
structure CallInside (realm : Realm) (callee : Value) (args : List Value) : Prop where
  known : callee.Inside realm
  others : ∀ arg ∈ args, arg.Inside realm
  few : realm.count args.length

/-- A task that holds, waits for and calls what may occur. -/
structure Task.Inside (realm : Realm) (task : Task) : Prop where
  thread : task.thread.Inside realm
  state : task.state.Inside realm
  start {callee : Value} {args : List Value} : task.start = some (callee, args) →
    CallInside realm callee args

/-- A machine that holds what may occur. -/
structure Machine.Inside (realm : Realm) (machine : Machine) : Prop where
  thread : machine.thread.Inside realm
  heap : machine.heap.Inside realm
  world : machine.world.Inside realm (Task.Inside realm)

/-! ## Threads -/

theorem mem_clearSlots {stack : Array Value} {low high : Nat} {value : Value}
    (member : value ∈ Thread.clearSlots stack low high) : value ∈ stack ∨ value = .undefined := by
  unfold Thread.clearSlots at member
  generalize List.range' low (high - low) = slots at member
  induction slots generalizing stack with
  | nil => exact .inl member
  | cons slot rest ih =>
    rcases ih member with before | undefined
    · exact mem_or_eq_of_mem_setIfInBounds before
    · exact .inr undefined

variable {α : Type} {items : Array α} {item : α} {args : List Value} {callee : Value}
  {instr : Fetched}

theorem mem_modify {place : Nat} {change : α → α} (member : item ∈ items.modify place change) :
    item ∈ items ∨ ∃ old ∈ items, item = change old := by
  obtain ⟨index, found⟩ := Array.mem_iff_getElem?.1 member
  rw [Array.getElem?_modify] at found
  split at found
  · obtain ⟨old, here, rfl⟩ := Option.map_eq_some_iff.1 found
    exact .inr ⟨old, mem_of_getElem? here, rfl⟩
  · exact .inl (mem_of_getElem? found)

theorem mem_pop (member : item ∈ items.pop) : item ∈ items := by
  rw [mem_def, toList_pop] at member
  exact mem_def.2 (mem_of_mem_dropLast member)

theorem mem_extract {start stop : Nat} (member : item ∈ (items.extract start stop).toList) :
    item ∈ items.toList := by
  rw [toList_extract, extract_eq_take_drop] at member
  exact mem_of_mem_drop (mem_of_mem_take member)

variable {realm : Realm} {thread : Thread} {value : Value}

theorem inside_getD {values : Array Value} (inside : ∀ {value}, value ∈ values → value.Inside realm)
    (index : Nat) : (values.getD index .undefined).Inside realm := by
  rw [getD_eq_getD_getElem?]
  cases found : values[index]? with
  | none => trivial
  | some value => exact inside (mem_of_getElem? found)

namespace Thread.Inside

section
variable (inside : thread.Inside realm)
include inside

theorem setSlot (slot : Nat) (known : value.Inside realm) :
    (thread.setSlot slot value).Inside realm := by
  refine { inside with stack := ?_, slots := ?_ }
  · intro other member
    rcases mem_or_eq_of_mem_setIfInBounds member with old | rfl
    · exact inside.stack old
    · exact known
  · show realm.count (thread.stack.setIfInBounds slot value).size
    rw [size_setIfInBounds]
    exact inside.slots

/-- A frame that is changed runs the same function from the same place of the stack. -/
theorem callers {place : Nat} {change : Frame → Frame} {frame : Frame}
    (member : frame ∈ thread.frames.modify place change)
    (same : ∀ frame, (change frame).function = frame.function ∧ (change frame).base = frame.base) :
    frame.Inside realm := by
  rcases mem_modify member with old | ⟨caller, old, rfl⟩
  · exact inside.frames old
  · exact ⟨(same caller).1 ▸ (inside.frames old).function,
      (same caller).2 ▸ (inside.frames old).base⟩

/-- Slots become undefined, and the stack ends somewhere else. -/
theorem clear (low high : Nat) {sp : Nat} (few : realm.count sp) :
    Thread.Inside realm { thread with stack := Thread.clearSlots thread.stack low high, sp } := by
  refine { inside with stack := ?_, slots := ?_, sp := few }
  · intro other member
    rcases mem_clearSlots member with old | rfl
    · exact inside.stack old
    · trivial
  · show realm.count (Thread.clearSlots thread.stack low high).size
    rw [size_clearSlots]
    exact inside.slots

theorem setGlobal (index : Nat) (known : value.Inside realm) :
    (thread.setGlobal index value).Inside realm := by
  refine { inside with globals := ?_ }
  intro other member
  rcases mem_or_eq_of_mem_setIfInBounds member with old | rfl
  · split at old
    · exact inside.globals old
    · rcases mem_append.1 old with old | new
      · exact inside.globals old
      · rw [(mem_replicate.1 new).2]
        trivial
  · exact known

/-- Tasks that a thread spawns hold what may occur. -/
theorem spawned (lawful : realm.Lawful) (call : CallInside realm callee args) (heap : Heap)
    (token routine : Nat) : (spawnedTask thread heap token routine callee args).Inside realm := by
  refine ⟨?_, trivial, ?_⟩
  · exact {
      stack := by
        intro value member
        rw [(mem_replicate.1 member).2]
        trivial
      globals := inside.globals
      constants := inside.constants
      frames := fun member => absurd member (not_mem_empty _)
      function := inside.main
      main := inside.main
      slots := by
        show realm.count (Array.replicate thread.config.stackSize Value.undefined).size
        rw [Array.size_replicate]
        exact inside.room
      room := inside.room
      sp := lawful.count (Nat.two_pow_pos 64)
      base := lawful.count (Nat.two_pow_pos 64) }
  · intro callee args same
    cases same
    exact call

end

end Thread.Inside

/-! ## Computations -/

namespace Exec

variable {α : Type} {good : α → Prop}

/-- A computation that leaves the machine inside of a realm. -/
abbrev InsideKeeps (realm : Realm) (good : α → Prop) (action : Exec α) : Prop :=
  Keeps (Machine.Inside realm) (RuntimeError.Inside realm) good action

theorem inside_modifyThread {change : Thread → Thread}
    (keeps : ∀ thread, thread.Inside realm → (change thread).Inside realm) :
    InsideKeeps realm (fun _ => True) (modifyThread change) :=
  fun _ inside => .ok trivial ⟨keeps _ inside.thread, inside.heap, inside.world⟩

theorem inside_modifyWorld {change : World → World}
    (keeps : ∀ {world able}, World.Inside realm able world → (change world).Inside realm able) :
    InsideKeeps realm (fun _ => True) (modifyWorld change) :=
  fun _ inside => .ok trivial ⟨inside.thread, inside.heap, keeps inside.world⟩

theorem inside_charge (count : Nat) : InsideKeeps realm (fun _ => True) (charge count) := by
  refine Keeps.bind (inside_modifyWorld fun inside => inside.congr rfl rfl rfl rfl) ?_
  intro _ _
  apply Keeps.get_bind
  intro machine inside
  cases machine.thread.budget with
  | none => exact .ok trivial inside
  | some id =>
    -- What is left of the budget changes, whether there was enough or not.
    have drawn : Machine.Inside realm ⟨machine.thread, machine.heap, { machine.world with
        budgets := machine.world.budgets.setIfInBounds id
          ((machine.world.budgets.getD id default).charge count).2 }⟩ :=
      ⟨inside.thread, inside.heap, inside.world.congr rfl rfl rfl rfl⟩
    simp only [modifyGet, MonadStateOf.modifyGet, EStateM.modifyGet, Bind.bind, EStateM.bind]
    split
    · exact .error trivial drawn
    · exact .ok trivial drawn

theorem inside_callHost (known : ∀ arg ∈ args, arg.Inside realm) {named : Dict Value}
    (names : named.Inside realm) (ref : Nat) :
    InsideKeeps realm (Value.Inside realm) (callHost ref args named) := by
  rintro ⟨thread, heap, world⟩ ⟨kept, inside, around⟩
  simp only [callHost]
  cases found : world.hosts[ref]? with
  | none => exact .error trivial ⟨kept, inside, around⟩
  | some host =>
    have result := around.hosts (mem_of_getElem? found) known names (heap, world.transcript) inside
    dsimp only
    generalize host.run args named (heap, world.transcript) = result at result
    cases result with
    | ok holds next => exact .ok holds ⟨kept, next, around.congr rfl rfl rfl rfl⟩
    | error holds next => exact .error holds.1 ⟨kept, next, around.congr rfl rfl rfl rfl⟩

section
variable (lawful : realm.Lawful)
include lawful

theorem inside_spawn (call : CallInside realm callee args) :
    InsideKeeps realm (Value.Inside realm) (spawn callee args) := by
  unfold spawn
  cases callee.isCallable with
  | false => exact .throw (ordinary_ofArgument _ (by decide)).1
  | true =>
    rintro ⟨thread, heap, world⟩ ⟨kept, inside, around⟩
    exact .ok (around.freshRoutine (le_refl _))
      ⟨kept, inside, around.spawn (kept.spawned lawful call heap _ _) _ _⟩

/-! ## The stack -/

theorem inside_push (known : value.Inside realm) :
    InsideKeeps realm (fun _ => True) (push value) := by
  intro machine inside
  unfold push
  split
  · rename_i room
    refine .ok trivial ⟨?_, inside.heap, inside.world⟩
    exact { inside.thread.setSlot machine.thread.sp known with
      sp := lawful.fewer room inside.thread.slots }
  · exact .error trivial inside

theorem inside_pop : InsideKeeps realm (Value.Inside realm) pop := by
  intro machine inside
  unfold pop
  split
  · exact .error trivial inside
  · rename_i sp top
    refine .ok (inside_getD inside.thread.stack sp) ⟨?_, inside.heap, inside.world⟩
    have undefined : Value.undefined.Inside realm := trivial
    have fewer : realm.count sp := lawful.fewer (by omega) inside.thread.sp
    exact { inside.thread.setSlot sp undefined with sp := fewer }

omit lawful in
theorem inside_top : InsideKeeps realm (Value.Inside realm) top := by
  intro machine inside
  unfold top
  split
  · exact .error trivial inside
  · rename_i sp top
    exact .ok (inside_getD inside.thread.stack sp) inside

theorem inside_popMany (count : Nat) :
    InsideKeeps realm (fun values => (∀ value ∈ values.toList, value.Inside realm) ∧
      realm.count values.toList.length) (popMany count) := by
  intro machine inside
  unfold popMany
  split
  · exact .error trivial inside
  · refine .ok ⟨?_, ?_⟩ ⟨?_, inside.heap, inside.world⟩
    · intro value member
      exact inside.thread.stack (mem_def.2 (mem_extract member))
    · apply lawful.fewer _ inside.thread.sp
      simp only [length_toList, size_extract]
      omega
    · exact inside.thread.clear _ _ (lawful.fewer (sub_le _ _) inside.thread.sp)

omit lawful in
theorem inside_clearFrom {slot : Nat} (few : realm.count slot) :
    InsideKeeps realm (fun _ => True) (clearFrom slot) :=
  inside_modifyThread fun _ inside => inside.clear _ _ few

variable {index : Nat}

omit lawful in
theorem inside_constant (small : realm.count index) :
    InsideKeeps realm (Value.Inside realm) (constant index) := by
  apply Keeps.get_bind
  intro machine inside
  cases found : machine.thread.program.constants[index]? with
  | none => exact .error small inside
  | some value => exact .ok (inside.thread.constants (mem_of_getElem? found)) inside

end

end Exec

/-! ## What may occur alone -/

namespace Realm

/-- Machines that are the same and hold what may occur. -/
def frames (realm : Realm) : Frames Machine Machine where
  state machine machine' := machine = machine' ∧ machine.Inside realm
  failure e e' := e = e' ∧ e.Inside realm
  limit _ := False

/-- They are a way to speak of computations. -/
def logic (realm : Realm) : Logic realm.bond :=
  realm.frames.logic realm.bond (fun inside => ⟨rfl, inside⟩) (by
    rintro machine _ ⟨rfl, inside⟩
    exact ⟨heapRel_refl machine.heap trivial, inside.heap⟩)

section
variable {α : Type} {good : α → Prop} {rel : α → α → Prop} {action : Exec α}

theorem holds_of_keeps (keeps : InsideKeeps realm good action)
    (implied : ∀ value, good value → rel value value) : realm.logic.holds rel action action := by
  rintro machine _ ⟨rfl, inside⟩
  have result := keeps machine inside
  generalize action machine = result at result
  cases result with
  | ok holds kept => exact .ok (implied _ holds) ⟨rfl, kept⟩
  | error holds kept => exact .error ⟨rfl, holds⟩ ⟨rfl, kept⟩

theorem keeps_of_holds (holds : realm.logic.holds rel action action) :
    InsideKeeps realm (fun value => rel value value) action := by
  intro machine inside
  have result := holds machine machine ⟨rfl, inside⟩
  generalize action machine = result at result
  cases result with
  | ok same states => exact .ok same states.2
  | error failures states => exact .error failures.2 states.2
  | limit reached => exact reached.elim

end

variable {channel : Channel}

theorem channelRel_refl (inside : ∀ value ∈ channel.values, value.Inside realm) :
    ChannelRel realm.bond.Values channel channel where
  capacity := rfl
  buffer := sames fun value member => inside value (mem_append_left _ member)
  offers := forall₂_same.2 fun offer member => ⟨rfl, values (inside offer.2
    (mem_append_right _ (mem_map_of_mem member)))⟩
  tickets := rfl
  closed := rfl

theorem inside_of_channelRel {channel' : Channel}
    (same : ChannelRel realm.bond.Values channel channel') :
    ∀ value ∈ channel.values, value.Inside realm := by
  obtain rfl := eq_of_channelRel same
  intro value member
  rcases mem_append.1 member with buffered | offered
  · exact Bond.inside_all same.buffer value buffered
  · obtain ⟨offer, here, rfl⟩ := mem_map.1 offered
    exact (forall₂_same.1 same.offers offer here).2.inside

theorem native (lawful : realm.Lawful) : realm.logic.Native where
  faithful := Link.same_faithful
  lawful
  known _ := trivial
  clock := by rintro machine _ ⟨rfl, -⟩; rfl
  maxReserve := by rintro machine _ ⟨rfl, -⟩; rfl
  draws := by rintro machine _ ⟨rfl, -⟩; rfl
  setDraws _ := holds_of_keeps (inside_modifyThread fun _ inside => { inside with })
    fun _ _ => trivial
  onHeap {_ _ _ action action'} sim := by
    rintro ⟨thread, heap, world⟩ _ ⟨rfl, kept, inside, around⟩
    have heaps : realm.bond.Heaps (HeapRel.Still heap heap) heap heap :=
      ⟨heapRel_refl heap ⟨rfl, rfl⟩, inside⟩
    have results := sim heap heap heaps
    unfold onHeap
    dsimp only
    generalize action heap = left, action' heap = right at results
    cases results with
    | ok same states =>
      cases eq_of_heapRel states.same
      exact .ok same ⟨rfl, kept, states.inside, around⟩
    | error failures states =>
      cases eq_of_heapRel states.same
      exact .error ⟨failures.1, failures.2.1⟩ ⟨rfl, kept, states.inside, around⟩
    | limit reached => exact reached.elim
  charge count := holds_of_keeps (inside_charge count) fun _ _ => trivial
  isCancelled := Sim.bind .get (by rintro machine _ ⟨rfl, -⟩; exact .pure rfl)
  cancel token := holds_of_keeps
    (inside_modifyWorld fun inside => inside.congr rfl rfl rfl rfl) fun _ _ => trivial
  channel seen := Sim.bind .get (by
    rintro machine _ ⟨rfl, inside⟩
    exact .pure (channelRel_refl (inside.world.channels seen)))
  setChannel ref channel channel' same := by
    cases eq_of_channelRel same
    exact holds_of_keeps (inside_modifyWorld fun inside =>
      inside.setChannel fun _ => inside_of_channelRel same) fun _ _ => trivial
  newChannel capacity := by
    rintro machine _ ⟨rfl, inside⟩
    exact .ok (values (inside.world.freshChannel (le_refl _)))
      ⟨rfl, inside.thread, inside.heap, inside.world.newChannel capacity⟩
  routine ref := Sim.bind .get (by
    rintro machine _ ⟨rfl, inside⟩
    exact .pure ⟨routineRel_refl _, inside.world.routines⟩)
  spawn callees sames := by
    cases eq_of_values callees
    cases eq_of_forall₂ eq_of_values sames.sames
    exact holds_of_keeps (inside_spawn lawful
      ⟨callees.inside, Bond.inside_all sames.sames, sames.few⟩) fun _ => values
  callHost ref _ _ _ _ sames names := by
    cases eq_of_forall₂ eq_of_values sames.sames
    cases eq_of_dictRel names.same
    exact holds_of_keeps (inside_callHost (Bond.inside_all sames.sames) names.inside ref)
      fun _ => values

theorem stack (free : realm.Free) : realm.logic.Stack where
  toNative := native free.toLawful
  shownCells := free.shownCells
  sp := by rintro machine _ ⟨rfl, inside⟩; exact ⟨rfl, inside.thread.sp⟩
  stack := by
    rintro machine _ ⟨rfl, inside⟩
    exact sames fun _ member => inside.thread.stack (mem_def.2 member)
  push same := by
    cases eq_of_values same
    exact holds_of_keeps (inside_push free.toLawful same.inside) fun _ _ => trivial
  pop := holds_of_keeps (inside_pop free.toLawful) fun _ => values
  popMany count := holds_of_keeps (inside_popMany free.toLawful count) fun _ both =>
    args both.1 both.2
  localSlot index := Sim.bind .get (by
    rintro machine _ ⟨rfl, -⟩
    dsimp only
    split
    · exact .pure rfl
    · exact .throw ⟨rfl, trivial⟩)
  setSlot index _ _ same := by
    cases eq_of_values same
    exact holds_of_keeps (inside_modifyThread fun _ inside => inside.setSlot index same.inside)
      fun _ _ => trivial
  global index := Sim.bind .get (by
    rintro machine _ ⟨rfl, inside⟩
    exact .pure (values (inside_getD inside.thread.globals index)))
  setGlobal index _ _ same := by
    cases eq_of_values same
    exact holds_of_keeps (inside_modifyThread fun _ inside => inside.setGlobal index same.inside)
      fun _ _ => trivial
  freeCell {index} small := Sim.bind .get (by
    rintro machine _ ⟨rfl, inside⟩
    cases found : (machine.heap.function machine.thread.function).free[index]? with
    | none => exact .throw ⟨rfl, small⟩
    | some cell =>
      have free := (inside.heap.functions inside.thread.function).free
      exact .pure ⟨rfl, free cell (mem_of_getElem? found)⟩)
  newCell same := by
    cases eq_of_values same
    rintro machine _ ⟨rfl, inside⟩
    obtain ⟨seen, kept⟩ := inside.heap.newCell same.inside
    exact .ok ⟨rfl, seen⟩ ⟨rfl, inside.thread, kept, inside.world⟩
  setCell cells same := by
    cases cells
    cases eq_of_values same
    rintro machine _ ⟨rfl, inside⟩
    exact .ok trivial ⟨rfl, inside.thread, inside.heap.setCell _ same.inside, inside.world⟩

end Realm

namespace Exec

section
variable (free : realm.Free)
include free

/-! ## Calls -/

theorem inside_reserveLocals (base locals : Nat) :
    InsideKeeps realm (fun _ => True) (reserveLocals base locals) := by
  intro machine inside
  unfold reserveLocals
  dsimp only
  split
  · exact .error trivial inside
  · rename_i room
    refine .ok trivial ⟨?_, inside.heap, inside.world⟩
    exact inside.thread.clear _ _ (free.fewer (Nat.le_of_not_lt room) inside.thread.slots)

theorem inside_repeatFrame (function : Function) (count : Nat) (discard : Bool) :
    InsideKeeps realm (fun _ => True) (repeatFrame function count discard) := by
  apply Keeps.get_bind
  intro machine inside
  apply Kept.bind (inside_popMany free.toLawful count machine inside)
  intro args known
  apply Keeps.bind (inside_clearFrom inside.thread.base)
  intro _ _
  apply Keeps.bind (Realm.keeps_of_holds
    (realm.logic.forM_array (Realm.sames known.1) (Realm.stack free).push))
  intro _ _
  apply Keeps.bind (inside_reserveLocals free _ _)
  intro _ _
  apply inside_modifyThread
  intro thread inside
  refine { inside with frames := ?_ }
  intro frame member
  dsimp only at member
  exact inside.callers member fun _ => ⟨rfl, rfl⟩

variable {ref : Nat}

theorem inside_pushFrame (seen : realm.function ref) (function : Function) (count : Nat) :
    InsideKeeps realm (fun _ => True) (pushFrame ref function count) := by
  apply Keeps.get_bind
  intro machine inside
  dsimp only
  split
  · exact .error trivial inside
  have base : realm.count (machine.thread.sp - count) :=
    free.fewer (sub_le _ _) inside.thread.sp
  apply Kept.bind (inside_reserveLocals free _ _ machine inside)
  intro _ _
  apply inside_modifyThread
  intro thread inside
  refine { inside with frames := ?_, function := seen, base }
  intro frame member
  rcases mem_push.1 member with outer | rfl
  · exact inside.callers outer fun _ => ⟨rfl, rfl⟩
  · exact ⟨seen, base⟩

theorem inside_enter {count : Nat} (seen : realm.function ref) (given : realm.count count)
    (allowTail : Bool) : InsideKeeps realm (fun _ => True) (enter ref count allowTail) := by
  apply Keeps.get_bind
  intro machine inside
  apply Kept.bind
    (Realm.keeps_of_holds ((Realm.stack free).packArgs _ (inside.heap.functions seen).params given)
    machine inside)
  intro count _
  apply Keeps.read_bind
  intro machine inside
  dsimp only
  split
  · cases tailPosition? machine.thread.code machine.thread.ip with
    | none => exact inside_pushFrame free seen _ count
    | some discard => exact inside_repeatFrame free _ count discard
  · exact inside_pushFrame free seen _ count

omit free in
theorem inside_restoreFrame : InsideKeeps realm (fun _ => True) restoreFrame := by
  intro machine inside
  unfold restoreFrame
  split
  · exact .ok trivial inside
  · rename_i frame last
    have known := inside.thread.frames (mem_of_back? last)
    refine .ok trivial ⟨?_, inside.heap, inside.world⟩
    exact { inside.thread with function := known.function, base := known.base }

theorem inside_leave (depth : Nat) (known : value.Inside realm) :
    InsideKeeps realm (fun signal => realm.bond.Signals signal signal) (leave depth value) := by
  apply Keeps.get_bind
  intro machine inside
  cases last : machine.thread.frames.back? with
  | none => exact .error trivial inside
  | some frame =>
    have base := (inside.thread.frames (mem_of_back? last)).base
    have given : (if frame.discard then .undefined else value).Inside realm := by
      split
      · trivial
      · exact known
    have popped : InsideKeeps realm (fun _ => True)
        (modifyThread fun thread => { thread with frames := thread.frames.pop }) := by
      apply inside_modifyThread
      intro thread inside
      exact { inside with frames := fun member => inside.frames (mem_pop member) }
    apply Kept.bind (popped machine inside)
    intro _ _
    apply Keeps.bind (inside_clearFrom (free.fewer (sub_le _ _) base))
    intro _ _
    apply Keeps.get_bind
    intro machine inside
    apply Kept.bind (inside_restoreFrame machine inside)
    intro _ _
    split
    · exact .pure (.halt (Realm.values given))
    · apply Keeps.bind (inside_push free.toLawful given)
      intro _ _
      exact .pure .next

/-! ## Instructions -/

omit free in
/-- Operands take no more than four bytes. -/
theorem first_lt {code : ByteArray} {op : Opcode} {ip next : Nat}
    (found : fetchAt? code op ip = some (instr, next)) : instr.first < 256 ^ 4 := by
  have widths : ∀ width ∈ op.widths, width ≤ 4 := by cases op <;> decide
  have small {pos width : Nat} (member : width ∈ op.widths) : readNumber code pos width < 256 ^ 4 :=
    lt_of_lt_of_le (readNumber_lt code pos width)
      (Nat.pow_le_pow_right (by decide) (widths width member))
  unfold fetchAt? at found
  split at found
  · cases found
    exact Nat.pow_pos (by decide)
  · rename_i width shape
    split at found <;> cases found
    exact small (by simp [shape])
  · rename_i width other rest shape
    split at found <;> cases found
    exact small (by simp [shape])

theorem inside_fetch :
    InsideKeeps realm (fun instr => realm.count instr.first) fetch := by
  intro machine inside
  unfold fetch
  cases next : nextInstr machine with
  | error e =>
    refine .error ?_ inside
    unfold nextInstr at next
    dsimp only at next
    repeat' split at next
    all_goals cases next
    all_goals trivial
  | ok found =>
    obtain ⟨instr, ip⟩ := found
    have small : instr.first < 256 ^ 4 := by
      unfold nextInstr at next
      dsimp only at next
      repeat' split at next
      all_goals cases next
      exact first_lt ‹_›
    refine .ok (free.count (lt_trans small (by decide))) ⟨?_, inside.heap, inside.world⟩
    exact { inside.thread with }

end

end Exec

namespace Realm

variable (free : realm.Free)
include free

theorem calls : realm.logic.Calls where
  toStack := stack free
  enter allowTail functions few := by
    cases eq_of_values functions
    exact holds_of_keeps (inside_enter free functions.inside few allowTail) fun _ _ => trivial
  leave depth _ _ same := by
    cases eq_of_values same
    exact holds_of_keeps (inside_leave free depth same.inside) fun _ => id

/-- A function of a constant with captured cells. -/
theorem closure (depth : Nat) {first captured : Nat} (small : realm.count first) :
    realm.logic.holds realm.bond.Signals (Exec.execute depth ⟨.closure, first, captured⟩)
      (Exec.execute depth ⟨.closure, first, captured⟩) := by
  have other : (RuntimeError.functionConstant first).Inside realm := small
  have found : realm.logic.holds realm.bond.Values (constant first) (constant first) :=
    holds_of_keeps (inside_constant small) fun _ => values
  refine realm.logic.bind found fun {value value'} same => ?_
  cases eq_of_values same
  cases value with
  | function ref =>
    refine realm.logic.bind ((stack free).popMany captured) fun args => ?_
    refine realm.logic.bind ((stack free).captureAll args.sames) fun {cells cells'} seen => ?_
    obtain rfl : cells = cells' := toList_inj.1 (eq_of_forall₂ And.left seen)
    refine realm.logic.bind ((stack free).charge 1) fun _ => ?_
    have made : InsideKeeps realm (Value.Inside realm)
        (allocate fun heap => heap.newFunction { heap.function ref with free := cells }) := by
      intro machine inside
      have params := (inside.heap.functions same.inside).params
      have known : ∀ cell ∈ cells, realm.cell cell := fun cell member =>
        (forall₂_same.1 seen cell (mem_def.1 member)).2
      exact .ok (inside.heap.freshFunction free.newFunctions (le_refl _))
        ⟨inside.thread, inside.heap.newFunction ⟨known, params⟩ (free.table _), inside.world⟩
    exact realm.logic.bind (holds_of_keeps made fun _ => values) fun values =>
      Logic.andNext ((stack free).push values)
  | _ => exact realm.logic.throw_bind other

/-- Whatever the instruction is. -/
theorem execute (depth : Nat) (small : realm.count instr.first) :
    realm.logic.holds realm.bond.Signals (Exec.execute depth instr) (Exec.execute depth instr) := by
  by_cases jumps : instr.op.isJump = true
  · exact realm.logic.executeJump jumps (stack free).pop
      (holds_of_keeps inside_top fun _ => values)
      (holds_of_keeps (inside_modifyThread fun _ inside => { inside with }) fun _ _ => trivial)
  · by_cases takes : instr.op = .const
    · obtain ⟨op, first, second⟩ := instr
      subst takes
      exact realm.logic.bind (holds_of_keeps (inside_constant small) fun _ => values)
        fun values => Logic.andNext ((stack free).push values)
    · by_cases makes : instr.op = .closure
      · obtain ⟨op, first, second⟩ := instr
        subst makes
        exact closure free depth small
      · exact (calls free).execute depth small (by simpa using jumps) ⟨takes, makes⟩

theorem step (depth : Nat) :
    realm.logic.holds realm.bond.Signals (Exec.step depth) (Exec.step depth) := by
  have fetched : realm.logic.holds (fun instr instr' => instr = instr' ∧ realm.count instr.first)
      fetch fetch :=
    holds_of_keeps (inside_fetch free) fun _ small => ⟨rfl, small⟩
  refine realm.logic.bind fetched ?_
  rintro instr _ ⟨rfl, small⟩
  exact execute free depth small

end Realm

end Skiff
