import Skiff.Proofs.Machine.Stack

/-!
# Arguments on the stack

A call finds on the stack what is called, the arguments by position, the map of those that are given
by name, and a map that is spread over these. It takes them from the stack one after the other, and
leaves what is below.
-/

namespace Skiff

open List Array

/-- The values on the stack of a thread, the oldest first. What lies above is not said. -/
structure Thread.Holds (thread : Thread) (values : List Value) : Prop where
  height : thread.sp = values.length
  stack : values <+: thread.stack.toList

/-- Threads that differ in what is on their stacks. -/
def Thread.Beside (thread other : Thread) : Prop :=
  other = { thread with stack := other.stack, sp := other.sp } ∧
    other.stack.size = thread.stack.size

theorem Thread.Beside.change {thread other next : Thread} (beside : thread.Beside other)
    (same : next = { other with stack := next.stack, sp := next.sp })
    (size : next.stack.size = other.stack.size) : thread.Beside next := by
  refine ⟨?_, size.trans beside.2⟩
  rw [same, beside.1]

section
variable {values more : List Value} {stack : Array Value} {value : Value}

theorem prefix_set {slot : Nat} (below : values <+: stack.toList) (above : values.length ≤ slot)
    (value : Value) : values <+: (stack.setIfInBounds slot value).toList := by
  obtain ⟨rest, same⟩ := below
  rw [toList_setIfInBounds, ← same, set_append_right _ _ above]
  exact prefix_append ..

theorem prefix_clearSlots (below : values <+: stack.toList) (high : Nat) :
    values <+: (Thread.clearSlots stack values.length high).toList := by
  have general (slots : List Nat) (above : ∀ slot ∈ slots, values.length ≤ slot)
      {stack : Array Value} (below : values <+: stack.toList) :
      values <+: (slots.foldl (fun stack slot => stack.setIfInBounds slot .undefined)
        stack).toList := by
    induction slots generalizing stack with
    | nil => exact below
    | cons slot slots ih =>
      exact ih (fun slot member => above slot (mem_cons_of_mem _ member))
        (prefix_set below (above slot (mem_cons_self ..)) .undefined)
  exact general _ (fun slot member => (mem_range'_1.1 member).1) below

namespace Thread.Holds

variable {thread : Thread}

theorem push (holds : thread.Holds values) (room : values.length < thread.stack.size)
    (value : Value) : (thread.push value).Holds (values ++ [value]) := by
  refine ⟨by simp [Thread.push, holds.height], ?_⟩
  obtain ⟨above, same⟩ := holds.stack
  cases above with
  | nil =>
    rw [← length_toList, ← same, append_nil] at room
    exact absurd room (Nat.lt_irrefl _)
  | cons old above =>
    refine ⟨above, ?_⟩
    simp [Thread.push, holds.height, toList_setIfInBounds, ← same]

section
variable (holds : thread.Holds (values ++ more))
include holds

theorem below : values <+: thread.stack.toList :=
  (prefix_append ..).trans holds.stack

theorem cut : (thread.cut values.length).Holds values :=
  ⟨rfl, prefix_clearSlots holds.below _⟩

theorem drop : (thread.drop values.length).Holds values :=
  ⟨rfl, prefix_set holds.below le_rfl .undefined⟩

theorem extract : thread.stack.extract values.length thread.sp = more.toArray := by
  obtain ⟨above, same⟩ := holds.stack
  rw [← toList_inj, toList_extract, extract_eq_take_drop, ← drop_take, holds.height,
    ← same, take_left' rfl, drop_left' rfl]

end

theorem getD (holds : thread.Holds (values ++ value :: more)) :
    thread.stack.getD values.length .undefined = value := by
  obtain ⟨above, same⟩ := holds.stack
  rw [getD_eq_getD_getElem?, ← getElem?_toList, ← same]
  simp

end Thread.Holds

end

/-! ## What computations do with the stack -/

namespace Exec

variable {α β : Type} {origin : Machine} {before mid after : List Value} {value : Value}

/-- From machines that differ from a given one in what is on the stack, a computation does what
another one does once other values are there. -/
def Becomes (origin : Machine) (before : List Value) (action rest : Exec α) (after : List Value) :
    Prop :=
  ∀ thread, origin.thread.Beside thread → thread.Holds before →
    ∃ thread', origin.thread.Beside thread' ∧ thread'.Holds after ∧
      action ⟨thread, origin.heap, origin.world⟩ = rest ⟨thread', origin.heap, origin.world⟩

theorem Becomes.refl (action : Exec α) : Becomes origin before action action before :=
  fun thread beside holds => ⟨thread, beside, holds, rfl⟩

theorem Becomes.bind {action rest : Exec α} {next : α → Exec β} {last : Exec β}
    (first : Becomes origin before action rest mid)
    (second : Becomes origin mid (rest >>= next) last after) :
    Becomes origin before (action >>= next) last after := by
  intro thread beside holds
  obtain ⟨thread', beside', held, run⟩ := first thread beside holds
  have same : (action >>= next) ⟨thread, origin.heap, origin.world⟩
      = (rest >>= next) ⟨thread', origin.heap, origin.world⟩ := by
    simp only [Bind.bind, EStateM.bind, run]
  rw [same]
  exact second thread' beside' held

theorem becomes_push (room : before.length < origin.thread.stack.size) (value : Value) :
    Becomes origin before (push value) (pure ()) (before ++ [value]) := by
  intro thread beside holds
  have room : before.length < thread.stack.size := beside.2 ▸ room
  refine ⟨thread.push value, beside.change rfl (size_setIfInBounds ..), holds.push room value, ?_⟩
  exact if_pos (Nat.lt_of_le_of_lt holds.height.le room)

theorem becomes_pop : Becomes origin (before ++ [value]) pop (pure value) before := by
  intro thread beside holds
  refine ⟨thread.drop before.length, beside.change rfl (size_setIfInBounds ..), holds.drop, ?_⟩
  have height : thread.sp = before.length + 1 := by
    rw [holds.height, length_append, length_singleton]
  simp only [pop, height, Machine.mapThread, holds.getD]
  rfl

theorem becomes_popMany (values : List Value) :
    Becomes origin (before ++ values) (popMany values.length) (pure values.toArray) before := by
  intro thread beside holds
  refine ⟨thread.cut before.length, beside.change rfl (size_clearSlots ..), holds.cut, ?_⟩
  have height : thread.sp = before.length + values.length := by rw [holds.height, length_append]
  have slots := holds.extract
  rw [height] at slots
  simp only [popMany, height, Machine.mapThread, Nat.add_sub_cancel, slots]
  exact if_neg (by omega)

/-- The elements of an array that is spread over the arguments by position. -/
def spreadItems (heap : Heap) : Value → Except RuntimeError (List Value)
  | .array ref | .immutableArray ref => .ok (heap.array ref).toList
  | other => .error (.ofArgument "spread" "array" other)

/-- The entries of a map that is spread over the arguments by name, if there is one. -/
def spreadEntries (heap : Heap) : Option Value → Except RuntimeError (Dict Value)
  | none => .ok .empty
  | some (.map ref) | some (.immutableMap ref) => .ok (heap.map ref)
  | some other => .error (.ofArgument "kwargs" "map" other)

/-- The arguments by position, the last of which may stand for its elements. -/
def positional (heap : Heap) (spread : Bool) (args : List Value) :
    Except RuntimeError (List Value) :=
  if spread then (args.dropLast ++ ·) <$> spreadItems heap (args.getLastD .undefined) else .ok args

/-- What a function is given: the arguments by position, and the entries of a map with the explicit
ones over them. -/
def handed (heap : Heap) (spread : Bool) (args : List Value) (explicit : Dict Value)
    (last : Option Value) : Except RuntimeError (List Value × Dict Value) := do
  let entries ← spreadEntries heap last
  let items ← positional heap spread args
  return (items, entries.insertAll explicit.entries.toList)

section Flags
variable {flags flag : Nat} {spread : Bool} {args : List Value}

end Flags

end Exec

end Skiff
