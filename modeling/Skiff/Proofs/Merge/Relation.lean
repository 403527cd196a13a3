import Skiff.Proofs.Machine.Concurrent
import Skiff.Proofs.Merge.Renumber

/-!
# Machines before and after merging

The functions of a program whose constants have been merged stand beside those that they were made
from. Functions that are made later get numbers of their own in both machines, at a fixed distance.
Which functions there are is part of what two machines agree in, since every value refers to one of
them, and a frame to a place in the code of one.
-/

namespace Skiff

/-- Functions are renamed, and everything else stays. -/
def Link.renaming (function : Nat → Nat → Prop) : Link where
  function
  cell := Eq
  handle _ := True

/-- The function with the numbers of the constants in its code replaced. -/
def Function.renumber (places : Array Nat) (function : Function) : Function :=
  { function with code := Skiff.renumber places function.code }

/-- Code whose constants can be renumbered: whole instructions that name constants of the program,
make functions of functions, and go to instructions or behind the end. -/
structure Renumberable (program : Program) (code : ByteArray) : Prop where
  full : DecodesFully code
  jumps : ∀ instr ∈ (decode code).toList, instr.op.isJump = true → AtInstr code instr.fetched.first
  constants : ∀ instr ∈ (decode code).toList, instr.op = .const →
    instr.fetched.first < program.constants.size
  closures : ∀ instr ∈ (decode code).toList, instr.op = .closure →
    ∃ ref, program.constants[instr.fetched.first]? = some (.function ref)

/-- A program before and after merging. -/
structure Merging where
  before : Program
  after : Program
  /-- The new numbers of the constants. -/
  places : Array Nat
  /-- The functions that have been made anew, and what they were made from. -/
  renewed : Nat → Nat → Prop
  /-- How many functions there were at first, and how many were added. -/
  first : Nat
  added : Nat

/-- The functions of two machines. -/
structure Stock where
  functions : Array Function
  functions' : Array Function

namespace Stock

def function (stock : Stock) (ref : Nat) : Function := stock.functions.getD ref default

def function' (stock : Stock) (ref : Nat) : Function := stock.functions'.getD ref default

/-- Nothing is lost when functions are added. -/
structure Within (stock later : Stock) : Prop where
  size : stock.functions.size ≤ later.functions.size
  size' : stock.functions'.size ≤ later.functions'.size
  function {ref : Nat} : ref < stock.functions.size → later.function ref = stock.function ref
  function' {ref : Nat} : ref < stock.functions'.size → later.function' ref = stock.function' ref

theorem Within.refl (stock : Stock) : stock.Within stock :=
  ⟨le_rfl, le_rfl, fun _ => rfl, fun _ => rfl⟩

theorem Within.trans {stock later last : Stock} (first : stock.Within later)
    (second : later.Within last) : stock.Within last where
  size := Nat.le_trans first.size second.size
  size' := Nat.le_trans first.size' second.size'
  function below := by
    rw [second.function (Nat.lt_of_lt_of_le below first.size), first.function below]
  function' below := by
    rw [second.function' (Nat.lt_of_lt_of_le below first.size'), first.function' below]

/-- The functions with one more on each side. -/
def push (stock : Stock) (function function' : Function) : Stock :=
  ⟨stock.functions.push function, stock.functions'.push function'⟩

theorem within_push (stock : Stock) (function function' : Function) :
    stock.Within (stock.push function function') where
  size := by simp [push]
  size' := by simp [push]
  function below := by
    simp [push, Stock.function, Array.getD_eq_getD_getElem?, Array.getElem?_push_lt, below]
  function' below := by
    simp [push, Stock.function', Array.getD_eq_getD_getElem?, Array.getElem?_push_lt, below]

end Stock

namespace Merging

/-- Functions that correspond. -/
def function (merging : Merging) (stock : Stock) (ref ref' : Nat) : Prop :=
  (merging.renewed ref ref' ∨ merging.first ≤ ref ∧ ref' = ref + merging.added)
    ∧ ref < stock.functions.size

def link (merging : Merging) (stock : Stock) : Link := .renaming (merging.function stock)

/-- Functions that differ in the numbers of constants only. -/
structure FunctionRel (merging : Merging) (function function' : Function) : Prop where
  renumbered : function' = function.renumber merging.places
  renumberable : Renumberable merging.before function.code

structure StockRel (merging : Merging) (stock : Stock) : Prop where
  first : merging.first ≤ stock.functions.size
  size : stock.functions'.size = stock.functions.size + merging.added
  functions {ref ref' : Nat} : merging.function stock ref ref' →
    merging.FunctionRel (stock.function ref) (stock.function' ref')

structure CoreRel (merging : Merging) (stock : Stock) (heap heap' : Heap) : Prop
    extends merging.StockRel stock where
  before : heap.functions = stock.functions
  after : heap'.functions = stock.functions'
  cells : heap.cells.size = heap'.cells.size

structure FrameRel (merging : Merging) (stock : Stock) (frame frame' : Frame) : Prop where
  function : merging.function stock frame.function frame'.function
  place : AtInstr (stock.function frame.function).code frame.ip
  ip : frame.ip = frame'.ip
  base : frame.base = frame'.base
  discard : frame.discard = frame'.discard

structure ThreadRel (merging : Merging) (stock : Stock) (thread thread' : Thread) : Prop where
  program : thread.program = merging.before
  program' : thread'.program = merging.after
  config : thread.config = thread'.config
  stack : ItemsRel (merging.link stock) thread.stack thread'.stack
  sp : thread.sp = thread'.sp
  globals : ItemsRel (merging.link stock) thread.globals thread'.globals
  frames : List.Forall₂ (merging.FrameRel stock) thread.frames.toList thread'.frames.toList
  last {frame : Frame} : thread.frames.back? = some frame → frame.function = thread.function
  function : merging.function stock thread.function thread'.function
  code : thread.code = (stock.function thread.function).code
  code' : thread'.code = (stock.function' thread'.function).code
  place : AtInstr thread.code thread.ip
  ip : thread.ip = thread'.ip
  base : thread.base = thread'.base
  budget : thread.budget = thread'.budget
  token : thread.token = thread'.token
  draws : thread.draws = thread'.draws

/-- Tasks that correspond. The threads of those that have ended do not matter. -/
structure TaskRel (merging : Merging) (stock : Stock) (task task' : Task) : Prop where
  routine : task.routine = task'.routine
  state : task.state = task'.state
  start : Option.Rel (fun start start' => ValueRel (merging.link stock) start.1 start'.1 ∧
    List.Forall₂ (ValueRel (merging.link stock)) start.2 start'.2) task.start task'.start
  thread : task.state ≠ .done → merging.ThreadRel stock task.thread task'.thread

def threads (merging : Merging) (stock : Stock) : ThreadLink where
  core := merging.CoreRel stock
  thread _ _ := merging.ThreadRel stock
  task _ _ := merging.TaskRel stock

def frames (merging : Merging) (stock : Stock) : Frames Machine Machine :=
  machineFrames (merging.link stock) (merging.threads stock)

def bond (merging : Merging) (stock : Stock) : Bond := (merging.link stock).bond

/-- Corresponding machines as a way to speak of computations. -/
def logic (merging : Merging) (stock : Stock) : Logic (merging.bond stock) :=
  (merging.threads stock).logic (merging.link stock)

/-- What merging does to a program and its functions. -/
structure Lawful (merging : Merging) : Prop where
  lowers : Lowers merging.places
  unique {a a' b b' : Nat} : merging.renewed a a' → merging.renewed b b' → (a = b ↔ a' = b')
  old {ref ref' : Nat} : merging.renewed ref ref' → ref < merging.first
  new {ref ref' : Nat} : merging.renewed ref ref' →
    merging.first ≤ ref' ∧ ref' < merging.first + merging.added
  main : merging.renewed merging.before.main merging.after.main
  files : merging.before.files = merging.after.files
  constants {stock : Stock} (first : merging.first ≤ stock.functions.size) {index : Nat}
    {value : Value} : merging.before.constants[index]? = some value →
    ∃ value', merging.after.constants[merging.places.getD index index]? = some value' ∧
      ValueRel (merging.link stock) value value'

section
variable {merging : Merging} {stock : Stock}

theorem function_iff (lawful : merging.Lawful) {a a' b b' : Nat}
    (left : merging.function stock a a') (right : merging.function stock b b') :
    a = b ↔ a' = b' := by
  obtain ⟨renewed | ⟨late, rfl⟩, _⟩ := left
  · obtain ⟨renewed' | ⟨late, rfl⟩, _⟩ := right
    · exact lawful.unique renewed renewed'
    · have := lawful.old renewed
      have := lawful.new renewed
      omega
  · obtain ⟨renewed' | ⟨late, rfl⟩, _⟩ := right
    · have := lawful.old renewed'
      have := lawful.new renewed'
      omega
    · omega

theorem function_lt (lawful : merging.Lawful) (stocked : merging.StockRel stock) {ref ref' : Nat}
    (same : merging.function stock ref ref') : ref' < stock.functions'.size := by
  rw [stocked.size]
  obtain ⟨renewed | ⟨_, rfl⟩, below⟩ := same
  · have := lawful.new renewed
    have := stocked.first
    omega
  · omega

theorem CoreRel.function {heap heap' : Heap} (cores : merging.CoreRel stock heap heap')
    (ref : Nat) : heap.function ref = stock.function ref := by
  rw [Heap.function, cores.before, Stock.function]

theorem CoreRel.function' {heap heap' : Heap} (cores : merging.CoreRel stock heap heap')
    (ref : Nat) : heap'.function ref = stock.function' ref := by
  rw [Heap.function, cores.after, Stock.function']

theorem link_faithful (lawful : merging.Lawful) : (merging.link stock).Faithful where
  function := function_iff lawful
  cell := by rintro a _ b _ rfl rfl; rfl
  iterator _ := trivial
  routineMethod _ _ := trivial
  channelMethod _ _ := trivial

end

/-! ## More functions -/

section
variable {merging : Merging} {stock later : Stock}

theorem link_within (more : stock.Within later) :
    (merging.link stock).Within (merging.link later) where
  function same := ⟨same.1, Nat.lt_of_lt_of_le same.2 more.size⟩
  cell := rfl
  handle := id

theorem FrameRel.mono (more : stock.Within later) {frame frame' : Frame}
    (same : merging.FrameRel stock frame frame') : merging.FrameRel later frame frame' :=
  { same with
    function := (link_within more).function same.function
    place := by rw [more.function same.function.2]; exact same.place }

variable (lawful : merging.Lawful) (stocked : merging.StockRel stock) (more : stock.Within later)
include lawful stocked more

theorem ThreadRel.mono {thread thread' : Thread} (same : merging.ThreadRel stock thread thread') :
    merging.ThreadRel later thread thread' :=
  { same with
    stack := same.stack.imp fun _ _ => .mono (link_within more)
    globals := same.globals.imp fun _ _ => .mono (link_within more)
    frames := same.frames.imp fun _ _ => .mono more
    function := (link_within more).function same.function
    code := by rw [more.function same.function.2]; exact same.code
    code' := by rw [more.function' (function_lt lawful stocked same.function)]; exact same.code' }

theorem TaskRel.mono {task task' : Task} (same : merging.TaskRel stock task task') :
    merging.TaskRel later task task' where
  routine := same.routine
  state := same.state
  start := by
    have starts := same.start
    generalize task.start = start, task'.start = start' at starts
    cases starts with
    | none => exact .none
    | some both =>
      exact .some ⟨both.1.mono (link_within more), both.2.imp fun _ _ => .mono (link_within more)⟩
  thread active := (same.thread active).mono lawful stocked more

end

end Merging

end Skiff
