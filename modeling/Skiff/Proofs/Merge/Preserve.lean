import Skiff.Proofs.Merge.Constants
import Skiff.Proofs.Merge.Run

/-!
# Merging constants keeps what programs do

A program and the one with merged constants, run with the same configuration on the same global
variables, come to the same end: the same error with the same trace, or the same variables and heap,
in which each function has been replaced by the one with the new numbers.
-/

namespace Skiff

open List Machine Array

/-- Values in which there is no function. -/
def Value.isFunctionFree : Value → Bool
  | .function _ => false
  | .error inner => inner.isFunctionFree
  | _ => true

/-- Heaps whose arrays, maps, cells and iterators hold no functions. -/
structure Heap.FunctionFree (heap : Heap) : Prop where
  arrays : ∀ items ∈ heap.arrays, ∀ value ∈ items, value.isFunctionFree
  maps : ∀ dict ∈ heap.maps, ∀ entry ∈ dict.entries, entry.2.isFunctionFree
  cells : ∀ value ∈ heap.cells, value.isFunctionFree
  iterators : ∀ iterator ∈ heap.iterators, ∀ current ∈ iterator.current,
    current.1.isFunctionFree ∧ current.2.isFunctionFree

/-- Programs whose constants can be merged: the main function and the functions among the constants
exist, are different, and have code that can be renumbered, and there are no other functions. -/
structure Program.Mergeable (program : Program) (heap : Heap) : Prop where
  main : program.main < heap.functions.size
  apart : .function program.main ∉ program.constants
  constants : ∀ value ∈ program.constants,
    value.isFunctionFree ∨ ∃ ref < heap.functions.size, value = .function ref
  mainCode : Renumberable program (heap.function program.main).code
  code : ∀ ref, .function ref ∈ program.constants → Renumberable program (heap.function ref).code
  heap : heap.FunctionFree

/-- Worlds in which nothing has been started. -/
structure World.Fresh (world : World) : Prop where
  channels : world.channels = #[]
  routines : world.routines = #[]
  tasks : world.tasks = #[]
  hosts : ∀ host ∈ world.hosts, host.Parametric

/-! ## Values without functions -/

section
variable {link : Link} (cells : ∀ ref, link.cell ref ref) (handles : ∀ value, link.handle value)
include cells handles

theorem valueRel_self {value : Value} (free : value.isFunctionFree) :
    ValueRel link value value := by
  induction value with
  | function ref => cases free
  | error inner ih => exact .error (ih free)
  | cell ref => exact .cell (cells ref)
  | builtin | host | method | iterator | routine | channel => exact .handle rfl (handles _)
  | _ => exact .data rfl

theorem itemsRel_self {values : Array Value} (free : ∀ value ∈ values, value.isFunctionFree) :
    ItemsRel link values values := by
  rw [ItemsRel, forall₂_same]
  exact fun value member => valueRel_self cells handles (free value (by simpa using member))

theorem Heap.FunctionFree.related {heap : Heap} (free : heap.FunctionFree)
    (self : link.cell = Eq) (functions : Array Function) :
    HeapRel link (fun _ _ => True) heap { heap with functions } where
  arrays := by
    rw [forall₂_same]
    exact fun items member =>
      itemsRel_self cells handles (free.arrays items (by simpa using member))
  maps := by
    rw [forall₂_same]
    intro dict member
    rw [DictRel, forall₂_same]
    exact fun entry inside => ⟨rfl, valueRel_self cells handles
      (free.maps dict (by simpa using member) entry (by simpa using inside))⟩
  iterators := by
    rw [forall₂_same]
    intro iterator member
    refine ⟨rfl, rfl, ?_⟩
    cases at_ : iterator.current with
    | none => exact .none
    | some current =>
      obtain ⟨key, value⟩ := free.iterators iterator (by simpa using member) current at_
      exact .some (valueRel_self cells handles key) (valueRel_self cells handles value)
  methods := rfl
  cell {ref ref'} same := by
    rw [self] at same
    subst same
    show ValueRel link (heap.cells.getD ref .undefined) (heap.cells.getD ref .undefined)
    exact forall₂_getD (itemsRel_self cells handles free.cells) ref .undefined
  reach _ := rfl
  core := trivial

end

/-! ## The program and what becomes of it -/

namespace Program

def merging (program : Program) (heap : Heap) : Merging where
  before := program
  after := (program.merge heap).1
  places := program.merged.places
  renewed ref ref' := ∃ index, program.renewedRefs[index]? = some ref ∧
    ref' = heap.functions.size + index
  first := heap.functions.size
  added := program.renewedRefs.length

variable {program : Program} {heap : Heap}

namespace Mergeable

variable (mergeable : program.Mergeable heap)
include mergeable

theorem renewed_lt : ∀ ref ∈ program.renewedRefs, ref < heap.functions.size := by
  intro ref member
  rcases mem_constants_of_renewed member with rfl | function
  · exact mergeable.main
  · rcases mergeable.constants _ function with free | ⟨other, inside, same⟩
    · cases free
    · cases same
      exact inside

theorem nodup_renewedRefs : program.renewedRefs.Nodup := by
  refine nodup_append.2 ⟨nodup_functionRefs ?_, by simp, ?_⟩
  · intro ref place other here there
    rw [getElem?_toList] at here there
    exact program.tracks.function_unique here there
  · rintro ref member _ main rfl
    obtain rfl := mem_singleton.1 main
    have here := mem_functionRefs.1 member
    exact mergeable.apart (by simpa using program.tracks.member _ (by simpa using here))

theorem lawful : (program.merging heap).Lawful where
  lowers := program.tracks.lowers
  unique := by
    rintro a _ b _ ⟨index, here, rfl⟩ ⟨other, there, rfl⟩
    constructor
    · rintro rfl
      obtain ⟨inside, at_⟩ := List.getElem?_eq_some_iff.1 here
      rw [(List.getElem?_inj inside mergeable.nodup_renewedRefs).1 (here.trans there.symm)]
    · intro same
      obtain rfl : index = other := by omega
      exact Option.some.inj (here.symm.trans there)
  old := by
    rintro ref _ ⟨index, here, rfl⟩
    exact mergeable.renewed_lt ref (List.mem_of_getElem? here)
  new := by
    rintro ref _ ⟨index, here, rfl⟩
    have inside := (List.getElem?_eq_some_iff.1 here).1
    exact ⟨Nat.le_add_right .., Nat.add_lt_add_left inside _⟩
  main := by
    refine ⟨_, getElem?_concat_length, ?_⟩
    show (program.merge heap).1.main = _
    rw [merge_eq mergeable.renewed_lt]
  files := by
    show program.files = (program.merge heap).1.files
    rw [merge_eq mergeable.renewed_lt]
  constants {stock} first {index value} here := by
    change program.constants[index]? = some value at here
    have inside : index < program.merged.places.size := by
      rw [program.tracks.size, length_toList]
      exact (Array.getElem?_eq_some_iff.1 here).1
    obtain ⟨_, other, was, kept⟩ := program.tracks.place (getElem?_eq_getElem inside)
    rw [getElem?_toList, here] at was
    cases was
    have place : program.merged.places.getD index index = program.merged.places[index] := by
      simp [inside]
    have constants : (program.merging heap).after.constants
        = (renewAll program.merged.constants.toList heap.functions.size).toArray := by
      show (program.merge heap).1.constants = _
      rw [merge_eq mergeable.renewed_lt]
    rw [constants]
    dsimp only [merging]
    rw [place, getElem?_toArray]
    rw [← getElem?_toList] at kept
    by_cases plain : ∀ ref, value ≠ .function ref
    · refine ⟨value, getElem?_renewAll_plain _ kept plain, valueRel_self (fun _ => rfl)
        (fun _ => trivial) ?_⟩
      rcases mergeable.constants value (mem_of_getElem? here) with free | ⟨ref, _, function⟩
      · exact free
      · exact absurd function (plain ref)
    · obtain ⟨ref, rfl⟩ : ∃ ref, value = .function ref := by simpa using plain
      obtain ⟨k, refs, renewed⟩ := getElem?_renewAll_function heap.functions.size kept
      have listed : program.renewedRefs[k]? = some ref := by
        rw [renewedRefs, List.getElem?_append_left (List.getElem?_eq_some_iff.1 refs).1, refs]
      have old := mergeable.renewed_lt ref (List.mem_of_getElem? listed)
      exact ⟨_, renewed, .function ⟨.inl ⟨k, listed, rfl⟩, Nat.lt_of_lt_of_le old first⟩⟩

/-- The functions of both heaps. -/
theorem stocked : (program.merging heap).StockRel
    ⟨heap.functions, (program.merge heap).2.functions⟩ where
  first := le_rfl
  size := by
    rw [merge_eq mergeable.renewed_lt]
    simp [Heap.addFunctions, merging]
  functions {ref ref'} same := by
    obtain ⟨⟨index, here, rfl⟩ | ⟨late, _⟩, below⟩ := same
    · refine ⟨?_, ?_⟩
      · rw [merge_eq mergeable.renewed_lt]
        simp [Stock.function, Stock.function', Heap.addFunctions, Heap.function, merging,
          Array.getD_eq_getD_getElem?, Array.getElem?_append_right, here]
      · rcases mem_constants_of_renewed (List.mem_of_getElem? here) with rfl | function
        · exact mergeable.mainCode
        · exact mergeable.code ref function
    · exact absurd below (Nat.not_lt.2 late)

/-- The machines that programs are loaded into. -/
theorem loaded (config : Config) {globals : Array Value}
    (plain : ∀ value ∈ globals, value.isFunctionFree) {world : World} (fresh : world.Fresh) :
    ((program.merging heap).frames ⟨heap.functions, (program.merge heap).2.functions⟩).state
      (.load program config globals heap world)
      (.load (program.merge heap).1 config globals (program.merge heap).2 world) := by
  have cells (ref : Nat) : ((program.merging heap).link
      ⟨heap.functions, (program.merge heap).2.functions⟩).cell ref ref := rfl
  have main : (program.merging heap).function ⟨heap.functions, (program.merge heap).2.functions⟩
      program.main (program.merge heap).1.main := ⟨.inl mergeable.lawful.main, mergeable.main⟩
  have same : (program.merge heap).2
      = { heap with functions := (program.merge heap).2.functions } := by
    rw [merge_eq mergeable.renewed_lt]
    rfl
  refine Merging.freshBudget ⟨?_, ?_, ?_, ?_⟩
  · exact { mergeable.stocked with
      before := rfl
      after := rfl
      cells := by rw [same]; rfl }
  · exact {
      program := rfl
      program' := rfl
      config := rfl
      stack := forall₂_replicate _ .undefined
      sp := rfl
      globals := forall₂_append (itemsRel_self cells (fun _ => trivial) plain)
        (forall₂_replicate _ .undefined)
      frames := .nil
      last := by rintro _ ⟨⟩
      function := main
      code := rfl
      code' := rfl
      place := atInstr_zero mergeable.mainCode.full
      ip := rfl
      base := rfl
      budget := rfl
      token := rfl
      draws := rfl }
  · dsimp only
    rw [same]
    exact mergeable.heap.related cells (fun _ => trivial) rfl _
  · have nothing {α : Type} {rel : α → α → Prop} {items : Array α} (none : items = #[]) :
        Forall₂ rel items.toList items.toList := by
      rw [none]
      exact .nil
    exact ⟨rfl, nothing fresh.channels, nothing fresh.routines, rfl, nothing fresh.tasks, rfl, rfl,
      rfl, fresh.hosts⟩

end Mergeable

end Program

/-! ## What a run keeps -/

/-- Machines that hold the same, up to the names of functions, and whose functions differ in the
numbers of constants only. -/
structure Renames (rename : Nat → Nat → Prop) (places : Array Nat) (machine machine' : Machine) :
    Prop where
  unique {a a' b b' : Nat} : rename a a' → rename b b' → (a = b ↔ a' = b')
  functions {ref ref' : Nat} : rename ref ref' →
    machine'.heap.function ref' = (machine.heap.function ref).renumber places
  globals : ItemsRel (.renaming rename) machine.thread.globals machine'.thread.globals
  heap : HeapRel (.renaming rename) (fun _ _ => True) machine.heap machine'.heap
  transcript : machine.world.transcript = machine'.world.transcript

theorem Merging.renames {merging : Merging} (lawful : merging.Lawful) {stock : Stock}
    {machine machine' : Machine} (same : (merging.frames stock).state machine machine') :
    Renames (merging.function stock) merging.places machine machine' where
  unique := function_iff lawful
  functions refs := by
    rw [function_eq same, function_eq' same, (same.core.functions refs).renumbered]
  globals := same.thread.globals
  heap := same.heap
  transcript := same.world.transcript

/-- Merging constants changes neither what a run comes to nor, up to the names of functions, what it
leaves behind; and constants are the same after merging if and only if they were before. -/
theorem run_merge {program merged : Program} {heap made : Heap}
    (merges : program.merge heap = (merged, made)) (mergeable : program.Mergeable heap)
    (config : Config) {globals : Array Value} (plain : ∀ value ∈ globals, value.isFunctionFree)
    {world : World} (fresh : world.Fresh) (fuel : Nat) :
    let before := (Machine.load program config globals heap world).run fuel
    let after := (Machine.load merged config globals made world).run fuel
    before.1 = after.1 ∧
      (∃ rename, Renames rename program.merged.places before.2 after.2 ∧
        ∀ index value, program.constants[index]? = some value →
          ∃ value', merged.constants[program.merged.places.getD index index]? = some value' ∧
            ValueRel (.renaming rename) value value') ∧
      ∀ index other, index < program.constants.size → other < program.constants.size →
        (program.constants[index]? = program.constants[other]? ↔
          merged.constants[program.merged.places.getD index index]?
            = merged.constants[program.merged.places.getD other other]?) := by
  have lawful := mergeable.lawful
  have loaded := mergeable.loaded config plain fresh
  obtain rfl : (program.merge heap).1 = merged := congrArg Prod.fst merges
  obtain rfl : (program.merge heap).2 = made := congrArg Prod.snd merges
  obtain ⟨answers, later, more, states⟩ := Merging.runWith lawful loaded fuel
    (Machine.load program config globals heap world).thread.token
  have constants {index : Nat} {value : Value} (found : program.constants[index]? = some value) :
      ∃ value', (program.merge heap).1.constants[program.merged.places.getD index index]?
        = some value' ∧ ValueRel ((program.merging heap).link later) value value' :=
    lawful.constants more.size found
  intro before after
  have left : before = (Machine.load program config globals heap world).runWith fuel
      (Machine.load program config globals heap world).thread.token := rfl
  have right : after = (Machine.load (program.merge heap).1 config globals (program.merge heap).2
      world).runWith fuel (Machine.load program config globals heap world).thread.token := by
    rw [loaded.thread.token]
    rfl
  rw [left, right]
  refine ⟨answers, ⟨_, Merging.renames lawful states, fun index value => constants⟩,
    fun index other inside inside' => ?_⟩
  obtain ⟨value, found, values⟩ := constants (getElem?_eq_getElem inside)
  obtain ⟨value', found', values'⟩ := constants (getElem?_eq_getElem inside')
  rw [found, found', Array.getElem?_eq_getElem inside, Array.getElem?_eq_getElem inside',
    Option.some.injEq, Option.some.injEq]
  exact values.eq_iff (Merging.link_faithful lawful) values'

/-! ## Two programs -/

/-- A program that puts a number and a function, each of which it has twice, into variables. -/
def twiceProgram : Program where
  main := 0
  constants := #[.int 7, .int 7, .function 1, .function 1]

def twiceHeap : Heap where
  functions := #[
    { code := ⟨#[0, 1, 0, 49, 0, 0, 0, 2, 0, 49, 1, 0, 114, 3, 0, 0, 49, 2, 0, 255]⟩ },
    { code := ⟨#[0, 0, 0, 113, 1]⟩ }]

theorem decode_twiceHeap :
    (decode (twiceHeap.function 0).code).toList
        = [⟨0, .const, [1]⟩, ⟨3, .setGlobal, [0]⟩, ⟨6, .const, [2]⟩, ⟨9, .setGlobal, [1]⟩,
          ⟨12, .closure, [3, 0]⟩, ⟨16, .setGlobal, [2]⟩, ⟨19, .suspend, []⟩] ∧
      (decode (twiceHeap.function 1).code).toList = [⟨0, .const, [0]⟩, ⟨3, .ret, [1]⟩] := by
  decide +kernel

theorem twiceProgram_mergeable : twiceProgram.Mergeable twiceHeap := by
  obtain ⟨main, function⟩ := decode_twiceHeap
  have mainCode : Renumberable twiceProgram (twiceHeap.function 0).code := by
    refine ⟨?_, ?_, ?_, ?_⟩
    · rw [DecodesFully, ← foldl_toList, main]
      rfl
    all_goals
      rw [main]
      simp [Opcode.isJump, PlacedInstr.fetched, twiceProgram]
  have functionCode : Renumberable twiceProgram (twiceHeap.function 1).code := by
    refine ⟨?_, ?_, ?_, ?_⟩
    · rw [DecodesFully, ← foldl_toList, function]
      rfl
    all_goals
      rw [function]
      simp [Opcode.isJump, PlacedInstr.fetched, twiceProgram]
  refine ⟨by decide, by simp [twiceProgram], ?_, mainCode, ?_, ?_⟩
  · simp [twiceProgram, twiceHeap, Value.isFunctionFree]
  · simpa [twiceProgram] using functionCode
  · constructor <;> simp [twiceHeap]

theorem run_merge_twiceProgram :
    twiceProgram.Mergeable twiceHeap ∧
      ((load twiceProgram {} #[] twiceHeap {}).run 1).1
        = ((load (twiceProgram.merge twiceHeap).1 {} #[] (twiceProgram.merge twiceHeap).2
          {}).run 1).1 ∧
      (twiceProgram.merge twiceHeap).1.constants[twiceProgram.merged.places.getD 2 2]?
        = (twiceProgram.merge twiceHeap).1.constants[twiceProgram.merged.places.getD 3 3]? := by
  have fresh : World.Fresh {} := ⟨rfl, rfl, rfl, by simp⟩
  obtain ⟨answers, _, same⟩ :=
    run_merge rfl twiceProgram_mergeable {}
      (by simp : ∀ value ∈ #[], Value.isFunctionFree value) fresh 1
  exact ⟨twiceProgram_mergeable, answers, (same 2 3 (by decide) (by decide)).1 rfl⟩

/-- A program that makes a function of a text, which is its third constant and its second one after
merging. -/
def noFunctionProgram : Program where
  main := 0
  constants := #[.int 7, .int 7, .string "x"]

def noFunctionHeap : Heap where
  functions := #[{ code := ⟨#[114, 2, 0, 0, 255]⟩ }]

/-- A program that jumps to the operand of the instruction behind the jump. -/
def strayProgram : Program where
  main := 0
  constants := #[.int 7, .int 7]

def strayHeap : Heap where
  functions := #[{ code := ⟨#[32, 6, 0, 0, 0, 0, 1, 0, 1, 1]⟩ }]

theorem merged_noFunctionProgram :
    noFunctionProgram.merged.places = #[0, 0, 1] ∧
      noFunctionProgram.merged.constants = #[.int 7, .string "x"] := by
  simp [Program.merged, noFunctionProgram, Merged.add, Merged.addNew, MergeKey.ofValue?]

theorem merged_strayProgram :
    strayProgram.merged.places = #[0, 0] ∧ strayProgram.merged.constants = #[.int 7] := by
  simp [Program.merged, strayProgram, Merged.add, Merged.addNew, MergeKey.ofValue?]

/-- The main function of a program without other functions after merging. -/
theorem merge_eq_of_plain {program : Program} {heap : Heap} {places : Array Nat}
    {constants : Array Value} (merged : program.merged.places = places ∧
      program.merged.constants = constants) (plain : functionRefs constants.toList = [])
    (main : program.main < heap.functions.size) :
    program.merge heap
      = ({ program with
          main := heap.functions.size
          constants := (renewAll constants.toList heap.functions.size).toArray },
        heap.addFunctions [(heap.function program.main).renumber places]) := by
  obtain ⟨rfl, rfl⟩ := merged
  have refs : program.renewedRefs = [program.main] := by
    rw [Program.renewedRefs, plain, nil_append]
  rw [Program.merge_eq (by simpa [refs] using main), refs, plain]
  rfl

/-- A closure of something that is no function fails with the number of its constant, and a jump
into an operand reads that number as an instruction, so both change with the numbers. -/
theorem merge_changes_run :
    (DecodesFully (noFunctionHeap.function 0).code ∧
      ((load noFunctionProgram {} #[] noFunctionHeap {}).run 1).1
        = some (.error { error := .functionConstant 2, trace := [] }) ∧
      ((load (noFunctionProgram.merge noFunctionHeap).1 {} #[]
          (noFunctionProgram.merge noFunctionHeap).2 {}).run 1).1
        = some (.error { error := .functionConstant 1, trace := [] })) ∧
    DecodesFully (strayHeap.function 0).code ∧
      ((load strayProgram { stackSize := 4 } #[] strayHeap {}).run 1).1
        = some (.error { error := .constantIndex 257, trace := [] }) ∧
      ((load (strayProgram.merge strayHeap).1 { stackSize := 4 } #[]
          (strayProgram.merge strayHeap).2 {}).run 1).1
        = some (.error { error := .constantIndex 256, trace := [] }) := by
  have closure : renumber #[0, 0, 1] (noFunctionHeap.function 0).code
      = ⟨#[114, 1, 0, 0, 255]⟩ := by
    decide +kernel
  have jump : renumber #[0, 0] (strayHeap.function 0).code
      = ⟨#[32, 6, 0, 0, 0, 0, 0, 0, 1, 1]⟩ := by
    decide +kernel
  refine ⟨⟨by decide +kernel, rfl, ?_⟩, by decide +kernel, rfl, ?_⟩
  · rw [merge_eq_of_plain merged_noFunctionProgram rfl (by decide), Function.renumber,
      show noFunctionProgram.main = 0 from rfl, closure]
    rfl
  · rw [merge_eq_of_plain merged_strayProgram rfl (by decide), Function.renumber,
      show strayProgram.main = 0 from rfl, jump]
    rfl

end Skiff
