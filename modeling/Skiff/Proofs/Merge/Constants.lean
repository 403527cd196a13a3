import Skiff.Proofs.Merge.Relation

/-!
# Merging constants

Merging keeps one constant of each kind that has a key, under the place of its first occurrence, and
makes the functions among them anew, in their order, with the main function behind them.
-/

namespace Skiff

open List Heap

/-! ## Places -/

variable {value : Value} {place : Nat} {constants : List Value} {heap : Heap}

/-- Constants with the same key are the same. -/
theorem MergeKey.eq_of_ofValue? {other : Value} {key : MergeKey}
    (left : MergeKey.ofValue? value = some key)
    (right : MergeKey.ofValue? other = some key) : value = other := by
  rw [← right] at left
  cases value with
  | function ref | int n | string text =>
    cases other <;> cases left
    rfl
  | float x =>
    cases other with
    | float y =>
      have bits : x.bits = y.bits := by simpa [MergeKey.ofValue?] using left
      exact congrArg Value.float (congrArg Double.mk bits)
    | _ => cases left
  | char c =>
    cases other with
    | char d =>
      have codes : c.val = d.val := by simpa [MergeKey.ofValue?] using left
      exact congrArg Value.char (Char.ext codes)
    | _ => cases left
  | _ =>
    rw [right] at left
    cases left

/-- What is known while constants are merged: where each one is found, and that a key leads to the
one constant that has it. -/
structure Merged.Tracks (merged : Merged) (constants : List Value) : Prop where
  size : merged.places.size = constants.length
  short : merged.constants.size ≤ constants.length
  place {index place : Nat} : merged.places[index]? = some place →
    place ≤ index ∧ ∃ value, constants[index]? = some value ∧ merged.constants[place]? = some value
  known {key : MergeKey} {place : Nat} : merged.known[key]? = some place ↔
    ∃ value, merged.constants[place]? = some value ∧ MergeKey.ofValue? value = some key
  member : ∀ value ∈ merged.constants, value ∈ constants

namespace Merged.Tracks

variable {merged : Merged} {constants : List Value}

theorem start : Merged.Tracks {} [] where
  size := rfl
  short := le_rfl
  place := by simp
  known := by simp
  member := by simp

/-- A place that is added. -/
theorem place_push (tracks : merged.Tracks constants) {new : Array Value}
    (low : place ≤ constants.length) (found : new[place]? = some value)
    (kept : ∀ {place : Nat} {value : Value}, merged.constants[place]? = some value →
      new[place]? = some value)
    {index at_ : Nat} (here : (merged.places.push place)[index]? = some at_) :
    at_ ≤ index ∧ ∃ item, (constants ++ [value])[index]? = some item ∧ new[at_]? = some item := by
  rw [Array.getElem?_push, tracks.size] at here
  split at here
  · rename_i last
    subst last
    cases here
    exact ⟨low, value, by simp, found⟩
  · obtain ⟨low, item, was, found⟩ := tracks.place here
    exact ⟨low, item, List.getElem?_append_left (List.getElem?_eq_some_iff.1 was).1
      ▸ was, kept found⟩

theorem addNew (tracks : merged.Tracks constants) {known : Std.HashMap MergeKey Nat}
    (knows : ∀ {key place}, known[key]? = some place ↔ ∃ item,
      (merged.constants.push value)[place]? = some item ∧ MergeKey.ofValue? item = some key) :
    ({ merged with known }.addNew value).Tracks (constants ++ [value]) where
  size := by simp [Merged.addNew, tracks.size]
  short := by simpa [Merged.addNew] using tracks.short
  place := tracks.place_push tracks.short (by simp [Merged.addNew]) (by
    intro place value found
    obtain ⟨inside, rfl⟩ := Array.getElem?_eq_some_iff.1 found
    simp [Merged.addNew, Array.getElem?_push_lt, inside])
  known := knows
  member item here := by
    rcases Array.mem_push.1 here with old | rfl
    · exact mem_append_left _ (tracks.member item old)
    · simp

/-- A constant more is found by no key but its own. -/
theorem exists_push_iff {constants : Array Value} {key : MergeKey}
    (other : MergeKey.ofValue? value ≠ some key) :
    (∃ item, (constants.push value)[place]? = some item ∧ MergeKey.ofValue? item = some key) ↔
      ∃ item, constants[place]? = some item ∧ MergeKey.ofValue? item = some key := by
  refine exists_congr fun item => and_congr_left fun keyed => ?_
  rw [Array.getElem?_push]
  split
  · rename_i last
    subst last
    simp only [Option.some.injEq, Array.getElem?_size, reduceCtorEq, iff_false]
    rintro rfl
    exact other keyed
  · rfl

theorem add (tracks : merged.Tracks constants) (value : Value) :
    (merged.add value).Tracks (constants ++ [value]) := by
  unfold Merged.add
  cases keyed : MergeKey.ofValue? value with
  | none =>
    refine tracks.addNew fun {key place} => ?_
    rw [tracks.known, exists_push_iff (by simp [keyed])]
  | some key =>
    dsimp only
    cases seen : merged.known[key]? with
    | some place =>
      obtain ⟨item, found, same⟩ := tracks.known.1 seen
      obtain rfl := MergeKey.eq_of_ofValue? keyed same
      have inside := (Array.getElem?_eq_some_iff.1 found).1
      have short := tracks.short
      exact {
        size := by simp [tracks.size]
        short := by simp; omega
        place := tracks.place_push (by omega) found id
        known := tracks.known
        member := fun item here => mem_append_left _ (tracks.member item here) }
    | none =>
      refine tracks.addNew fun {other place} => ?_
      rw [Std.HashMap.getElem?_insert]
      by_cases same : key = other
      · subst same
        rw [if_pos (by simp), Array.getElem?_push]
        constructor
        · rintro ⟨⟩
          exact ⟨value, by simp, keyed⟩
        · rintro ⟨item, found, key⟩
          split at found
          · rename_i last
            rw [last]
          · have known := tracks.known.2 ⟨item, found, key⟩
            rw [seen] at known
            cases known
      · rw [if_neg (by simpa using same), tracks.known,
          exists_push_iff (by simpa [keyed] using same)]

/-- All constants of a program. -/
theorem ofAll (constants : Array Value) :
    (constants.foldl Merged.add {}).Tracks constants.toList := by
  have general {merged : Merged} {done : List Value} (tracks : merged.Tracks done)
      (rest : List Value) : (rest.foldl Merged.add merged).Tracks (done ++ rest) := by
    induction rest generalizing merged done with
    | nil => simpa using tracks
    | cons value rest ih => simpa using ih (tracks.add value)
  rw [← Array.foldl_toList]
  exact general start constants.toList

theorem lowers (tracks : merged.Tracks constants) : Lowers merged.places :=
  fun found => (tracks.place found).1

/-- A function is kept once. -/
theorem function_unique (tracks : merged.Tracks constants) {ref other : Nat}
    (here : merged.constants[place]? = some (.function ref))
    (there : merged.constants[other]? = some (.function ref)) : place = other := by
  have first := tracks.known.2 ⟨_, here, rfl⟩
  have second := tracks.known.2 ⟨_, there, rfl⟩
  exact Option.some.inj (first.symm.trans second)

end Merged.Tracks

/-! ## Functions -/

/-- The functions among constants. -/
def functionRefs (constants : List Value) : List Nat :=
  constants.filterMap fun
    | .function ref => some ref
    | _ => none

/-- The constants with their functions numbered anew. -/
def renewAll : List Value → Nat → List Value
  | [], _ => []
  | .function _ :: rest, next => .function next :: renewAll rest (next + 1)
  | value :: rest, next => value :: renewAll rest next

/-- A heap with functions behind those that it has. -/
def Heap.addFunctions (heap : Heap) (functions : List Function) : Heap :=
  { heap with functions := heap.functions ++ functions.toArray }

variable {ref : Nat}

theorem Heap.function_addFunctions {functions : List Function}
    (inside : ref < heap.functions.size) :
    (heap.addFunctions functions).function ref = heap.function ref := by
  simp [Heap.addFunctions, Heap.function, Array.getD_eq_getD_getElem?,
    Array.getElem?_append_left inside]

theorem Heap.addFunctions_nil (heap : Heap) : heap.addFunctions [] = heap := by
  simp [addFunctions]

theorem Heap.addFunctions_push (heap : Heap) (functions : List Function) (function : Function) :
    ((heap.addFunctions functions).newFunction function).2
      = heap.addFunctions (functions ++ [function]) := by
  simp [addFunctions, newFunction]

section
variable {constant : Value} (plain : ∀ ref, constant ≠ .function ref)
include plain

theorem renew_plain (places : Array Nat) (done : Array Value) (heap : Heap) :
    Program.renew places (done, heap) constant = (done.push constant, heap) := by
  cases constant with
  | function ref => exact absurd rfl (plain ref)
  | _ => rfl

theorem renewAll_plain (rest : List Value) (next : Nat) :
    renewAll (constant :: rest) next = constant :: renewAll rest next := by
  cases constant with
  | function ref => exact absurd rfl (plain ref)
  | _ => rfl

theorem functionRefs_plain (rest : List Value) :
    functionRefs (constant :: rest) = functionRefs rest := by
  cases constant with
  | function ref => exact absurd rfl (plain ref)
  | _ => rfl

end

/-- One constant after the other is made anew. -/
theorem foldl_renew {places : Array Nat} (constants : List Value)
    (inside : ∀ ref ∈ functionRefs constants, ref < heap.functions.size) (done : Array Value)
    (made : List Function) :
    constants.foldl (Program.renew places) (done, heap.addFunctions made)
      = (done ++ (renewAll constants (heap.functions.size + made.length)).toArray,
        heap.addFunctions (made ++ (functionRefs constants).map fun ref =>
          (heap.function ref).renumber places)) := by
  induction constants generalizing done made with
  | nil => simp [renewAll, functionRefs]
  | cons constant rest ih =>
    rw [foldl_cons]
    by_cases plain : ∀ ref, constant ≠ .function ref
    · rw [functionRefs_plain plain] at inside ⊢
      rw [renew_plain plain, renewAll_plain plain, ih inside]
      simp
    · obtain ⟨ref, rfl⟩ : ∃ ref, constant = .function ref := by simpa using plain
      have refs : functionRefs (.function ref :: rest) = ref :: functionRefs rest := rfl
      rw [refs] at inside ⊢
      have size : (heap.addFunctions made).functions.size = heap.functions.size + made.length := by
        simp [addFunctions]
      have renewed : Program.renew places (done, heap.addFunctions made) (.function ref)
          = (done.push (.function (heap.functions.size + made.length)),
            heap.addFunctions (made ++ [(heap.function ref).renumber places])) := by
        rw [← addFunctions_push, ← size,
          ← function_addFunctions (inside ref (mem_cons_self ..))]
        rfl
      rw [renewed, ih fun ref member => inside ref (mem_cons_of_mem _ member)]
      simp [renewAll, Nat.add_assoc]

theorem mem_functionRefs : ref ∈ functionRefs constants ↔ .function ref ∈ constants := by
  unfold functionRefs
  rw [mem_filterMap]
  constructor
  · rintro ⟨value, member, found⟩
    cases value <;> cases found
    exact member
  · exact fun member => ⟨_, member, rfl⟩

theorem nodup_functionRefs
    (unique : ∀ {ref place other : Nat}, constants[place]? = some (.function ref) →
      constants[other]? = some (.function ref) → place = other) :
    (functionRefs constants).Nodup := by
  unfold functionRefs
  rw [List.Nodup, pairwise_filterMap, pairwise_iff_getElem]
  intro place other inside inside' before ref found ref' found' same
  subst same
  have function {value : Value} (found : (match value with
      | .function ref => some ref
      | _ => none) = some ref) : value = .function ref := by
    cases value <;> cases found
    rfl
  have here := getElem?_eq_getElem inside
  have there := getElem?_eq_getElem inside'
  rw [function found] at here
  rw [function found'] at there
  exact absurd (unique here there) (Nat.ne_of_lt before)

/-- Where a function goes when the functions are numbered anew. -/
theorem getElem?_renewAll_function (next : Nat) (here : constants[place]? = some (.function ref)) :
    ∃ index, (functionRefs constants)[index]? = some ref ∧
      (renewAll constants next)[place]? = some (.function (next + index)) := by
  induction constants generalizing place next with
  | nil => cases here
  | cons constant rest ih =>
    by_cases plain : ∀ ref, constant ≠ .function ref
    · rw [functionRefs_plain plain, renewAll_plain plain]
      cases place with
      | zero => exact absurd (Option.some.inj here) (plain ref)
      | succ place => exact ih next here
    · obtain ⟨first, rfl⟩ : ∃ ref, constant = .function ref := by simpa using plain
      cases place with
      | zero =>
        cases here
        exact ⟨0, rfl, rfl⟩
      | succ place =>
        obtain ⟨index, refs, renewed⟩ := ih (next + 1) here
        refine ⟨index + 1, refs, ?_⟩
        rw [← Nat.add_assoc, Nat.add_right_comm]
        exact renewed

theorem getElem?_renewAll_plain (next : Nat) (here : constants[place]? = some value)
    (plain : ∀ ref, value ≠ .function ref) : (renewAll constants next)[place]? = some value := by
  induction constants generalizing place next with
  | nil => cases here
  | cons constant rest ih =>
    by_cases first : ∀ ref, constant ≠ .function ref
    · rw [renewAll_plain first]
      cases place with
      | zero => exact here
      | succ place => exact ih next here
    · obtain ⟨ref, rfl⟩ : ∃ ref, constant = .function ref := by simpa using first
      cases place with
      | zero => exact absurd (Option.some.inj here).symm (plain ref)
      | succ place => exact ih (next + 1) here

namespace Program

/-- The constants of a program after merging, as they were, and their places. -/
def merged (program : Program) : Merged := program.constants.foldl Merged.add {}

/-- The functions that are made anew: those among the constants, and the main function. -/
def renewedRefs (program : Program) : List Nat :=
  functionRefs program.merged.constants.toList ++ [program.main]

theorem tracks (program : Program) : program.merged.Tracks program.constants.toList :=
  .ofAll program.constants

variable {program : Program}

theorem mem_constants_of_renewed (member : ref ∈ program.renewedRefs) :
    ref = program.main ∨ .function ref ∈ program.constants := by
  rcases mem_append.1 member with function | main
  · right
    have here := mem_functionRefs.1 function
    simpa using program.tracks.member _ (by simpa using here)
  · exact .inl (mem_singleton.1 main)

/-- What merging makes of a program. -/
theorem merge_eq (inside : ∀ ref ∈ program.renewedRefs, ref < heap.functions.size) :
    program.merge heap
      = ({ program with
          main := heap.functions.size + (functionRefs program.merged.constants.toList).length
          constants := (renewAll program.merged.constants.toList heap.functions.size).toArray },
        heap.addFunctions (program.renewedRefs.map fun ref =>
          (heap.function ref).renumber program.merged.places)) := by
  have main : program.main < heap.functions.size := inside _ (by simp [renewedRefs])
  have fold := @foldl_renew heap program.merged.places program.merged.constants.toList
    (fun ref member => inside ref (mem_append_left _ member)) #[] []
  rw [Heap.addFunctions_nil, Array.foldl_toList, length_nil, Nat.add_zero, nil_append,
    Array.empty_append] at fold
  unfold merge
  rw [← merged]
  dsimp only
  rw [fold]
  dsimp only
  rw [renumberFunction, Heap.addFunctions_push, Heap.function_addFunctions main, renewedRefs,
    map_append]
  simp [Heap.addFunctions, Function.renumber]

end Program

end Skiff
