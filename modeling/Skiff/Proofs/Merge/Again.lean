import Skiff.Proofs.Merge.Preserve

/-!
# Merging twice

After constants have been merged, no two of them share a key. Merging again keeps each of them where
it is, so the numbers in the code stay, those that name no constant included: every function is made
anew once more, but is like the one before.
-/

namespace Skiff

open List Array Heap Program Nat

/-- Programs whose functions exist and consist of whole instructions. -/
def Program.Decodable (program : Program) (heap : Heap) : Prop :=
  ∀ ref, ref = program.main ∨ .function ref ∈ program.constants →
    ref < heap.functions.size ∧ DecodesFully (heap.function ref).code

/-- Constants of two heaps that are the same, or functions that are alike in everything: code,
locals, parameters, source map and captured cells. -/
inductive SameConstant (heap heap' : Heap) : Value → Value → Prop where
  | plain {value : Value} (plain : ∀ ref, value ≠ .function ref) :
    SameConstant heap heap' value value
  | function {ref ref' : Nat} (alike : heap'.function ref' = heap.function ref) :
      SameConstant heap heap' (.function ref) (.function ref')

/-! ## Constants without a common key -/

/-- Whether two constants stay apart when they are merged. -/
def Apart (value other : Value) : Prop :=
  ∀ key, MergeKey.ofValue? value = some key → MergeKey.ofValue? other ≠ some key

variable {constants : List Value} {value : Value} {heap' : Heap}

variable {heap : Heap} {merged : Merged} {next : Nat}

theorem Merged.Tracks.apart (tracks : merged.Tracks constants) :
    merged.constants.toList.Pairwise Apart := by
  rw [List.pairwise_iff_getElem]
  intro place other inside inside' before key here there
  have first := tracks.known.2 ⟨_, Array.getElem?_eq_getElem (by simpa using inside), here⟩
  have second := tracks.known.2 ⟨_, getElem?_eq_getElem (by simpa using inside'), there⟩
  have same : place = other := Option.some.inj (first.symm.trans second)
  omega

/-- What is found among constants whose functions are numbered anew. -/
theorem mem_renewAll (member : value ∈ renewAll constants next) :
    (value ∈ constants ∧ ∀ ref, value ≠ .function ref) ∨ ∃ ref ≥ next, value = .function ref := by
  induction constants generalizing next with
  | nil => cases member
  | cons constant rest ih =>
    by_cases plain : ∀ ref, constant ≠ .function ref
    · rw [renewAll_plain plain, mem_cons] at member
      rcases member with rfl | later
      · exact .inl ⟨mem_cons_self .., plain⟩
      · exact (ih later).imp_left fun found => ⟨mem_cons_of_mem _ found.1, found.2⟩
    · obtain ⟨old, rfl⟩ : ∃ ref, constant = .function ref := by simpa using plain
      rcases mem_cons.1 member with rfl | later
      · exact .inr ⟨next, le_refl _, rfl⟩
      · rcases ih later with found | ⟨ref, above, same⟩
        · exact .inl ⟨mem_cons_of_mem _ found.1, found.2⟩
        · exact .inr ⟨ref, le_of_succ_le above, same⟩

/-- Only functions have the keys of functions. -/
theorem apart_function {ref : Nat} (other : value ≠ .function ref) :
    Apart (.function ref) value := by
  rintro key ⟨⟩ same
  exact other (MergeKey.eq_of_ofValue? same rfl)

theorem Apart.symm {other : Value} (apart : Apart value other) : Apart other value :=
  fun key here there => apart key there here

theorem pairwise_renewAll (apart : constants.Pairwise Apart) (next : Nat) :
    (renewAll constants next).Pairwise Apart := by
  induction constants generalizing next with
  | nil => exact .nil
  | cons constant rest ih =>
    obtain ⟨first, later⟩ := pairwise_cons.1 apart
    by_cases plain : ∀ ref, constant ≠ .function ref
    · rw [renewAll_plain plain]
      refine pairwise_cons.2 ⟨fun value member => ?_, ih later next⟩
      rcases mem_renewAll member with ⟨old, _⟩ | ⟨ref, _, rfl⟩
      · exact first value old
      · exact (apart_function (plain ref)).symm
    · obtain ⟨old, rfl⟩ : ∃ ref, constant = .function ref := by simpa using plain
      refine pairwise_cons.2 ⟨fun value member => apart_function ?_, ih later (next + 1)⟩
      rintro rfl
      rcases mem_renewAll member with ⟨_, plain⟩ | ⟨ref, above, same⟩
      · exact plain next rfl
      · cases same
        omega

/-- A constant whose key is not known yet is added behind the others. -/
theorem Merged.Tracks.add_of_apart (tracks : merged.Tracks constants)
    (apart : ∀ item ∈ merged.constants, Apart item value) :
    (merged.add value).constants = merged.constants.push value ∧
      (merged.add value).places = merged.places.push merged.constants.size := by
  unfold Merged.add
  cases keyed : MergeKey.ofValue? value with
  | none => exact ⟨rfl, rfl⟩
  | some key =>
    dsimp only
    cases seen : merged.known[key]? with
    | none => exact ⟨rfl, rfl⟩
    | some place =>
      obtain ⟨item, found, same⟩ := tracks.known.1 seen
      exact absurd keyed (apart item (mem_of_getElem? found) key same)

/-- Constants that stay apart are all kept, each at its place. -/
theorem merged_of_apart {constants : Array Value} (apart : constants.toList.Pairwise Apart) :
    (constants.foldl Merged.add {}).constants = constants ∧
      (constants.foldl Merged.add {}).places = Array.range constants.size := by
  have general (rest : List Value) {merged : Merged} {done : List Value}
      (tracks : merged.Tracks done) (kept : merged.constants.toList = done)
      (places : merged.places = Array.range done.length) (apart : (done ++ rest).Pairwise Apart) :
      (rest.foldl Merged.add merged).constants.toList = done ++ rest ∧
        (rest.foldl Merged.add merged).places = Array.range (done ++ rest).length := by
    induction rest generalizing merged done with
    | nil => simpa using ⟨kept, places⟩
    | cons value rest ih =>
      have new : ∀ item ∈ merged.constants, Apart item value := by
        intro item member
        have before : item ∈ done := by simpa [← kept] using member
        exact (pairwise_append.1 apart).2.2 item before value (mem_cons_self ..)
      obtain ⟨constants, added⟩ := tracks.add_of_apart new
      have size : merged.constants.size = done.length := by simp [← kept]
      have result := ih (tracks.add value) (by simp [constants, kept])
        (by simp [added, places, size, Array.range_succ]) (by simpa using apart)
      simpa using result
  have all := general constants.toList Merged.Tracks.start rfl rfl (by simpa using apart)
  rw [foldl_toList] at all
  exact ⟨toList_inj.1 (by simpa using all.1), by simpa using all.2⟩

/-! ## Code whose numbers stay -/

theorem renumberOperands_range (count : Nat) (op : Opcode) (operands : List Nat) :
    renumberOperands (Array.range count) op operands = operands := by
  have same (old : Nat) : (Array.range count).getD old old = old := by
    by_cases inside : old < count <;> simp [Array.getD_eq_getD_getElem?, inside]
  unfold renumberOperands
  split <;> simp only [same]

/-- Numbers that are replaced by themselves leave the code as it is. -/
theorem renumber_range (count : Nat) {code : ByteArray} (full : DecodesFully code) :
    renumber (range count) code = code := by
  have lowers : Lowers (range count) := by
    intro old place found
    obtain ⟨_, rfl⟩ := Array.getElem?_eq_some_iff.1 found
    simp
  have spelled := spells_decode full
  have whole := drop_eq_encodeAll spelled
  rw [drop_zero, ← nil_append (encodeAll _)] at whole
  have bytes := toList_renumberAll lowers spelled whole rfl
  simp only [renumberOperands_range] at bytes
  rw [← whole, ← renumber_eq] at bytes
  exact ByteArray.ext (toList_inj.1 bytes)

/-! ## The program made of the merged one -/

theorem Heap.function_addFunctions_add {functions : List Function} {index : Nat}
    {function : Function} (found : functions[index]? = some function) :
    (heap.addFunctions functions).function (heap.functions.size + index) = function := by
  simp [Heap.addFunctions, Heap.function, Array.getD_eq_getD_getElem?, Array.getElem?_append_right,
    found]

theorem functionRefs_renewAll (constants : List Value) (next : Nat) :
    functionRefs (renewAll constants next) = List.range' next (functionRefs constants).length := by
  induction constants generalizing next with
  | nil => rfl
  | cons constant rest ih =>
    by_cases plain : ∀ ref, constant ≠ .function ref
    · rw [renewAll_plain plain, functionRefs_plain plain, functionRefs_plain plain, ih]
    · obtain ⟨old, rfl⟩ : ∃ ref, constant = .function ref := by simpa using plain
      exact congrArg (next :: ·) (ih (next + 1))

/-- Constants whose functions are numbered anew twice. -/
theorem sameConstant_renewAll (constants : List Value) {next' : Nat}
    (alike : ∀ index < (functionRefs constants).length,
    heap'.function (next' + index) = heap.function (next + index)) :
    Forall₂ (SameConstant heap heap') (renewAll constants next)
      (renewAll (renewAll constants next) next') := by
  induction constants generalizing next next' with
  | nil => exact .nil
  | cons constant rest ih =>
    by_cases plain : ∀ ref, constant ≠ .function ref
    · rw [functionRefs_plain plain] at alike
      rw [renewAll_plain plain, renewAll_plain plain]
      exact .cons (.plain plain) (ih alike)
    · obtain ⟨old, rfl⟩ : ∃ ref, constant = .function ref := by simpa using plain
      refine .cons (.function (alike 0 (succ_pos _))) (ih fun index inside => ?_)
      have shifted := alike (index + 1) (succ_lt_succ inside)
      rwa [add_right_comm next', add_right_comm next]

namespace Program

variable {program : Program} {heap : Heap}

theorem Decodable.inside (decodable : program.Decodable heap) :
    ∀ ref ∈ program.renewedRefs, ref < heap.functions.size :=
  fun ref member => (decodable ref (mem_constants_of_renewed member)).1

/-- The functions that merging makes. -/
theorem Decodable.function_merge (decodable : program.Decodable heap) {index : Nat}
    (inside : index < program.renewedRefs.length) :
    ∃ function, (program.merge heap).2.function (heap.functions.size + index) = function ∧
      DecodesFully function.code := by
  have listed := List.getElem?_eq_getElem inside
  obtain ⟨_, full⟩ := decodable _ (mem_constants_of_renewed (List.mem_of_getElem? listed))
  rw [merge_eq decodable.inside]
  refine ⟨_, Heap.function_addFunctions_add (by rw [List.getElem?_map, listed]; rfl), ?_⟩
  exact decodesFully_of_spells (spells_renumber program.tracks.lowers full)

section
variable (decodable : program.Decodable heap)
include decodable

theorem merged_merge :
    (program.merge heap).1.merged.constants = (program.merge heap).1.constants ∧
      (program.merge heap).1.merged.places = Array.range (program.merge heap).1.constants.size := by
  refine merged_of_apart ?_
  rw [merge_eq decodable.inside]
  exact pairwise_renewAll program.tracks.apart _

theorem renewedRefs_merge :
    (program.merge heap).1.renewedRefs
      = List.range' heap.functions.size program.renewedRefs.length := by
  rw [renewedRefs, (merged_merge decodable).1, merge_eq decodable.inside]
  simp [functionRefs_renewAll, renewedRefs, List.range'_concat]

theorem decodable_merge : (program.merge heap).1.Decodable (program.merge heap).2 := by
  have sizes : (program.merge heap).2.functions.size
      = heap.functions.size + program.renewedRefs.length := by
    rw [merge_eq decodable.inside]
    simp [Heap.addFunctions]
  intro ref used
  have member : ref ∈ (program.merge heap).1.renewedRefs := by
    rw [renewedRefs, (merged_merge decodable).1, List.mem_append, mem_functionRefs]
    rcases used with rfl | constant
    · exact .inr (by simp)
    · exact .inl (by simpa using constant)
  rw [renewedRefs_merge decodable, List.mem_range'] at member
  obtain ⟨index, inside, rfl⟩ := member
  obtain ⟨_, rfl, full⟩ := decodable.function_merge inside
  rw [one_mul, sizes]
  exact ⟨Nat.add_lt_add_left inside _, full⟩

/-- A function that merging has made is the same when merging makes it again. -/
theorem function_merge_merge {index : Nat} (inside : index < program.renewedRefs.length) :
    ((program.merge heap).1.merge (program.merge heap).2).2.function
        ((program.merge heap).2.functions.size + index)
      = (program.merge heap).2.function (heap.functions.size + index) := by
  obtain ⟨function, same, full⟩ := decodable.function_merge inside
  rw [merge_eq (decodable_merge decodable).inside, renewedRefs_merge decodable,
    (merged_merge decodable).2]
  refine Heap.function_addFunctions_add ?_
  rw [List.getElem?_map, List.getElem?_range' inside, one_mul, Option.map_some, same,
    Function.renumber, renumber_range _ full]

end

end Program

/-! ## Listings -/

/-- How a value is shown does not depend on what functions do. -/
theorem Heap.display_functions (heap : Heap) (functions : Array Function) (value : Value) :
    ({ heap with functions } : Heap).display value = heap.display value := by
  have general (fuel cells : Nat) (value : Value) :
      ({ heap with functions } : Heap).showFrom fuel cells value
        = heap.showFrom fuel cells value := by
    fun_induction heap.showFrom fuel cells value <;>
      simp_all [showFrom, method, array, map, cell, reach]
  exact general _ _ value

theorem constantLines_eq (kept : heap' = { heap with functions := heap'.functions })
    {value' : Value} (same : SameConstant heap heap' value value') (index : Nat) :
    constantLines heap' index value' = constantLines heap index value := by
  cases same with
  | function alike => simp only [constantLines, alike]
  | plain plain =>
    have shown : heap'.inspect value = heap.inspect value := by
      rw [inspect, kept, display_functions]
      rfl
    cases value with
    | function ref => exact absurd rfl (plain ref)
    | _ => simp only [constantLines, shown]

/-- The lines of constants that are the same one by one. -/
theorem flatMap_zipIdx_eq {rel : Value → Value → Prop} {lines lines' : Nat → Value → List String}
    {values values' : List Value} (same : Forall₂ rel values values')
    (each : ∀ {value value'}, rel value value' → ∀ index, lines' index value' = lines index value)
    (index : Nat) :
    (values'.zipIdx index).flatMap (fun item => lines' item.2 item.1)
      = (values.zipIdx index).flatMap fun item => lines item.2 item.1 := by
  induction same generalizing index with
  | nil => simp
  | cons first _ ih =>
    rw [zipIdx_cons, zipIdx_cons, flatMap_cons, flatMap_cons, ih, each first]

theorem listing_eq {program program' : Program}
    (kept : heap' = { heap with functions := heap'.functions })
    (main : heap'.function program'.main = heap.function program.main)
    (constants : Forall₂ (SameConstant heap heap') program.constants.toList
      program'.constants.toList) :
    program'.listing heap' = program.listing heap := by
  have lines := flatMap_zipIdx_eq constants (constantLines_eq kept) 0
  unfold Program.listing
  rw [main]
  exact congrArg (fun lines : List String =>
    String.join (("Main:" :: _ ++ "Constants:" :: lines).map (· ++ "\n"))) lines

/-- Of constants that stay apart, those with a key stand at one place only. -/
theorem eq_of_apart (apart : constants.Pairwise Apart) {place other : Nat} {key : MergeKey}
    (here : constants[place]? = some value)
    (there : constants[other]? = some value) (keyed : MergeKey.ofValue? value = some key) :
    place = other := by
  obtain ⟨inside, rfl⟩ := List.getElem?_eq_some_iff.1 here
  obtain ⟨inside', same⟩ := List.getElem?_eq_some_iff.1 there
  rw [List.pairwise_iff_getElem] at apart
  rcases lt_trichotomy place other with before | rfl | behind
  · exact absurd (same ▸ keyed) (apart place other inside inside' before key keyed)
  · rfl
  · exact absurd keyed (apart other place inside' inside behind key (same ▸ keyed))

/-- Merging constants a second time changes nothing: the same constants in the same order, with
functions that are alike, the same main function, heap and listing. After one time, no number, text
or character and no function stands twice among the constants. -/
theorem merge_merge {program once twice : Program} {heap made remade : Heap}
    (first : program.merge heap = (once, made)) (second : once.merge made = (twice, remade))
    (decodable : program.Decodable heap) :
    List.Forall₂ (SameConstant made remade) once.constants.toList twice.constants.toList ∧
      remade.function twice.main = made.function once.main ∧
      twice.listing remade = once.listing made ∧
      twice.files = once.files ∧ remade = { made with functions := remade.functions } ∧
      ∀ {place other : Nat} {value : Value}, once.constants[place]? = some value →
        once.constants[other]? = some value →
        value.type ∈ [.int, .float, .string, .char, .function] → place = other := by
  obtain rfl : (program.merge heap).1 = once := congrArg Prod.fst first
  obtain rfl : (program.merge heap).2 = made := congrArg Prod.snd first
  have alike {index : Nat} := @Program.function_merge_merge program heap decodable index
  have again := Program.merge_eq (Program.decodable_merge decodable).inside
  have kept := (Program.merged_merge decodable).1
  have once := Program.merge_eq decodable.inside
  rw [second] at alike again
  obtain ⟨rfl, heaps⟩ := Prod.mk.inj again
  have constants : (program.merge heap).1.constants.toList
      = renewAll program.merged.constants.toList heap.functions.size := by rw [once]
  have main : remade.function ((program.merge heap).2.functions.size
      + (functionRefs (program.merge heap).1.merged.constants.toList).length)
      = (program.merge heap).2.function (program.merge heap).1.main := by
    have last := alike (show (functionRefs program.merged.constants.toList).length < _ by
      simp [Program.renewedRefs])
    rw [kept, constants, functionRefs_renewAll, List.length_range', last, once]
  have rest : remade = { (program.merge heap).2 with functions := remade.functions } := by
    rw [heaps]
    rfl
  have same : List.Forall₂ (SameConstant (program.merge heap).2 remade)
      (program.merge heap).1.constants.toList
      (renewAll (program.merge heap).1.merged.constants.toList
        (program.merge heap).2.functions.size) := by
    rw [kept, constants]
    exact sameConstant_renewAll _ fun index inside =>
      alike (by rw [Program.renewedRefs, List.length_append]; omega)
  refine ⟨same, main, listing_eq rest main same, rfl, rest,
    fun {place other value} here there kind => ?_⟩
  have apart : (program.merge heap).1.constants.toList.Pairwise Apart := by
    rw [constants]
    exact pairwise_renewAll program.tracks.apart _
  rw [← Array.getElem?_toList] at here there
  cases value with
  | int | float | string | char | function => exact eq_of_apart apart here there rfl
  | _ => simp [Value.type] at kind

theorem twiceProgram_decodable : twiceProgram.Decodable twiceHeap := by
  have mergeable := twiceProgram_mergeable
  rintro ref (rfl | constant)
  · exact ⟨mergeable.main, mergeable.mainCode.full⟩
  · have inside : ref < twiceHeap.functions.size := by
      rcases mergeable.constants _ constant with free | ⟨other, inside, same⟩
      · cases free
      · cases same
        exact inside
    exact ⟨inside, (mergeable.code ref constant).full⟩

theorem merge_merge_twiceProgram :
    twiceProgram.Decodable twiceHeap ∧
      ((twiceProgram.merge twiceHeap).1.merge (twiceProgram.merge twiceHeap).2).1.listing
          ((twiceProgram.merge twiceHeap).1.merge (twiceProgram.merge twiceHeap).2).2
        = (twiceProgram.merge twiceHeap).1.listing (twiceProgram.merge twiceHeap).2 := by
  obtain ⟨_, _, same, _⟩ := merge_merge rfl rfl twiceProgram_decodable
  exact ⟨twiceProgram_decodable, same⟩

/-- A program with the same truth value twice. -/
def flagsProgram : Program where
  constants := #[.bool true, .bool true]

def flagsHeap : Heap where
  functions := #[{ code := ⟨#[255]⟩ }]

/-- Truth values have no key: both are kept. -/
theorem merge_flagsProgram :
    flagsProgram.Decodable flagsHeap ∧
      (flagsProgram.merge flagsHeap).1.constants = #[.bool true, .bool true] := by
  have merged : flagsProgram.merged.places = #[0, 1] ∧
      flagsProgram.merged.constants = #[.bool true, .bool true] := by
    simp [merged, flagsProgram, Merged.add, Merged.addNew, MergeKey.ofValue?]
  constructor
  · rintro ref (rfl | constant)
    · exact ⟨by decide, by decide +kernel⟩
    · simp [flagsProgram] at constant
  · rw [merge_eq_of_plain merged rfl (by decide)]
    rfl

end Skiff
