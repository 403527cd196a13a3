import Skiff.Proofs.Code.Flow
import Skiff.Proofs.Compile.Steps
import Skiff.Proofs.Heap.Relation
import Skiff.Proofs.Scope.Ledger

/-!
# States of a compilation

What is known of the states that a compilation goes through, and how one follows from another:
constants and functions are only added, the symbols that can be named stay, and every function that
is made is listed with its body, whose jumps stay inside.
-/

namespace Skiff

open SymbolTable (Ledger Grows)

/-- A body that a function has been made from. Its operands fit, if calls have few named
arguments. -/
structure Emission.Sound (emission : Emission) (state : CompileState) (few : Prop)
    (function : Function) : Prop where
  made : state.heap.functions[emission.function]? = some function
  code : ∃ span, (function.code, function.map)
    = tidy emission.body.assemble.1 emission.body.assemble.2 span
  leads : emission.body.Leads few False

namespace Compile

/-- What is known of a state. -/
structure Tracks (state : CompileState) (ledger : Ledger) : Prop where
  keeps : state.table.Keeps ledger
  few : state.constants.size ≤ 0x10000
  compiled {path : String} {value : Value} : (path, value) ∈ state.compiled →
    ∃ emission ∈ state.emitted, emission.captured = 0 ∧ value = .function emission.function
  native {name : String} {index : Nat} : (name, index) ∈ state.native →
    ∃ value, state.constants[index]? = some value ∧ value.isData = true

/-- A state in which there is room for what it knows. -/
structure Orderly (state : CompileState) : Prop where
  roomy : state.table.Roomy
  few : state.constants.size ≤ 0x10000
  compiled {path : String} {value : Value} : (path, value) ∈ state.compiled →
    ∃ emission ∈ state.emitted, emission.captured = 0 ∧ value = .function emission.function
  native {name : String} {index : Nat} : (name, index) ∈ state.native →
    ∃ value, state.constants[index]? = some value ∧ value.isData = true

/-- Every function that a state knows is listed with what it was made from. -/
structure Listed (state : CompileState) : Prop where
  constants {index ref : Nat} : state.constants[index]? = some (.function ref) →
    ∃ emission ∈ state.emitted, emission.function = ref
  compiled {path : String} {ref : Nat} : (path, .function ref) ∈ state.compiled →
    ∃ emission ∈ state.emitted, emission.function = ref

/-- A state of which no less is known follows from another, and new functions are sound. -/
structure Advances (few : Prop) (s t : CompileState) : Prop where
  orderly : Orderly t
  table : Grows s.table t.table
  functions {ref : Nat} {function : Function} :
    s.heap.functions[ref]? = some function → t.heap.functions[ref]? = some function
  sound {emission : Emission} : emission ∈ t.emitted →
    emission ∈ s.emitted ∨ ∃ function, emission.Sound t few function
  listed : Listed s → Listed t

/-- The numbers of the slots of the current function are small, and calls have few named
arguments. -/
def Small (few : Prop) (table : SymbolTable) : Prop :=
  SymbolTable.localsOf table.chain ≤ 0x100 ∧ SymbolTable.cellsOf table.chain ≤ 0xFF ∧ few

variable {few : Prop} {s t u : CompileState}

theorem Tracks.orderly {ledger : Ledger} (tracks : Tracks s ledger) : Orderly s :=
  ⟨tracks.keeps.roomy, tracks.few, tracks.compiled, tracks.native⟩

theorem Advances.refl (orderly : Orderly s) : Advances few s s :=
  ⟨orderly, .refl _, id, .inl, id⟩

theorem Advances.trans (first : Advances few s t) (second : Advances few t u) :
    Advances few s u where
  orderly := second.orderly
  table := first.table.trans second.table
  functions := second.functions ∘ first.functions
  sound := by
    intro emission member
    rcases second.sound member with old | new
    · rcases first.sound old with older | ⟨function, sound⟩
      · exact .inl older
      · exact .inr ⟨function, second.functions sound.made, sound.code, sound.leads⟩
    · exact .inr new
  listed := second.listed ∘ first.listed

theorem Advances.small (advances : Advances few s t) (small : Small few t.table) :
    Small few s.table :=
  ⟨Nat.le_trans (SymbolTable.localsOf_mono advances.table.chain) small.1,
    Nat.le_trans (SymbolTable.cellsOf_mono advances.table.chain) small.2.1, small.2.2⟩

/-! ## Single steps -/

theorem Orderly.withTable (orderly : Orderly s) {table : SymbolTable} (roomy : table.Roomy) :
    Orderly { s with table } :=
  { orderly with roomy }

/-- A change of the symbol table alone. -/
theorem Advances.ofTable (orderly : Orderly s) {table : SymbolTable} (roomy : table.Roomy)
    (grows : Grows s.table table) : Advances few s { s with table } :=
  ⟨orderly.withTable roomy, grows, id, .inl, fun listed => { listed with }⟩

/-- A constant is added, which is no function that is not listed. -/
theorem advances_addConstant (few : Prop) {span : Span} {value : Value} {index : Nat}
    (run : addConstant span value s = .ok index t) (orderly : Orderly s)
    (known : ∀ ref, value = .function ref → ∃ emission ∈ s.emitted, emission.function = ref) :
    Advances few s t ∧ t.constants[index]? = some value ∧ index ≤ 0xFFFF := by
  simp only [addConstant, bind_eq_ok, get_eq_ok, limit_eq_ok, pure_eq_ok] at run
  obtain ⟨_, _, ⟨rfl, rfl⟩, _, _, ⟨room, rfl⟩, _, _, pushed, rfl, rfl⟩ := run
  obtain rfl : { s with constants := s.constants.push value } = _ :=
    (EStateM.Result.ok.injEq .. ▸ pushed).2
  have room := of_decide_eq_true room
  refine ⟨⟨⟨orderly.roomy, ?_, orderly.compiled, fun member => ?_⟩, .refl _, id, .inl,
    fun listed => ⟨fun {index ref} here => ?_, listed.compiled⟩⟩, Array.getElem?_push_size, room⟩
  · rw [Array.size_push]
    omega
  · obtain ⟨value', here, plain⟩ := orderly.native member
    exact ⟨value', getElem?_push_of_found here, plain⟩
  · dsimp only at here
    rw [Array.getElem?_push] at here
    split at here
    · exact known ref (Option.some.inj here)
    · exact listed.constants here

end Compile

end Skiff
