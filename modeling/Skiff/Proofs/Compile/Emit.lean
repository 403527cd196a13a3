import Skiff.Proofs.Compile.Pass
import Skiff.Proofs.Compile.Track

/-!
# Steps of a compilation

The code of single steps: variables are loaded, stored and captured, constants are added, and
functions are made. What is known of states is kept, and operands fit where the numbers of slots are
small.
-/

namespace Skiff

open SymbolTable (Grows slotOf?)

namespace Compile

/-! ## Variables -/

variable {few exits : Prop} {s t : CompileState} {done : Unit} {value : Value} {storage : Storage}
  {index id : Nat} {span : Span} {code : Fragment}

theorem symbol_of_slot {table : SymbolTable}
    (slot : slotOf? table.symbols id = some (storage, index)) :
    (table.symbol id).storage = storage ∧ (table.symbol id).index = index := by
  obtain ⟨symbol, made, same⟩ := Option.map_eq_some_iff.1 slot
  cases same
  rw [SymbolTable.symbol, SymbolTable.getD_of_made made]
  exact ⟨rfl, rfl⟩

/-- Slots other than global ones have small numbers in the end. -/
theorem slot_le {table : SymbolTable} (counted : SymbolTable.Counted table.chain index storage)
    (inner : storage ≠ .global) (small : Small few table) : index ≤ 0xFF := by
  obtain ⟨locals, cells, -⟩ := small
  cases storage with
  | global => exact absurd rfl inner
  | local_ => exact Nat.le_of_lt_succ (Nat.lt_of_lt_of_le counted locals)
  | free => exact Nat.le_trans (Nat.le_of_lt counted) cells
  | builtin => exact Nat.le_of_lt_succ (Nat.lt_of_lt_of_le counted (by decide))

theorem leads_slot (named : s.table.Named id) {op : Opcode} {operands : List Nat}
    (slotted : Slotted (s.table.symbol id) op operands) :
    (Fragment.instr span op operands).Leads (Small few s.table) exits := by
  obtain ⟨storage, index, slot, counted⟩ := named
  obtain ⟨rfl, rfl⟩ := symbol_of_slot slot
  exact .one slotted.onward fun small => slotted.fits fun inner => slot_le counted inner small

/-- A constant that is no function, but data. -/
theorem leads_constant (few exits : Prop) (run : constant span value s = .ok code t)
    (plain : value.isData = true) (orderly : Orderly s) :
      Advances few s t ∧ code.Leads (Small few t.table) exits := by
  simp only [constant, bind_eq_ok, pure_eq_ok] at run
  obtain ⟨index, _, added, rfl, rfl⟩ := run
  obtain ⟨advances, -, room⟩ :=
    advances_addConstant few added orderly (by rintro ref rfl; cases plain)
  exact ⟨advances, .one rfl fun _ => Opcode.fits_two rfl room⟩

/-! ## Scopes and functions -/

/-- What comes about over another table. -/
theorem Advances.withTable {table table' : SymbolTable} (inner : Advances few { s with table } t)
    (roomy : table'.Roomy) (grows : Grows s.table table') :
      Advances few s { t with table := table' } := by
  refine ⟨inner.orderly.withTable roomy, grows, inner.functions, fun member => ?_, fun listed => ?_⟩
  · rcases inner.sound member with old | ⟨function, sound⟩
    · exact .inl old
    · exact .inr ⟨function, { sound with }⟩
  · exact { inner.listed { listed with } with }

/-- What comes about inside of a scope is there behind it. -/
theorem Advances.leave {block : Bool} (inner : Advances few (s.enter block) t) :
    Advances few s t.leave :=
  inner.withTable inner.orderly.roomy.leave inner.table.leave

/-- On the way a function is made, with the cells that it captures. -/
def Makes (few : Prop) (s t : CompileState) (captured : Nat) (value : Value) : Prop :=
  Advances few s t ∧
    ∃ emission ∈ t.emitted, emission.captured = captured ∧ value = .function emission.function

/-- A function is made from a body. -/
theorem advances_newFunction {captured : Nat} {body : Fragment} {function : Function}
    (run : newFunction captured body function s = .ok value t) (orderly : Orderly s)
    (code : ∃ span, (function.code, function.map) = tidy body.assemble.1 body.assemble.2 span)
    (leads : body.Leads few False) :
    Makes few s t captured value := by
  let emission : Emission := { function := s.heap.functions.size, captured, body }
  cases run
  have more {ref : Nat} : (∃ emission ∈ s.emitted, emission.function = ref) →
      ∃ other ∈ emission :: s.emitted, other.function = ref := by
    rintro ⟨other, member, same⟩
    exact ⟨other, List.mem_cons_of_mem _ member, same⟩
  refine ⟨⟨{ orderly with compiled := fun member => ?_ }, .refl _, fun old => ?_,
    fun member => ?_, fun listed => ⟨more ∘ listed.constants, more ∘ listed.compiled⟩⟩,
    emission, List.mem_cons_self .., rfl, rfl⟩
  · obtain ⟨emission', member', rest⟩ := orderly.compiled member
    exact ⟨emission', List.mem_cons_of_mem _ member', rest⟩
  · exact getElem?_push_of_found old
  · rcases List.mem_cons.1 member with rfl | old
    · exact .inr ⟨function, Array.getElem?_push_size, code, leads⟩
    · exact .inl old

end Compile

end Skiff
