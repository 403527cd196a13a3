import Skiff.Proofs.Compile.Emit
import Skiff.Proofs.Compile.Trees

/-!
# Code that leads to its end

The code of a construct leads to its end, but for the exits of the loop around it, and every
function made on the way is listed with such a body. Which slots there are is known only when the
whole function has been compiled, so that operands are bounded by its final table.
-/

namespace Skiff

open SymbolTable

namespace Compile

/-- A call has no more named arguments than the operand of a map can count. -/
def FewNamed : Expr → Prop
  | .call _ _ (.mk _ _ named _) => named.length * 2 ≤ 0xFFFF
  | _ => True

section
variable {few : Prop} {s t : CompileState} {id : Nat}

/-! ## Blocks -/

theorem chain_leave (some : t.table.outer ≠ []) : t.leave.table.chain = t.table.outer := by
  rw [CompileState.leave, leave]
  cases around : t.table.outer with
  | nil => exact absurd around some
  | cons => rfl

/-- A block belongs to the function around it. -/
theorem small_leave (block : t.table.current.block = true) (some : t.table.outer ≠ []) :
    Small few t.leave.table = Small few t.table := by
  rw [Small, Small, chain_leave some, SymbolTable.chain, localsOf, cellsOf, if_pos block,
    if_pos block]

/-- The scope that was entered is the current one again when what is inside has been compiled. -/
theorem current_of_enter {block : Bool} (grows : Grows (s.enter block).table t.table) :
    t.table.current.block = block ∧ t.table.outer ≠ [] := by
  have chain := grows.chain
  rw [SymbolTable.chain, SymbolTable.chain] at chain
  generalize t.table.outer = rest at chain ⊢
  generalize t.table.current = current at chain ⊢
  cases chain with
  | cons first later =>
    refine ⟨first.block, ?_⟩
    rintro rfl
    cases later

/-! ## Functions -/

/-- What a function captures can be named in the function around it. -/
theorem named_leave (roomy : t.table.Roomy) (some : t.table.outer ≠ [])
    (member : id ∈ t.table.current.captured.toList) : t.leave.table.Named id := by
  obtain ⟨index, captured⟩ := Array.mem_iff_getElem?.1 (Array.mem_toList_iff.1 member)
  obtain ⟨original, made, held⟩ := roomy.sound.1.captured captured
  rw [← chain_leave some] at held
  rw [← t.table.symbols_leave] at made
  exact named_of_made made (counted_of_held roomy.leave.sound roomy.leave.locals made held)

/-- The slots of a function whose scope is the current one. -/
theorem small_function (isFunction : t.table.current.block = false)
    (locals : t.table.current.most ≤ 0x100)
    (captured : t.table.current.captured.size ≤ 0xFF) (named : few) : Small few t.table := by
  have isFunction : ¬t.table.current.block = true := Bool.not_eq_true _ ▸ isFunction
  rw [Small, SymbolTable.chain, localsOf, cellsOf, if_neg isFunction, if_neg isFunction]
  refine ⟨?_, captured, named⟩
  split
  · exact Nat.zero_le _
  · exact locals

/-- Code that leads to its end, where the numbers of slots are small and calls have few named
arguments. -/
def leading (few : Prop) : Pass where
  World := Unit
  ok s _ := Orderly s
  step _ s _ t _ := Advances few s t
  knows s _ := s.table.Named
  code exits t _ code := code.Leads (Small few t.table) exits
  data value := value.isData = true
  checks := few
  node := FewNamed

instance (few : Prop) : (leading few).Laws where
  ok := Advances.orderly
  refl := .refl
  trans := .trans
  later step leads := leads.mono step.small
  stays step named := named.grow step.table
  empty := .empty
  append := .append
  instr _ plain fits := .one plain fun _ => fits
  exit := .exit
  choice := .choice
  guarded := .guarded
  shortCircuit := .shortCircuit
  loop := .loop
  define {name s _ _ _} run orderly := by
    cases run
    obtain ⟨roomy, named⟩ := orderly.roomy.define name
    exact ⟨(), .ofTable orderly roomy (s.table.grows_define name), named⟩
  defineHidden {name s _ _ _} run orderly := by
    cases run
    obtain ⟨roomy, named⟩ := orderly.roomy.defineHidden name
    exact ⟨(), .ofTable orderly roomy (s.table.grows_defineHidden name), named⟩
  resolve {name _ _ _ _} run orderly := by
    cases run
    obtain ⟨roomy, grows, named⟩ := orderly.roomy.resolve name
    exact ⟨.ofTable orderly roomy grows, named⟩
  markAssigned {id s _ _ _} run orderly := by
    cases run
    exact .ofTable orderly (orderly.roomy.markAssigned id) (s.table.grows_markAssigned id)
  slot _ named slotted := leads_slot named slotted
  constant exits run plain orderly := leads_constant few exits run plain orderly
  enter block orderly := orderly.withTable (orderly.roomy.enter block)
  leave _ inner := inner.leave
  block inner leads := by
    obtain ⟨block, some⟩ := current_of_enter inner.table
    change Fragment.Leads _ _ _
    rw [small_leave block some]
    exact leads
  captured _ whole member := named_leave whole.orderly.roomy (current_of_enter whole.table).2 member
  function _ whole leads locals captured captures made added := by
    have small : few → Small few _ :=
      small_function (current_of_enter whole.table).1 locals captured
    have leads := (leads.closed Bool.false_ne_true).mono small
    obtain ⟨makes, emission, member, -, rfl⟩ :=
      advances_newFunction made captures.orderly ⟨_, rfl⟩ leads
    obtain ⟨adds, -, room⟩ := advances_addConstant few added makes.orderly
      (by rintro ref ⟨⟩; exact ⟨emission, member, rfl⟩)
    refine ⟨(), makes.trans adds, ?_⟩
    change (pushFunction _ _ _).Leads _ _
    rw [pushFunction]
    split
    · exact .one rfl fun _ => Opcode.fits_two rfl room
    · exact .one rfl fun _ => Opcode.fits_pair rfl (Nat.lt_succ_of_le room) captured
  number _ := rfl
  double _ := rfl
  character _ := rfl
  text _ := rfl
  keys _ _ _ _ _ := rfl
  field _ := rfl
  names _ _ _ _ := rfl
  namedMap short keys := by
    change (namedMap _ _ _).Leads _ _
    rw [namedMap]
    split
    · exact .empty
    · exact keys.instr rfl fun small => Opcode.fits_two rfl (short small.2.2)

end

end Compile

end Skiff
