import Skiff.Proofs.Code.Assemble
import Skiff.Proofs.Code.Tidy

/-!
# Opcodes of assembled code

Operands that do not fit are cut, but they are written with as many bytes as others. So whatever the
operands are, assembling and tidying a fragment brings in no opcode but that of a last return.
-/

namespace Skiff

open List Nat Fragment Opcode

namespace CodeItem

/-- The opcode that an item becomes. -/
def op : CodeItem → Opcode
  | instr op _ | jump op _ => op
  | exit _ => .jump

/-- An item has as many operands as its opcode has fields. -/
def Proper : CodeItem → Prop
  | instr op operands => operands.length = op.widths.length
  | jump op _ => op.isJump = true
  | exit _ => True

theorem op_placed (place : Nat) (item : CodeItem) : (item.placed place).1 = item.op := by
  cases item <;> rfl

theorem Proper.placed {item : CodeItem} (proper : item.Proper) (place : Nat) :
    (item.placed place).2.length = (item.placed place).1.widths.length := by
  cases item with
  | instr op operands => exact proper
  | jump op distance =>
    change 1 = op.widths.length
    rw [widths_of_isJump proper]
    rfl
  | exit kind => rfl

end CodeItem

/-! ## Operands that are cut -/

theorem littleEndian_mod (width n : Nat) :
    littleEndian width (n % 256 ^ width) = littleEndian width n := by
  induction width generalizing n with
  | zero => rfl
  | succ width ih =>
    have low : n % 256 ^ (width + 1) % 256 = n % 256 :=
      mod_mod_of_dvd n (Dvd.intro_left _ (pow_succ 256 width).symm)
    have high : n % 256 ^ (width + 1) / 256 = n / 256 % 256 ^ width := by
      rw [pow_succ, mul_comm, mod_mul_right_div_self]
    rw [littleEndian, littleEndian, low, high, ih]

/-- Operands as they are read back. -/
def cutOperands : (widths operands : List Nat) → List Nat :=
  zipWith fun width operand => operand % 0x100000000 % 256 ^ width

theorem fit_cutOperands {widths operands : List Nat} (same : operands.length = widths.length) :
    Forall₂ (fun width operand => operand < 256 ^ width) widths (cutOperands widths operands) := by
  induction widths generalizing operands with
  | nil =>
    cases operands with
    | nil => exact .nil
    | cons => cases same
  | cons width widths ih =>
    cases operands with
    | nil => cases same
    | cons operand operands =>
      exact .cons (Nat.mod_lt _ (Nat.pow_pos (by decide))) (ih (Nat.succ.inj same))

theorem encodeOperands_cut (widths operands : List Nat) :
    encodeOperands widths (cutOperands widths operands) = encodeOperands widths operands := by
  induction widths generalizing operands with
  | nil => rfl
  | cons width widths ih =>
    cases operands with
    | nil => rfl
    | cons operand operands =>
      have small : operand % 0x100000000 % 256 ^ width < 0x100000000 :=
        lt_of_le_of_lt (mod_le _ _) (mod_lt _ (by decide))
      change littleEndian width (operand % 0x100000000 % 256 ^ width % 0x100000000) ++
        encodeOperands widths (cutOperands widths operands) = _
      rw [mod_eq_of_lt small, littleEndian_mod, ih]
      rfl

/-- Instructions with the right number of operands are read back with the same opcodes. -/
theorem spells_cut {code : ByteArray} {instrs : List (Opcode × List Nat)}
    (proper : ∀ instr ∈ instrs, instr.2.length = instr.1.widths.length)
    (here : code.data.toList = encodeAll instrs) :
    ∃ placed, Spells code 0 placed ∧ placed.map (·.op) = instrs.map Prod.fst := by
  let cut := instrs.map fun instr => (instr.1, cutOperands instr.1.widths instr.2)
  have same : encodeAll cut = encodeAll instrs := by
    simp only [cut, encodeAll, flatMap_map, encode, encodeOperands_cut]
  refine ⟨placeFrom 0 cut, spells_encodeAll ?_ (zero_le _) (here.trans same.symm), ?_⟩
  · intro instr member
    obtain ⟨whole, there, rfl⟩ := mem_map.1 member
    exact fit_cutOperands (proper whole there)
  · have ops := congrArg (List.map Prod.fst) (map_placeFrom 0 cut)
    simpa [cut, Function.comp_def] using ops

/-! ## Fragments -/

variable {body : Fragment}

/-- Assembling writes one instruction for each piece. -/
theorem toList_assemble_proper (proper : ∀ piece ∈ body, piece.item.Proper) :
    ∃ instrs, body.assemble.1.data.toList = encodeAll instrs ∧
      (∀ instr ∈ instrs, instr.2.length = instr.1.widths.length) ∧
      instrs.map Prod.fst = body.toList.map (·.item.op) := by
  have general (pieces : List CodePiece) (proper : ∀ piece ∈ pieces, piece.item.Proper)
      (bytes : ByteArray) (map : SourceMap) : ∃ instrs,
      (pieces.foldl assemblePiece (bytes, map)).1.data.toList
        = bytes.data.toList ++ encodeAll instrs ∧
      (∀ instr ∈ instrs, instr.2.length = instr.1.widths.length) ∧
      instrs.map Prod.fst = pieces.map (·.item.op) := by
    induction pieces generalizing bytes map with
    | nil => exact ⟨[], by simp [encodeAll], nofun, rfl⟩
    | cons piece pieces ih =>
      rw [forall_mem_cons] at proper
      obtain ⟨instrs, written, lengths, ops⟩ := ih proper.2
        ((encodeItem bytes.size piece.item).foldl ByteArray.push bytes)
        (map.insert bytes.size piece.span)
      refine ⟨piece.item.placed bytes.size :: instrs, ?_, ?_, ?_⟩
      · rw [foldl_cons, assemblePiece, written, toList_foldl_push, encodeAll_cons,
          encodeItem_eq, append_assoc]
      · exact forall_mem_cons.2 ⟨proper.1.placed _, lengths⟩
      · rw [map_cons, map_cons, CodeItem.op_placed, ops]
  rw [assemble, ← Array.foldl_toList]
  exact general body.toList (by simpa using proper) .empty {}

theorem decode_assemble_proper (proper : ∀ piece ∈ body, piece.item.Proper) :
    DecodesFully body.assemble.1 ∧
      (decode body.assemble.1).toList.map (·.op) = body.toList.map (·.item.op) := by
  obtain ⟨instrs, written, lengths, ops⟩ := toList_assemble_proper proper
  obtain ⟨placed, spelled, same⟩ := spells_cut lengths written
  exact ⟨decodesFully_of_spells spelled, by rw [decode_of_spells spelled, same, ops]⟩

/-- Tidying keeps opcodes or adds a return. -/
theorem op_of_mem_tidy {code : ByteArray} (full : DecodesFully code) (map : SourceMap) (span : Span)
    {instr : PlacedInstr} (member : instr ∈ (decode (tidy code map span).1).toList) :
    instr.op = .ret ∨ ∃ old ∈ (decode code).toList, old.op = instr.op := by
  have proper : ∀ instr ∈ tidiedInstrs code, instr.2.length = instr.1.widths.length := by
    intro instr member
    rcases mem_append.1 member with kept | added
    · obtain ⟨old, there, rfl⟩ := mem_map.1 kept
      have fits := fits_of_mem_decode ((keptInstrs_sublist code).mem there)
      rw [movedInstr]
      cases jumps : old.target? with
      | none => exact fits.length_eq.symm
      | some target =>
        rw [PlacedInstr.target?] at jumps
        split at jumps
        · rename_i isJump
          rw [widths_of_isJump isJump]
          rfl
        · cases jumps
    · split at added
      · exact absurd added not_mem_nil
      · obtain rfl := mem_singleton.1 added
        rfl
  obtain ⟨placed, spelled, ops⟩ := spells_cut proper (toList_tidy full map span)
  rw [decode_of_spells spelled] at member
  have there : instr.op ∈ (tidiedInstrs code).map Prod.fst := ops ▸ mem_map_of_mem member
  obtain ⟨moved, member, same⟩ := mem_map.1 there
  rcases mem_append.1 member with kept | added
  · obtain ⟨old, there, rfl⟩ := mem_map.1 kept
    exact .inr ⟨old, (keptInstrs_sublist code).mem there, same⟩
  · split at added
    · exact absurd added not_mem_nil
    · obtain rfl := mem_singleton.1 added
      exact .inl same.symm

/-- The opcodes of a function body are those of its fragment, and that of a return. -/
theorem op_of_mem_body (proper : ∀ piece ∈ body, piece.item.Proper) (map : SourceMap) (span : Span)
    {instr : PlacedInstr} (member : instr ∈ (decode (tidy body.assemble.1 map span).1).toList) :
    instr.op = .ret ∨ ∃ piece ∈ body, piece.item.op = instr.op := by
  obtain ⟨full, ops⟩ := decode_assemble_proper proper
  rcases op_of_mem_tidy full map span member with returns | ⟨old, member, same⟩
  · exact .inl returns
  · have there : old.op ∈ body.toList.map (·.item.op) := ops ▸ mem_map_of_mem member
    obtain ⟨piece, member, here⟩ := mem_map.1 there
    exact .inr ⟨piece, Array.mem_toList_iff.1 member, here.trans same⟩

end Skiff
