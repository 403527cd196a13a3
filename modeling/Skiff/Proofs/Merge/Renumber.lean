import Skiff.Proofs.Code.Decode

/-!
# Renumbered code

Replacing the numbers of constants in a code that is whole instructions leaves every instruction at
its place: only the first operands of the instructions that name constants change.
-/

namespace Skiff

open List Nat Opcode

/-! ## Writing over bytes -/

variable {code : ByteArray} {pos : Nat} {instr : PlacedInstr} {front back : List UInt8}
  {instrs : List PlacedInstr}

theorem toList_writeBytes {old bytes : List UInt8} (here : code.data.toList = front ++ old ++ back)
    (place : front.length = pos) (fits : old.length = bytes.length) :
    (writeBytes code pos bytes).data.toList = front ++ bytes ++ back := by
  induction bytes generalizing code pos front old with
  | nil =>
    obtain rfl := length_eq_zero_iff.1 fits
    exact here
  | cons byte rest ih =>
    obtain ⟨first, old, rfl⟩ := exists_cons_of_length_eq_add_one fits
    subst place
    have set : (code.set! front.length byte).data.toList = front ++ [byte] ++ old ++ back := by
      have bytes : (code.set! front.length byte).data
          = code.data.setIfInBounds front.length byte := rfl
      rw [bytes, Array.toList_setIfInBounds, here]
      simp
    have behind : (front ++ [byte]).length = front.length + 1 := by simp
    rw [writeBytes, ih set behind (by simpa using fits)]
    simp

/-- The bytes of operands that were read are those they were read from. -/
theorem encodeOperands_readOperands {widths : List Nat} (narrow : ∀ width ∈ widths, width ≤ 4)
    (inside : pos + widths.foldr (· + ·) 0 ≤ code.size) :
    encodeOperands widths (readOperands code widths pos)
      = (code.data.toList.drop pos).take (widths.foldr (· + ·) 0) := by
  induction widths generalizing pos with
  | nil => simp [encodeOperands]
  | cons width widths ih =>
    rw [foldr_cons] at inside ⊢
    have small : readNumber code pos width < 0x100000000 := by
      have below := readNumber_lt code pos width
      have bound : 256 ^ width ≤ 256 ^ 4 :=
        Nat.pow_le_pow_right (by omega) (narrow width (List.mem_cons_self ..))
      omega
    rw [Opcode.readOperands, Opcode.encodeOperands, Nat.mod_eq_of_lt small,
      littleEndian_readNumber (by omega),
      ih (fun width member => narrow width (mem_cons_of_mem _ member)) (by omega),
      take_add, drop_drop]

/-- The bytes of a code from a place on are those of its instructions. -/
theorem drop_eq_encodeAll (spelled : Spells code pos instrs) :
    code.data.toList.drop pos = encodeAll (instrs.map fun instr => (instr.op, instr.operands)) := by
  induction spelled with
  | stop =>
    rw [size_eq_length, drop_length]
    rfl
  | @instr pos op rest inside opcode later ih =>
    have whole : pos + 1 + op.widths.foldr (· + ·) 0 ≤ code.size := by
      have := later.pos_le
      rw [Opcode.size] at this
      omega
    have here : pos < code.data.toList.length := by rw [← size_eq_length]; omega
    have byte : code.data.toList[pos] = op.byte := by
      rw [byteAt_eq, getElem?_eq_getElem here, Option.getD_some] at opcode
      exact (byte_of_ofByte? opcode).symm
    have operands := encodeOperands_readOperands
      (fun _ member => width_le member) whole
    rw [map_cons, encodeAll_cons, ← ih, Opcode.encode, operandsAt, operands,
      drop_eq_getElem_cons here, byte, cons_append]
    congr 1
    have split := take_append_drop (op.widths.foldr (· + ·) 0) (code.data.toList.drop (pos + 1))
    rw [drop_drop] at split
    rw [Opcode.size, ← add_assoc, split]

/-! ## Renumbered instructions -/

/-- The operands of an instruction with the number of its constant replaced. -/
def renumberOperands (places : Array Nat) (op : Opcode) (operands : List Nat) : List Nat :=
  match op, operands with
  | .const, old :: rest | .closure, old :: rest => places.getD old old :: rest
  | _, operands => operands

/-- An instruction with the number of its constant replaced. -/
def PlacedInstr.renumber (places : Array Nat) (instr : PlacedInstr) : PlacedInstr :=
  { instr with operands := renumberOperands places instr.op instr.operands }

/-- New numbers are never above the old ones. -/
def Lowers (places : Array Nat) : Prop :=
  ∀ {old place : Nat}, places[old]? = some place → place ≤ old

theorem Lowers.getD_le {places : Array Nat} (lowers : Lowers places) (old : Nat) :
    places.getD old old ≤ old := by
  rw [Array.getD_eq_getD_getElem?]
  cases found : places[old]? with
  | none => exact le_refl _
  | some place => exact lowers found

/-- What replacing the number of one instruction does to a code. -/
def renumberOne (places : Array Nat) (code : ByteArray) (instr : PlacedInstr) : ByteArray :=
  match instr.op, instr.operands with
  | .const, old :: _ | .closure, old :: _ =>
    match places[old]? with
    | some place => writeBytes code (instr.pos + 1) (littleEndian 2 place)
    | none => code
  | _, _ => code

theorem renumber_eq (places : Array Nat) (code : ByteArray) :
    renumber places code = (decode code).toList.foldl (renumberOne places) code := by
  rw [Array.foldl_toList]
  rfl

section
variable {places : Array Nat} (lowers : Lowers places)
include lowers

theorem renumberOperands_fits {op : Opcode} {operands : List Nat} (fits : op.Fits operands) :
    op.Fits (renumberOperands places op operands) := by
  unfold renumberOperands
  split
  · obtain ⟨small, rest⟩ := forall₂_cons.1 fits
    exact .cons (lt_of_le_of_lt (lowers.getD_le _) small) rest
  · obtain ⟨small, rest⟩ := forall₂_cons.1 fits
    exact .cons (lt_of_le_of_lt (lowers.getD_le _) small) rest
  · exact fits

/-- The two bytes behind an opcode are written over. -/
theorem toList_renumberOne_constant {old : Nat} {byte : UInt8} {later : List UInt8}
    (small : old < 256 ^ 2)
    (here : code.data.toList = front ++ byte :: littleEndian 2 (old % 0x100000000) ++ later)
    (place : front.length = pos) :
    (match places[old]? with
      | some place => writeBytes code (pos + 1) (littleEndian 2 place)
      | none => code).data.toList
    = front ++ byte :: littleEndian 2 (places.getD old old % 0x100000000) ++ later := by
  have low := lowers.getD_le old
  rw [Array.getD_eq_getD_getElem?] at low ⊢
  cases found : places[old]? with
  | none => simpa using here
  | some place' =>
    rw [found, Option.getD_some] at low
    have whole : code.data.toList
        = (front ++ [byte]) ++ littleEndian 2 (old % 0x100000000) ++ later := by
      simpa using here
    rw [toList_writeBytes whole (by simp [place]) (by simp), Option.getD_some,
      mod_eq_of_lt (show place' < 0x100000000 by omega)]
    simp

theorem toList_renumberOne (fits : instr.op.Fits instr.operands)
    (here : code.data.toList = front ++ instr.op.encode instr.operands ++ back)
    (place : front.length = instr.pos) :
    (renumberOne places code instr).data.toList
      = front ++ instr.op.encode (renumberOperands places instr.op instr.operands) ++ back := by
  obtain ⟨pos, op, operands⟩ := instr
  by_cases constant : op = .const
  · subst constant
    obtain ⟨old, rest, small, others, rfl⟩ := forall₂_cons_left_iff.1 fits
    cases others
    simp only [Opcode.encode, widths, encodeOperands, append_nil] at here
    simpa [renumberOne, renumberOperands, Opcode.encode, widths, encodeOperands]
      using toList_renumberOne_constant lowers small (by simpa using here) place
  · by_cases closure : op = .closure
    · subst closure
      obtain ⟨old, rest, small, others, rfl⟩ := forall₂_cons_left_iff.1 fits
      simp only [Opcode.encode, widths, encodeOperands] at here
      have split : code.data.toList = front
          ++ Opcode.closure.byte :: littleEndian 2 (old % 0x100000000)
          ++ (encodeOperands [1] rest ++ back) := by
        simpa using here
      simpa [renumberOne, renumberOperands, Opcode.encode, widths, encodeOperands]
        using toList_renumberOne_constant lowers small split place
    · have kept : renumberOne places code ⟨pos, op, operands⟩ = code := by
        unfold renumberOne
        split <;> simp_all
      have same : renumberOperands places op operands = operands := by
        unfold renumberOperands
        split <;> simp_all
      rw [kept, same]
      exact here

/-- Replacing the numbers of instructions one after the other. -/
theorem toList_renumberAll {done : ByteArray} (spelled : Spells code pos instrs)
    (here : done.data.toList = front ++
    encodeAll (instrs.map fun instr => (instr.op, instr.operands))) (place : front.length = pos) :
    (instrs.foldl (renumberOne places) done).data.toList
      = front ++ encodeAll (instrs.map fun instr =>
        (instr.op, renumberOperands places instr.op instr.operands)) := by
  induction spelled generalizing done front with
  | stop => exact here
  | @instr pos op rest _ _ later ih =>
    have fits := operandsAt_fits op code pos
    rw [map_cons, encodeAll_cons, ← append_assoc] at here
    have renumbered :=
      @toList_renumberOne _ ⟨pos, op, op.operandsAt code pos⟩ _ _ _ lowers fits here place
    rw [foldl_cons, map_cons, encodeAll_cons, ih renumbered, append_assoc]
    rw [length_append, length_encode (renumberOperands_fits lowers fits), place]

/-- The instructions of a renumbered code. -/
theorem spells_renumber (full : DecodesFully code) :
    Spells (renumber places code) 0 ((decode code).toList.map (·.renumber places)) := by
  have spelled := spells_decode full
  have bytes : (renumber places code).data.toList = encodeAll ((decode code).toList.map fun instr =>
      (instr.op, renumberOperands places instr.op instr.operands)) := by
    have whole := drop_eq_encodeAll spelled
    rw [drop_zero, ← nil_append (encodeAll _)] at whole
    rw [renumber_eq, toList_renumberAll lowers spelled whole rfl, nil_append]
  have placed {pos : Nat} {instrs : List PlacedInstr} (spelled : Spells code pos instrs) :
      placeFrom pos (instrs.map fun instr =>
        (instr.op, renumberOperands places instr.op instr.operands))
      = instrs.map (·.renumber places) := by
    induction spelled with
    | stop => rfl
    | instr _ _ _ ih => rw [map_cons, map_cons, placeFrom, ih]; rfl
  rw [← placed spelled]
  refine spells_encodeAll ?_ (zero_le _) (by rw [drop_zero, bytes])
  intro instr member
  obtain ⟨old, oldMember, rfl⟩ := mem_map.1 member
  exact renumberOperands_fits lowers (spelled.fits oldMember)

theorem size_renumber (full : DecodesFully code) : (renumber places code).size = code.size := by
  have general {code' : ByteArray} {pos : Nat} {instrs : List PlacedInstr}
      (spelled : Spells code pos instrs)
      (spelled' : Spells code' pos (instrs.map (·.renumber places))) : code'.size = code.size := by
    induction spelled with
    | stop =>
      rcases spelled'.eq_nil_or_cons with ⟨ends, _⟩ | ⟨_, _, nothing, _⟩
      · exact ends.symm
      · cases nothing
    | instr _ _ _ ih => exact ih spelled'.head.2.2.2
  exact general (spells_decode full) (spells_renumber lowers full)

theorem fetchCode?_renumber (full : DecodesFully code) (member : instr ∈ (decode code).toList) :
    fetchCode? (renumber places code) instr.pos
      = some ((instr.renumber places).fetched, instr.pos + instr.size) :=
  fetchCode?_of_mem (spells_renumber lowers full) (mem_map_of_mem member)

end

/-! ## Places -/

/-- A place of a code at which an instruction stands, or that is behind its end. -/
def AtInstr (code : ByteArray) (ip : Nat) : Prop :=
  code.size ≤ ip ∨ ∃ instr ∈ (decode code).toList, instr.pos = ip

theorem atInstr_next (full : DecodesFully code) (member : instr ∈ (decode code).toList) :
    AtInstr code (instr.pos + instr.size) := by
  obtain ⟨before, after, split⟩ := append_of_mem member
  have spelled := spells_decode full
  rw [split] at spelled
  obtain ⟨_, _, _, later⟩ := spelled.suffix.head
  rcases later.eq_nil_or_cons with ⟨ends, _⟩ | ⟨next, rest, rfl, place⟩
  · exact .inl (le_of_eq ends.symm)
  · exact .inr ⟨next, by simp [split], place⟩

theorem atInstr_zero (full : DecodesFully code) : AtInstr code 0 := by
  rcases (spells_decode full).eq_nil_or_cons with ⟨ends, _⟩ | ⟨first, rest, all, place⟩
  · exact .inl (le_of_eq ends.symm)
  · exact .inr ⟨first, by simp [all], place⟩

section
variable {places : Array Nat} {code : ByteArray} (lowers : Lowers places) (full : DecodesFully code)
include lowers full

theorem byteAt_renumber (member : instr ∈ (decode code).toList) :
    byteAt (renumber places code) instr.pos = byteAt code instr.pos := by
  obtain ⟨_, here⟩ := (spells_decode full).of_mem member
  obtain ⟨_, there⟩ := (spells_renumber lowers full).of_mem (mem_map_of_mem member)
  have left := byte_of_ofByte? here.head.2.1
  have right := byte_of_ofByte? there.head.2.1
  exact right.symm.trans left

/-- The operand of a return stays. -/
theorem byteAt_renumber_ret (member : instr ∈ (decode code).toList) (returns : instr.op = .ret) :
    byteAt (renumber places code) (instr.pos + 1) = byteAt code (instr.pos + 1) := by
  obtain ⟨pos, op, operands⟩ := instr
  subst returns
  obtain ⟨_, here⟩ := (spells_decode full).of_mem member
  obtain ⟨_, there⟩ := (spells_renumber lowers full).of_mem (mem_map_of_mem member)
  have left := congrArg PlacedInstr.operands here.head.2.2.1
  have right := congrArg PlacedInstr.operands there.head.2.2.1
  have same := left.symm.trans right
  simp only [PlacedInstr.renumber, operandsAt, widths, readOperands, readNumber,
    List.cons.injEq, and_true, mul_zero, add_zero] at same
  exact (UInt8.toNat_inj.1 same).symm

/-- The call of a tail is seen by opcodes alone. -/
theorem tailPosition?_renumber {ip : Nat} (placed : AtInstr code ip) :
    Exec.tailPosition? (renumber places code) ip = Exec.tailPosition? code ip := by
  unfold Exec.tailPosition?
  rw [size_renumber lowers full]
  rcases placed with behind | ⟨instr, member, rfl⟩
  · rw [if_pos behind, if_pos behind]
  · rw [byteAt_renumber lowers full member]
    obtain ⟨_, here⟩ := (spells_decode full).of_mem member
    have opcode := here.head.2.1
    by_cases returns : instr.op = .ret
    · rw [byteAt_renumber_ret lowers full member returns, ← byte_of_ofByte? opcode, returns]
    · by_cases pops : instr.op = .pop
      · rcases atInstr_next full member with behind | ⟨next, nextMember, place⟩
        · rw [PlacedInstr.size, pops] at behind
          have last : ¬ instr.pos + 1 < code.size := not_lt.2 behind
          simp [last]
        · rw [PlacedInstr.size, pops] at place
          have same := byteAt_renumber lowers full nextMember
          rw [show next.pos = instr.pos + 1 from place] at same
          rw [same, ← byte_of_ofByte? opcode, pops]
      · have others (op : Opcode) (differs : instr.op ≠ op) : byteAt code instr.pos ≠ op.byte := by
          intro same
          rw [same, ofByte?_byte] at opcode
          exact differs (Option.some.inj opcode).symm
        simp [others .ret returns, others .pop pops]

end

end Skiff
