import Mathlib
import Skiff.Code.Listing
import Skiff.Proofs.Code.Opcodes
import Skiff.Proofs.Merge.Renumber

/-!
# Instructions and their listings

Instructions that are written one behind the other are read back one by one, a jump can be given
another target in place, and a listing has one line for each instruction, with its place in front.
Bytes that are no instructions are listed as well, so that a listing shows every byte in its turn.
-/

namespace Skiff

open List Opcode

variable {instrs before after : List (Opcode × List Nat)} {op : Opcode} {operands : List Nat}
  {code : ByteArray}

/-- The number of bytes of instructions. -/
def sizeAll (instrs : List (Opcode × List Nat)) : Nat := (instrs.map (·.1.size)).sum

theorem getElem?_placeFrom : (placeFrom 0 (before ++ (op, operands) :: after))[before.length]?
    = some ⟨sizeAll before, op, operands⟩ := by
  have length := congrArg length (map_placeFrom 0 before)
  rw [length_map] at length
  rw [placeFrom_append, Nat.zero_add, ← length, getElem?_append_right le_rfl, Nat.sub_self]
  rfl

theorem length_encodeAll (fit : ∀ instr ∈ instrs, instr.1.Fits instr.2) :
    (encodeAll instrs).length = sizeAll instrs := by
  induction instrs with
  | nil => rfl
  | cons instr instrs ih =>
    obtain ⟨here, later⟩ := forall_mem_cons.1 fit
    rw [encodeAll_cons, length_append, length_encode here, ih later]
    simp [sizeAll]

/-- Another target is written over that of a jump. -/
theorem patchTarget_encodeAll {old : Nat} (fit : ∀ instr ∈ before, instr.1.Fits instr.2)
    (jumps : op.isJump = true)
    (here : code.data.toList = encodeAll (before ++ (op, [old]) :: after)) (target : Nat) :
    (patchTarget code (sizeAll before + 1) target).data.toList =
      encodeAll (before ++ (op, [target]) :: after) := by
  have spelled (operand : Nat) : encodeAll (before ++ (op, [operand]) :: after) =
      encodeAll before ++ [op.byte] ++ littleEndian 4 operand ++ encodeAll after := by
    rw [← littleEndian_mod 4 operand]
    simp [encodeAll, Opcode.encode, widths_of_isJump jumps, encodeOperands]
  rw [spelled] at here
  rw [spelled, patchTarget, toList_writeBytes here]
  · rw [length_append, length_encodeAll fit, length_singleton]
  · rw [length_littleEndian, length_littleEndian]

/-! ## Lines -/

theorem listingFrom_of_spells {pos : Nat} {placed : List PlacedInstr}
    (spelled : Spells code pos placed) (offset : Nat) (done : Array String) :
    (listingFrom code offset pos done).toList = done.toList ++ placed.map fun instr =>
      listingLine (offset + instr.pos) instr.op instr.operands := by
  induction spelled generalizing done with
  | stop =>
    rw [listingFrom]
    simp
  | instr inside opcode _ ih =>
    rw [listingFrom]
    simp [inside, opcode, ih]

theorem prefix_trimmed {start line : List Char} {blank : Char → Bool} {last : Char}
    (begins : start <+: line) (ends : start.getLast? = some last) (other : blank last = false) :
    start <+: (line.reverse.dropWhile blank).reverse := by
  obtain ⟨rest, rfl⟩ := begins
  have kept : start.reverse.dropWhile blank = start.reverse := by
    rw [← head?_reverse] at ends
    obtain ⟨others, split⟩ := head?_eq_some_iff.1 ends
    rw [split, dropWhile_cons_of_neg (by simp [other])]
  rw [reverse_append, dropWhile_append]
  split
  · rw [kept, reverse_reverse]
  · rw [reverse_append, reverse_reverse]
    exact prefix_append ..

theorem prefix_columns {start : List Char} {line : String} (begins : start <+: line.toList)
    (operands : List Nat) : start <+: (operands.foldl (fun line operand =>
      line ++ " " ++ padRight ' ' 5 (toString operand)) line).toList := by
  induction operands generalizing line with
  | nil => exact begins
  | cons operand operands ih =>
    refine ih (begins.trans ?_)
    dsimp only
    rw [String.append_assoc, String.toList_append]
    exact prefix_append ..

/-- A line begins with the place of its instruction and its name. -/
theorem listingLine_begins (place : Nat) (op : Opcode) (operands : List Nat) :
    (padLeft '0' 4 (toString place) ++ " " ++ op.mnemonic).toList <+:
      (listingLine place op operands).toList := by
  have ends : ∃ last, op.mnemonic.toList.getLast? = some last ∧ isBlank last = false := by
    cases op <;> exact ⟨_, rfl, rfl⟩
  obtain ⟨last, isLast, other⟩ := ends
  have named : op.mnemonic.toList <+: (padRight ' ' 8 op.mnemonic).toList := by
    rw [padRight, String.toList_append]
    exact prefix_append ..
  have whole {columns : String} (begins : op.mnemonic.toList <+: columns.toList) (place : String) :
      (place ++ " " ++ op.mnemonic).toList <+:
        ((place ++ " " ++ columns).toList.reverse.dropWhile isBlank).reverse := by
    generalize op.mnemonic = name at *
    refine prefix_trimmed ?_
      (by rw [String.toList_append, getLast?_append, isLast, Option.some_or]) other
    rw [String.toList_append, @String.toList_append _ columns]
    exact (prefix_append_right_inj _).2 begins
  unfold listingLine
  rw [String.toList_ofList]
  cases operands with
  | nil => exact whole prefix_rfl _
  | cons operand operands => exact whole (prefix_columns named (operand :: operands)) _

/-! ## All bytes -/

/-- How many bytes are listed in one line if they start with this one. -/
def chunkSize (byte : UInt8) : Nat := (ofByte? byte).elim 1 Opcode.size

/-- The line of the bytes at a place that start with this one. -/
def chunkLine (code : ByteArray) (offset pos : Nat) (byte : UInt8) : String :=
  let place := padLeft '0' 4 (toString (offset + pos))
  let shown := hexText 2 byte.toNat
  (ofByte? byte).elim s!"{place} <invalid 0x{shown}>" fun op =>
    listingLine (offset + pos) op (op.operandsAt code pos)

/-- Bytes are listed in their order, in each line as many as belong together, or what is left of
them. -/
inductive Listed (code : ByteArray) (offset : Nat) :
    (pos : Nat) → (bytes : List UInt8) → (lines : List String) → Prop where
  | stop (pos : Nat) : Listed code offset pos [] []
  | line {pos : Nat} {byte : UInt8} {rest : List UInt8} {lines : List String}
      (later : Listed code offset (pos + chunkSize byte)
      ((byte :: rest).drop (chunkSize byte)) lines) :
      Listed code offset pos (byte :: rest) (chunkLine code offset pos byte :: lines)

theorem listed_line {offset pos : Nat} {lines : List String} (inside : pos < code.size) {size : Nat}
    (here : chunkSize (byteAt code pos) = size)
    (later : Listed code offset (pos + size) (code.data.toList.drop (pos + size)) lines) :
    Listed code offset pos (code.data.toList.drop pos)
      (chunkLine code offset pos (byteAt code pos) :: lines) := by
  have first : code.data.toList.drop pos = byteAt code pos :: code.data.toList.drop (pos + 1) := by
    rw [size_eq_length] at inside
    rw [byteAt_eq, getElem?_eq_getElem inside, Option.getD_some, drop_eq_getElem_cons inside]
  rw [← drop_drop, first] at later
  rw [first]
  exact .line (by rwa [here])

theorem listingFrom_listed (code : ByteArray) (offset pos : Nat) (done : Array String) :
    ∃ lines, (listingFrom code offset pos done).toList = done.toList ++ lines ∧
      Listed code offset pos (code.data.toList.drop pos) lines := by
  fun_induction listingFrom code offset pos done with
  | case1 pos done inside byte invalid place shown ih =>
    obtain ⟨lines, listed, later⟩ := ih
    refine ⟨_, ?_, listed_line inside (by rw [chunkSize, invalid]; rfl) later⟩
    rw [listed, chunkLine, invalid, Array.toList_push, append_assoc]
    rfl
  | case2 pos done inside byte op found ih =>
    obtain ⟨lines, listed, later⟩ := ih
    refine ⟨_, ?_, listed_line inside (by rw [chunkSize, found]; rfl) later⟩
    rw [listed, chunkLine, found, Array.toList_push, append_assoc]
    rfl
  | case3 pos done outside =>
    refine ⟨[], (append_nil _).symm, ?_⟩
    rw [size_eq_length] at outside
    rw [drop_eq_nil_of_le (Nat.not_lt.1 outside)]
    exact .stop _

/-- Instructions whose operands fit are read back from their bytes, one by one up to the end. Each
line of their listing begins with the number of bytes before its instruction, and patching a jump
changes its target and nothing else. Any bytes are listed in full. -/
theorem instructions_read_back :
    (∀ instrs : List (Opcode × List Nat), (∀ instr ∈ instrs, instr.1.Fits instr.2) →
      ∀ code : ByteArray, code.data.toList = encodeAll instrs →
        (decode code).toList.map (fun instr => (instr.op, instr.operands)) = instrs ∧
        DecodesFully code ∧ (∀ offset, (listing code offset).size = instrs.length) ∧
        ∀ before op operands after, instrs = before ++ (op, operands) :: after →
          (decode code)[before.length]? = some ⟨sizeAll before, op, operands⟩ ∧
          (∀ offset, ∃ line, (listing code offset)[before.length]? = some line ∧
            (padLeft '0' 4 (toString (offset + sizeAll before)) ++ " " ++ op.mnemonic).toList <+:
              line.toList) ∧
          (op.isJump = true → ∀ target, (patchTarget code (sizeAll before + 1) target).data.toList =
            encodeAll (before ++ (op, [target]) :: after))) ∧
      ∀ code offset, Listed code offset 0 code.data.toList (listing code offset).toList := by
  refine ⟨fun instrs fit code here => ?_, fun code offset => ?_⟩
  · have spelled : Spells code 0 (placeFrom 0 instrs) := spells_encodeAll fit (Nat.zero_le _) here
    have decoded := decode_of_spells spelled
    have lines (offset : Nat) : (listing code offset).toList = (placeFrom 0 instrs).map fun instr =>
        listingLine (offset + instr.pos) instr.op instr.operands := by
      simpa [listing] using listingFrom_of_spells spelled offset #[]
    refine ⟨by rw [decoded, map_placeFrom], decodesFully_of_spells spelled, fun offset => ?_, ?_⟩
    · rw [← Array.length_toList, lines, length_map, ← length_map fun instr =>
        (instr.op, instr.operands), map_placeFrom]
    · rintro before op operands after rfl
      refine ⟨by rw [← Array.getElem?_toList, decoded, getElem?_placeFrom], fun offset => ?_,
        fun jumps target => ?_⟩
      · refine ⟨_, ?_, listingLine_begins _ op operands⟩
        rw [← Array.getElem?_toList, lines, getElem?_map, getElem?_placeFrom, Option.map_some]
      · obtain ⟨earlier, later⟩ := forall_mem_append.1 fit
        have fits := (forall_mem_cons.1 later).1
        rw [Fits, widths_of_isJump jumps] at fits
        obtain ⟨old, rfl⟩ : ∃ old, operands = [old] := length_eq_one_iff.1 fits.length_eq.symm
        exact patchTarget_encodeAll earlier jumps here target
  · obtain ⟨lines, same, covers⟩ := listingFrom_listed code offset 0 #[]
    have same : (listing code offset).toList = lines := same
    rwa [same]

/-- A jump, a function that captures two variables, and a return. -/
theorem instructions_read_back_jump :
    let instrs : List (Opcode × List Nat) := [(.jump, [9]), (.closure, [300, 2]), (.ret, [1])]
    let code : ByteArray := ⟨(encodeAll instrs).toArray⟩
    (∀ instr ∈ instrs, instr.1.Fits instr.2) ∧ (decode code)[2]? = some ⟨9, .ret, [1]⟩ ∧
      (patchTarget code 1 5).data.toList = encodeAll
        [(.jump, [5]), (.closure, [300, 2]), (.ret, [1])] := by
  intro instrs code
  have fit : ∀ instr ∈ instrs, instr.1.Fits instr.2 := by decide
  obtain ⟨-, -, -, each⟩ := instructions_read_back.1 instrs fit code rfl
  exact ⟨fit, (each [(.jump, [9]), (.closure, [300, 2])] .ret [1] [] rfl).1,
    (each [] .jump [9] _ rfl).2.2 rfl 5⟩

end Skiff
