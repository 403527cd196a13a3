import Skiff.Machine.Step
import Skiff.Proofs.Code.Bytes
import Skiff.Proofs.Stateful

/-!
# Codes that are whole instructions

A code decodes fully if its last instruction ends where the code ends. Such a code is spelled by
its instructions, and fetching at the place of an instruction gives that instruction.
-/

namespace Skiff

open List Nat Opcode

namespace Opcode

theorem ofByte?_byte (op : Opcode) : ofByte? op.byte = some op := by
  cases op <;> rfl

variable {op : Opcode}

theorem byte_of_ofByte? {byte : UInt8} (found : ofByte? byte = some op) :
    op.byte = byte := by
  unfold ofByte? at found
  split at found <;> first | (cases found; rfl) | cases found

theorem size_pos (op : Opcode) : 0 < op.size := by
  simp only [size]
  omega

theorem isJump_iff (op : Opcode) :
    op.isJump = true ↔ op = .jump ∨ op = .jumpFalsy ∨ op = .jumpAnd ∨ op = .jumpOr := by
  cases op <;> simp [isJump]

theorem widths_of_isJump (jumps : op.isJump = true) : op.widths = [4] := by
  rcases (isJump_iff op).1 jumps with rfl | rfl | rfl | rfl <;> rfl

theorem length_widths_le (op : Opcode) : op.widths.length ≤ 2 := by
  cases op <;> decide

theorem width_le {width : Nat} (member : width ∈ op.widths) : width ≤ 4 := by
  cases op <;> simp [widths] at member <;> omega

/-- Operands that an instruction can hold: as many as it has fields, each within its width. -/
def Fits (op : Opcode) (operands : List Nat) : Prop :=
  Forall₂ (fun width operand => operand < 256 ^ width) op.widths operands

instance (op : Opcode) (operands : List Nat) : Decidable (op.Fits operands) :=
  inferInstanceAs (Decidable (Forall₂ _ _ _))

end Opcode

/-- The bytes of a code from a place on are these instructions, up to its end. -/
inductive Spells (code : ByteArray) : Nat → List PlacedInstr → Prop where
  | stop : Spells code code.size []
  | instr {pos : Nat} {op : Opcode} {rest : List PlacedInstr} (inside : pos < code.size)
      (opcode : ofByte? (byteAt code pos) = some op)
      (later : Spells code (pos + op.size) rest) :
      Spells code pos (⟨pos, op, op.operandsAt code pos⟩ :: rest)

/-- The last instruction of a code ends where the code ends. -/
def DecodesFully (code : ByteArray) : Prop :=
  (decode code).foldl (fun _ instr => instr.pos + instr.size) 0 = code.size

instance (code : ByteArray) : Decidable (DecodesFully code) :=
  inferInstanceAs (Decidable (_ = _))

variable {code : ByteArray} {pos : Nat} {instrs rest : List PlacedInstr} {op : Opcode}
  {widths : List Nat}

namespace Spells

variable {code : ByteArray} {pos : Nat} {instrs : List PlacedInstr}

theorem pos_le (spelled : Spells code pos instrs) : pos ≤ code.size := by
  cases spelled with
  | stop => exact le_refl _
  | instr inside _ _ => exact le_of_lt inside

variable {instr : PlacedInstr}

/-- The first instruction and what follows it. -/
theorem head (spelled : Spells code pos (instr :: rest)) :
    pos < code.size ∧ ofByte? (byteAt code pos) = some instr.op ∧
      instr = ⟨pos, instr.op, instr.op.operandsAt code pos⟩ ∧
      Spells code (pos + instr.size) rest := by
  cases spelled with
  | instr inside opcode later => exact ⟨inside, opcode, rfl, later⟩

theorem eq_nil_or_cons (spelled : Spells code pos instrs) :
    (pos = code.size ∧ instrs = []) ∨ ∃ instr rest, instrs = instr :: rest ∧ instr.pos = pos := by
  cases spelled with
  | stop => exact .inl ⟨rfl, rfl⟩
  | instr _ _ _ => exact .inr ⟨_, _, rfl, rfl⟩

/-- Every instruction is whole: it ends inside the code. -/
theorem stop_le (spelled : Spells code pos instrs)
    (member : instr ∈ instrs) : instr.pos + instr.size ≤ code.size := by
  induction spelled with
  | stop => cases member
  | instr _ _ later ih =>
    rcases mem_cons.1 member with rfl | member
    · exact later.pos_le
    · exact ih member

theorem le_pos (spelled : Spells code pos instrs) (member : instr ∈ instrs) : pos ≤ instr.pos := by
  induction spelled with
  | stop => cases member
  | instr _ _ _ ih =>
    rcases mem_cons.1 member with rfl | member
    · exact le_refl _
    · exact le_trans (le_add_right _ _) (ih member)

/-- The instructions from the place of one of them on. -/
theorem suffix {before after : List PlacedInstr}
    (spelled : Spells code pos (before ++ instr :: after)) :
    Spells code instr.pos (instr :: after) := by
  induction before generalizing pos with
  | nil =>
    cases spelled with
    | instr inside opcode later => exact .instr inside opcode later
  | cons first before ih =>
    cases spelled with
    | instr _ _ later => exact ih later

theorem of_mem (spelled : Spells code pos instrs)
    (member : instr ∈ instrs) : ∃ after, Spells code instr.pos (instr :: after) := by
  obtain ⟨before, after, rfl⟩ := append_of_mem member
  exact ⟨after, spelled.suffix⟩

end Spells

theorem readOperands_fit (code : ByteArray) (widths : List Nat) (pos : Nat) :
    Forall₂ (fun width operand => operand < 256 ^ width) widths
      (readOperands code widths pos) := by
  induction widths generalizing pos with
  | nil => exact .nil
  | cons width widths ih => exact .cons (readNumber_lt code pos width) (ih _)

/-- What was read as the operands of an instruction fits into one. -/
theorem operandsAt_fits (op : Opcode) (code : ByteArray) (pos : Nat) :
    op.Fits (op.operandsAt code pos) :=
  readOperands_fit code op.widths (pos + 1)

variable {instr : PlacedInstr} {operands : List Nat}

theorem Spells.fits (spelled : Spells code pos instrs) (member : instr ∈ instrs) :
    instr.op.Fits instr.operands := by
  obtain ⟨_, here⟩ := spelled.of_mem member
  obtain ⟨_, _, same, _⟩ := here.head
  rw [same]
  exact operandsAt_fits _ _ _

/-! ## What `decode` finds -/

/-- Where a list of instructions that starts at a place ends. -/
def stopOf (pos : Nat) (instrs : List PlacedInstr) : Nat :=
  instrs.foldl (fun _ instr => instr.pos + instr.size) pos

theorem decodeFrom_spells (code : ByteArray) (pos : Nat) (done : Array PlacedInstr) :
    ∃ instrs, (decodeFrom code pos done).toList = done.toList ++ instrs ∧
      (stopOf pos instrs = code.size → Spells code pos instrs) := by
  induction pos, done using decodeFrom.induct code with
  | case1 pos done inside invalid =>
    refine ⟨[], ?_, ?_⟩
    · rw [decodeFrom]
      simp [inside, invalid]
    · intro ends
      simp only [stopOf, foldl_nil] at ends
      omega
  | case2 pos done inside op opcode ih =>
    obtain ⟨rest, found, spelled⟩ := ih
    refine ⟨⟨pos, op, op.operandsAt code pos⟩ :: rest, ?_, ?_⟩
    · rw [decodeFrom]
      simp [inside, opcode, found]
    · intro ends
      exact .instr inside opcode (spelled (by simpa [stopOf, PlacedInstr.size] using ends))
  | case3 pos done outside =>
    refine ⟨[], ?_, ?_⟩
    · rw [decodeFrom]
      simp [outside]
    · intro ends
      simp only [stopOf, foldl_nil] at ends
      subst ends
      exact .stop

theorem spells_decode (full : DecodesFully code) : Spells code 0 (decode code).toList := by
  obtain ⟨instrs, found, spelled⟩ := decodeFrom_spells code 0 #[]
  have same : (decode code).toList = instrs := by simpa [decode] using found
  rw [same]
  apply spelled
  unfold DecodesFully at full
  rw [← Array.foldl_toList, same] at full
  exact full

theorem decodeFrom_of_spells (spelled : Spells code pos instrs) (done : Array PlacedInstr) :
    (decodeFrom code pos done).toList = done.toList ++ instrs := by
  induction spelled generalizing done with
  | stop =>
    rw [decodeFrom]
    simp
  | instr inside opcode _ ih =>
    rw [decodeFrom]
    simp [inside, opcode, ih]

theorem decode_of_spells (spelled : Spells code 0 instrs) : (decode code).toList = instrs := by
  simpa [decode] using decodeFrom_of_spells spelled #[]

/-- What is decoded has operands that fit. -/
theorem fits_of_mem_decode (member : instr ∈ (decode code).toList) :
    instr.op.Fits instr.operands := by
  have general (pos : Nat) (done : Array PlacedInstr)
      (fit : ∀ instr ∈ done, instr.op.Fits instr.operands) :
      ∀ instr ∈ decodeFrom code pos done, instr.op.Fits instr.operands := by
    induction pos, done using decodeFrom.induct code with
    | case1 pos done inside invalid =>
      rw [decodeFrom, if_pos inside, invalid]
      exact fit
    | case2 pos done inside op found ih =>
      rw [decodeFrom, if_pos inside, found]
      apply ih
      intro instr member
      rcases Array.mem_push.1 member with before | rfl
      · exact fit instr before
      · exact operandsAt_fits op code pos
    | case3 pos done outside =>
      rw [decodeFrom, if_neg outside]
      exact fit
  exact general 0 #[] (by simp) instr (Array.mem_toList_iff.1 member)

theorem Spells.stopOf_eq (spelled : Spells code pos instrs) : stopOf pos instrs = code.size := by
  induction spelled with
  | stop => rfl
  | instr _ _ _ ih => exact ih

theorem decodesFully_of_spells (spelled : Spells code 0 instrs) : DecodesFully code := by
  unfold DecodesFully
  rw [← Array.foldl_toList, decode_of_spells spelled]
  exact spelled.stopOf_eq

/-! ## Fetching -/

/-- The instruction that the machine sees at a place of a code, with the place behind it. -/
def fetchCode? (code : ByteArray) (ip : Nat) : Option (Fetched × Nat) :=
  if ip < code.size then
    match ofByte? (byteAt code ip) with
    | none => none
    | some op => fetchAt? code op ip
  else none

/-- An instruction as the machine fetches it. -/
def PlacedInstr.fetched (instr : PlacedInstr) : Fetched :=
  { op := instr.op, first := instr.operands.getD 0 0, second := instr.operands.getD 1 0 }

theorem fetchAt?_eq (inside : pos + op.size ≤ code.size) :
    fetchAt? code op pos
      = some ((⟨pos, op, op.operandsAt code pos⟩ : PlacedInstr).fetched, pos + op.size) := by
  unfold fetchAt? PlacedInstr.fetched operandsAt
  unfold Opcode.size at inside ⊢
  have short := op.length_widths_le
  match widths : op.widths with
  | [] => simp [readOperands]
  | [width] | [width, other] =>
    rw [widths] at inside
    simp only [foldr_cons, foldr_nil] at inside ⊢
    rw [if_pos (by omega)]
    simp [readOperands, add_assoc]
  | _ :: _ :: _ :: _ =>
    rw [widths] at short
    simp at short

/-- Fetching at the place of an instruction gives that instruction. -/
theorem fetchCode?_of_spells (spelled : Spells code instr.pos (instr :: rest)) :
    fetchCode? code instr.pos = some (instr.fetched, instr.pos + instr.size) := by
  obtain ⟨inside, opcode, same, later⟩ := spelled.head
  unfold fetchCode?
  rw [if_pos inside, opcode]
  have fetched := @fetchAt?_eq code instr.pos instr.op later.pos_le
  rw [← same] at fetched
  exact fetched

theorem fetchCode?_of_mem (spelled : Spells code pos instrs) (member : instr ∈ instrs) :
    fetchCode? code instr.pos = some (instr.fetched, instr.pos + instr.size) := by
  obtain ⟨_, here⟩ := spelled.of_mem member
  exact fetchCode?_of_spells here

/-- A machine that is not stopped takes the instruction that the code has at its place. -/
theorem nextInstr_of_fetchCode? {machine : Machine} {fetched : Fetched × Nat}
    (found : fetchCode? machine.thread.code machine.thread.ip = some fetched)
    (goes : machine.world.tokens.isCancelled machine.thread.token = false) :
    Exec.nextInstr machine = .ok fetched := by
  unfold fetchCode? at found
  unfold Exec.nextInstr
  dsimp only
  split at found
  · rename_i inside
    rw [goes, if_neg Bool.false_ne_true, if_neg (not_le.2 inside)]
    cases opcode : ofByte? (byteAt machine.thread.code machine.thread.ip) with
    | none => rw [opcode] at found; cases found
    | some op =>
      rw [opcode] at found
      dsimp only at found ⊢
      rw [found]
  · cases found

theorem Exec.step_eq {machine : Machine} {instr : Fetched} {depth next : Nat}
    (goes : machine.world.tokens.isCancelled machine.thread.token = false)
    (found : fetchCode? machine.thread.code machine.thread.ip = some (instr, next)) :
    step depth machine = execute depth instr (machine.mapThread (·.moveTo next)) := by
  refine bind_ok ?_
  rw [fetch, nextInstr_of_fetchCode? found goes]

/-! ## Writing instructions -/

/-- Instructions one behind the other from a place on. -/
def placeFrom : Nat → List (Opcode × List Nat) → List PlacedInstr
  | _, [] => []
  | pos, (op, operands) :: rest => ⟨pos, op, operands⟩ :: placeFrom (pos + op.size) rest

/-- The bytes of instructions one behind the other. -/
def encodeAll (instrs : List (Opcode × List Nat)) : List UInt8 :=
  instrs.flatMap fun (op, operands) => op.encode operands

theorem encodeAll_cons (op : Opcode) (operands : List Nat) (rest : List (Opcode × List Nat)) :
    encodeAll ((op, operands) :: rest) = op.encode operands ++ encodeAll rest := by
  rw [encodeAll, flatMap_cons]
  rfl

theorem readOperands_encode {rest : List UInt8} (narrow : ∀ width ∈ widths, width ≤ 4)
    (fit : Forall₂ (fun width operand => operand < 256 ^ width) widths operands)
    (here : code.data.toList.drop pos = encodeOperands widths operands ++ rest) :
    readOperands code widths pos = operands := by
  induction fit generalizing pos with
  | nil => rfl
  | @cons width operand widths operands small fit ih =>
    have below : operand < 0x100000000 := by
      have bound : 256 ^ width ≤ 256 ^ 4 :=
        Nat.pow_le_pow_right (by omega) (narrow width (List.mem_cons_self ..))
      omega
    rw [Opcode.encodeOperands, Nat.mod_eq_of_lt below, List.append_assoc] at here
    have later : code.data.toList.drop (pos + width)
        = encodeOperands widths operands ++ rest := by
      rw [← drop_drop, here]
      exact drop_left' (length_littleEndian width operand)
    rw [readOperands, readNumber_of_drop here, mod_eq_of_lt small]
    rw [ih (fun width member => narrow width (mem_cons_of_mem _ member)) later]

theorem length_encodeOperands
    (fit : Forall₂ (fun width operand => operand < 256 ^ width) widths operands) :
    (encodeOperands widths operands).length = widths.foldr (· + ·) 0 := by
  induction fit with
  | nil => rfl
  | cons _ _ ih => simp [encodeOperands, ih]

theorem length_encode (fit : op.Fits operands) : (op.encode operands).length = op.size := by
  rw [Opcode.encode, length_cons, length_encodeOperands fit, Opcode.size, add_comm]

/-- Instructions that were written one behind the other up to the end of a code are read back. -/
theorem spells_encodeAll {instrs : List (Opcode × List Nat)}
    (fit : ∀ instr ∈ instrs, instr.1.Fits instr.2)
    (inside : pos ≤ code.size) (here : code.data.toList.drop pos = encodeAll instrs) :
    Spells code pos (placeFrom pos instrs) := by
  induction instrs generalizing pos with
  | nil =>
    have ends : code.size ≤ pos := by
      rw [size_eq_length]
      exact drop_eq_nil_iff.1 here
    have same : pos = code.size := le_antisymm inside ends
    subst same
    exact .stop
  | cons instr rest ih =>
    obtain ⟨op, operands⟩ := instr
    have fitHere : op.Fits operands := fit _ (mem_cons_self ..)
    have split : code.data.toList.drop pos
        = op.byte :: (encodeOperands op.widths operands ++ encodeAll rest) := by
      rw [here, encodeAll_cons, Opcode.encode, cons_append]
    have first : code.data.toList[pos]? = some op.byte := by
      simpa [head?_drop] using congrArg head? split
    have operandBytes : code.data.toList.drop (pos + 1)
        = encodeOperands op.widths operands ++ encodeAll rest := by
      simpa [tail_drop] using congrArg tail split
    have within : pos + op.size ≤ code.size := by
      have total := congrArg length split
      rw [length_drop, ← size_eq_length, length_cons, length_append,
        length_encodeOperands fitHere] at total
      rw [Opcode.size]
      omega
    have read : op.operandsAt code pos = operands :=
      readOperands_encode (fun _ member => width_le member) fitHere operandBytes
    have later : code.data.toList.drop (pos + op.size) = encodeAll rest := by
      rw [← drop_drop, here, encodeAll_cons]
      exact drop_left' (length_encode fitHere)
    have opcode : ofByte? (byteAt code pos) = some op := by
      rw [byteAt_eq, first, Option.getD_some, ofByte?_byte]
    have spelled := ih (fun instr member => fit instr (mem_cons_of_mem _ member)) within later
    have positive := op.size_pos
    have whole := Spells.instr (by omega) opcode spelled
    rw [read] at whole
    exact whole

end Skiff
