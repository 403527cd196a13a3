import Mathlib
import Skiff.Proofs.Stateful
import Skiff.Value.Arithmetic

/-!
# Arithmetic of integers, times and characters

Integers are computed with as numbers and cut to 64 bits; shifts are products and quotients by
powers of two, and bit operators go bit by bit. A time moves by integers and differs from another by
one, exactly as long as there is such a time or integer, except that the least integer is not
subtracted but added. A character moves by integers as well; where it comes to is cut to 32 bits.
-/

namespace Skiff

namespace Operator

/-- The number that an operator makes of two numbers. -/
def number? (op : Operator) (a b : Int) : Option Int :=
  match op with
  | .add => some (a + b)
  | .sub => some (a - b)
  | .mul => some (a * b)
  | .quo => if b = 0 then none else some (a.tdiv b)
  | .rem => if b = 0 then none else some (a.tmod b)
  | .shl => if b < 0 then none else some (a * 2 ^ b.toNat)
  | .shr => if b < 0 then none else some (a / 2 ^ b.toNat)
  | _ => none

/-- What an operator makes of two bits in the same place. -/
def bit? : Operator → Option (Bool → Bool → Bool)
  | .and => some fun a b => a && b
  | .or => some fun a b => a || b
  | .xor => some fun a b => a ^^ b
  | .andNot => some fun a b => a && !b
  | _ => none

/-- Whether a comparison holds of two numbers. -/
def test? : Operator → Option (Int → Int → Bool)
  | .less => some fun a b => a < b
  | .lessEq => some fun a b => a ≤ b
  | .greater => some fun a b => b < a
  | .greaterEq => some fun a b => b ≤ a
  | _ => none

end Operator

namespace Heap

variable {heap : Heap} {a b : Int64} {op : Operator}

/-! ## Integers -/

theorem toNat_smod (least : 0 ≤ b) (small : ¬64 ≤ b) :
    (b.toBitVec.smod 64).toNat = b.toInt.toNat := by
  rw [Int64.le_iff_toInt_le] at least small
  have places : (b.toBitVec.smod 64).toInt = b.toInt := by
    rw [BitVec.toInt_smod]
    exact Int.fmod_eq_of_lt least (Int.not_le.1 small)
  rw [← places, BitVec.toInt_eq_toNat_of_msb, Int.toNat_natCast]
  rw [BitVec.msb_eq_toInt, places]
  exact decide_eq_false (Int.not_lt.2 least)

theorem le_toNat (large : 64 ≤ b) : 64 ≤ b.toInt.toNat :=
  Int.toNat_le_toNat (Int64.le_iff_toInt_le.1 large)

/-- A power of two from 2 ^ 64 on is cut to nothing. -/
theorem toInt_shl (least : 0 ≤ b) : (if 64 ≤ b then 0 else a <<< b : Int64).toInt =
    (a.toInt * 2 ^ b.toInt.toNat).bmod (2 ^ 64) := by
  split
  · exact (Int.bmod_eq_zero_of_dvd (Dvd.dvd.mul_left (pow_dvd_pow 2 (le_toNat ‹_›)) _)).symm
  · have word : a.toInt = (a.toBitVec.toNat : Int).bmod (2 ^ 64) := BitVec.toInt_eq_toNat_bmod _
    rw [← Int64.toInt_toBitVec, Int64.toBitVec_shiftLeft, BitVec.shiftLeft_eq',
      toNat_smod least ‹_›, BitVec.toInt_shiftLeft, Nat.shiftLeft_eq, word, Int.bmod_mul_bmod]
    norm_cast

theorem toInt_shr (least : 0 ≤ b) :
    (if 64 ≤ b then (if a < 0 then -1 else 0) else a >>> b : Int64).toInt =
    a.toInt / 2 ^ b.toInt.toNat := by
  split
  · have power : (2 : Int) ^ 64 ≤ 2 ^ b.toInt.toNat := pow_le_pow_right₀ (by decide) (le_toNat ‹_›)
    have low := a.le_toInt
    have high := a.toInt_lt
    split
    · exact (Int.ediv_eq_neg_one_of_neg_of_le (Int64.lt_iff_toInt_lt.1 ‹_›) (by omega)).symm
    · exact (Int.ediv_eq_zero_of_lt (Int64.le_iff_toInt_le.1 (Int64.not_lt.1 ‹_›)) (by omega)).symm
  · rw [← Int64.toInt_toBitVec, Int64.toBitVec_shiftRight, BitVec.toInt_sshiftRight',
      toNat_smod least ‹_›, Int64.toInt_toBitVec, Int.shiftRight_eq_div_pow]
    norm_cast

theorem and_add_andNot : (a &&& b) + (a &&& ~~~b) = a := by
  apply Int64.toBitVec_inj.1
  rw [Int64.toBitVec_add, Int64.toBitVec_and, Int64.toBitVec_and, Int64.toBitVec_not,
    BitVec.add_eq_or_of_and_eq_zero]
  · ext
    simp only [BitVec.getElem_or, BitVec.getElem_and, BitVec.getElem_not]
    grind
  · ext
    simp only [BitVec.getElem_zero, BitVec.getElem_and, BitVec.getElem_not]
    grind

theorem xor_add_and : (a ^^^ b) + (a &&& b) = a ||| b := by
  apply Int64.toBitVec_inj.1
  rw [Int64.toBitVec_add, Int64.toBitVec_and, Int64.toBitVec_xor, Int64.toBitVec_or,
    BitVec.add_eq_or_of_and_eq_zero]
  · ext
    simp only [BitVec.getElem_or, BitVec.getElem_and, BitVec.getElem_xor]
    grind
  · ext
    simp only [BitVec.getElem_zero, BitVec.getElem_and, BitVec.getElem_xor]
    grind

theorem div_mul_add_mod : a / b * b + a % b = a := by
  apply Int64.toInt_inj.1
  rw [Int64.toInt_add, Int64.toInt_mul, Int64.toInt_div, Int64.toInt_mod, Int.bmod_mul_bmod,
    Int.bmod_add_bmod, Int.tdiv_mul_add_tmod]
  exact a.toInt_bmod

theorem binary_int {value : Value} (done : Value.intOperator op a b = .ok (some value)) :
    binary op (.int a) (.int b) heap = .ok value heap := by
  unfold binary
  simp only [resolve, scalarOperator, done]

/-- Integers have all operators; quotients by zero and negative shifts fail. -/
theorem binary_int_error {e : RuntimeError} {after : Heap} :
    binary op (.int a) (.int b) heap = .error e after ↔ after = heap ∧
      ((op = .quo ∨ op = .rem) ∧ b = 0 ∧ e = .divisionByZero ∨
        (op = .shl ∨ op = .shr) ∧ b < 0 ∧ e = .negativeShift b) := by
  unfold binary
  simp only [resolve, scalarOperator]
  cases op with
  | quo | rem => by_cases zero : b = 0 <;> simp [Value.intOperator, zero, eq_comm, and_comm]
  | shl | shr => by_cases negative : b < 0 <;> simp [Value.intOperator, negative, eq_comm, and_comm]
  | _ => simp [Value.intOperator, Operator.compareInt?, Operator.compare?]

theorem intOperator_number {n : Int} (number : op.number? a.toInt b.toInt = some n) :
    ∃ r : Int64, Value.intOperator op a b = .ok (some (.int r)) ∧ r.toInt = n.bmod (2 ^ 64) := by
  have zero : b = 0 ↔ b.toInt = 0 := Int64.toInt_inj.symm
  have sign : b < 0 ↔ b.toInt < 0 := Int64.lt_iff_toInt_lt
  have fits (r : Int64) : r.toInt = r.toInt.bmod (2 ^ 64) := r.toInt_bmod.symm
  cases op with
  | add | sub | mul =>
    cases number
    exact ⟨_, rfl, by simp⟩
  | quo =>
    simp only [Operator.number?, ← zero] at number
    split at number <;> cases number
    exact ⟨a / b, if_neg ‹_›, Int64.toInt_div a b⟩
  | rem =>
    simp only [Operator.number?, ← zero] at number
    split at number <;> cases number
    exact ⟨a % b, if_neg ‹_›, Int64.toInt_mod a b ▸ fits _⟩
  | shl =>
    simp only [Operator.number?, ← sign] at number
    split at number <;> cases number
    exact ⟨_, if_neg ‹_›, toInt_shl (Int64.not_lt.1 ‹_›)⟩
  | shr =>
    simp only [Operator.number?, ← sign] at number
    split at number <;> cases number
    exact ⟨_, if_neg ‹_›, toInt_shr (a := a) (Int64.not_lt.1 ‹_›) ▸ fits _⟩
  | _ => cases number

theorem intOperator_bit {bit : Bool → Bool → Bool} (bits : op.bit? = some bit) :
    ∃ r : Int64, Value.intOperator op a b = .ok (some (.int r)) ∧ ∀ place < 64,
      r.toBitVec.getLsbD place = bit (a.toBitVec.getLsbD place) (b.toBitVec.getLsbD place) := by
  cases op with
  | and | or | xor | andNot =>
    cases bits
    exact ⟨_, rfl, fun place below => by simp [below]⟩
  | _ => cases bits

theorem intOperator_test {test : Int → Int → Bool} (tests : op.test? = some test) :
    Value.intOperator op a b = .ok (some (.bool (test a.toInt b.toInt))) := by
  cases op with
  | less | lessEq | greater | greaterEq =>
    cases tests
    rfl
  | _ => cases tests

/-- An operator on two integers gives the number that it gives in arithmetic, cut to 64 bits, goes
bit by bit, or compares; it fails only on a quotient by zero and a negative shift. -/
theorem binary_integers (heap : Heap) (op : Operator) (a b : Int64) :
    (∀ n, op.number? a.toInt b.toInt = some n →
      ∃ r, binary op (.int a) (.int b) heap = .ok (.int r) heap ∧ r.toInt = n.bmod (2 ^ 64)) ∧
    (∀ bit, op.bit? = some bit → ∃ r, binary op (.int a) (.int b) heap = .ok (.int r) heap ∧
      ∀ place < 64, r.toBitVec.getLsbD place = bit (a.toBitVec.getLsbD place)
        (b.toBitVec.getLsbD place)) ∧
    (∀ test, op.test? = some test →
      binary op (.int a) (.int b) heap = .ok (.bool (test a.toInt b.toInt)) heap) ∧
    (∀ e after, binary op (.int a) (.int b) heap = .error e after ↔ after = heap ∧
      ((op = .quo ∨ op = .rem) ∧ b = 0 ∧ e = .divisionByZero ∨
        (op = .shl ∨ op = .shr) ∧ b < 0 ∧ e = .negativeShift b)) ∧
    (b ≠ 0 → (do
      let product ← binary .mul (← binary .quo (.int a) (.int b)) (.int b)
      binary .add product (← binary .rem (.int a) (.int b))) heap = .ok (.int a) heap) ∧
    (do
      let both ← binary .and (.int a) (.int b)
      binary .add both (← binary .andNot (.int a) (.int b))) heap = .ok (.int a) heap ∧
    (do
      let one ← binary .xor (.int a) (.int b)
      binary .add one (← binary .and (.int a) (.int b))) heap = binary .or (.int a)
        (.int b) heap := by
  refine ⟨fun n number => ?_, fun bit bits => ?_, fun test tests =>
    binary_int (intOperator_test tests), fun e after => binary_int_error, fun divides => ?_, ?_, ?_⟩
  · obtain ⟨r, done, value⟩ := intOperator_number number
    exact ⟨r, binary_int done, value⟩
  · obtain ⟨r, done, value⟩ := intOperator_bit bits
    exact ⟨r, binary_int done, value⟩
  · have quotient : binary .quo (.int a) (.int b) heap = .ok (.int (a / b)) heap :=
      binary_int (if_neg divides)
    have remainder : binary .rem (.int a) (.int b) heap = .ok (.int (a % b)) heap :=
      binary_int (if_neg divides)
    have product : binary .mul (.int (a / b)) (.int b) heap = .ok (.int (a / b * b)) heap :=
      binary_int rfl
    rw [bind_ok quotient, bind_ok product, bind_ok remainder]
    exact (binary_int rfl).trans (by rw [div_mul_add_mod])
  · exact (binary_int rfl : binary .add (.int (a &&& b)) (.int (a &&& ~~~b)) heap = _).trans
      (by rw [and_add_andNot])
  · exact (binary_int rfl : binary .add (.int (a ^^^ b)) (.int (a &&& b)) heap = _).trans (by
      rw [xor_add_and]
      rfl)

/-- A quotient that does not fit, and the law of division for it. -/
theorem binary_integers_least : (do
      let product ← binary .mul (← binary .quo (.int (-0x8000000000000000)) (.int (-1))) (.int (-1))
      binary .add product (← binary .rem (.int (-0x8000000000000000)) (.int (-1)))) {} =
    .ok (.int (-0x8000000000000000)) {} :=
  (binary_integers {} .quo (-0x8000000000000000) (-1)).2.2.2.2.1 (by decide)

/-! ## Times -/

theorem offset_eq {t : Instant} {nanos : Int}
    (there : Instant.representable (t.nanos + nanos) = true) :
    t.offset nanos = ⟨t.nanos + nanos⟩ := if_pos there

/-- A negative magnitude is cut before its sign is put on it, which makes no difference. -/
theorem toInt_difference {s t : Instant} (low : -2 ^ 63 ≤ s.nanos - t.nanos)
    (high : s.nanos - t.nanos < 2 ^ 63) : (s.difference t).toInt = s.nanos - t.nanos := by
  unfold Instant.difference
  dsimp only
  split
  · rw [Int64.toInt_ofInt_of_le (by omega) (by omega)]
    omega
  · rw [← Int64.ofInt_neg, Int64.toInt_ofInt_of_le (by omega) (by omega)]
    omega

/-- A time is moved by exactly as many nanoseconds as an integer says, forwards and backwards, and
back to where it was; times differ by exactly the nanoseconds between them. The least integer has no
counterpart, and subtracting it is adding it. Negation wraps around, as it does where overflow is
not checked, also for a difference of `-2 ^ 63`. -/
theorem binary_times (heap : Heap) (t : Instant) (n : Int64) :
    (Instant.representable (t.nanos + n.toInt) = true →
      binary .add (.time t) (.int n) heap = .ok (.time ⟨t.nanos + n.toInt⟩) heap) ∧
    (n ≠ .minValue → Instant.representable (t.nanos - n.toInt) = true →
      binary .sub (.time t) (.int n) heap = .ok (.time ⟨t.nanos - n.toInt⟩) heap) ∧
    binary .sub (.time t) (.int .minValue) heap = binary .add (.time t) (.int .minValue) heap ∧
    (n ≠ .minValue → Instant.representable t.nanos = true →
      (Instant.representable (t.nanos + n.toInt) = true →
        (do binary .sub (← binary .add (.time t) (.int n)) (.int n)) heap = .ok (.time t) heap) ∧
      (Instant.representable (t.nanos - n.toInt) = true →
        (do binary .add (← binary .sub (.time t) (.int n)) (.int n)) heap = .ok (.time t) heap)) ∧
    ∀ s : Instant, -2 ^ 63 ≤ s.nanos - t.nanos → s.nanos - t.nanos < 2 ^ 63 →
      ∃ d : Int64, binary .sub (.time s) (.time t) heap = .ok (.int d) heap ∧
        d.toInt = s.nanos - t.nanos ∧ (Instant.representable s.nanos = true →
          binary .add (.time t) (.int d) heap = .ok (.time s) heap) := by
  have later {t : Instant} {n : Int64} (there : Instant.representable (t.nanos + n.toInt) = true) :
      binary .add (.time t) (.int n) heap = .ok (.time ⟨t.nanos + n.toInt⟩) heap := by
    rw [← offset_eq there]
    rfl
  have earlier {t : Instant} {n : Int64} (other : n ≠ .minValue)
      (there : Instant.representable (t.nanos - n.toInt) = true) :
      binary .sub (.time t) (.int n) heap = .ok (.time ⟨t.nanos - n.toInt⟩) heap := by
    have negated : (-n).toInt = -n.toInt :=
      BitVec.toInt_neg_of_ne_intMin fun least => other (Int64.toBitVec_inj.1 least)
    rw [Int.sub_eq_add_neg, ← negated] at there ⊢
    rw [← offset_eq there]
    rfl
  refine ⟨later, earlier, rfl, fun other here => ⟨fun there => ?_, fun there => ?_⟩,
    fun s low high => ?_⟩
  · rw [bind_ok (later there)]
    rw [earlier other] <;> simp only [Int.add_sub_cancel, here]
  · rw [bind_ok (earlier other there)]
    rw [later] <;> simp only [Int.sub_add_cancel, here]
  · have exact := toInt_difference low high
    refine ⟨s.difference t, rfl, exact, fun there => ?_⟩
    have back : t.nanos + (s.difference t).toInt = s.nanos := by omega
    rw [later] <;> rw [back]
    exact there

theorem binary_times_least :
    binary .add (.time .epoch) (.int .minValue) {} = .ok (.time ⟨-2 ^ 63⟩) {} ∧
      ∃ d : Int64, binary .sub (.time ⟨-2 ^ 63⟩) (.time .epoch) {} = .ok (.int d) {} ∧
        d.toInt = -2 ^ 63 := by
  obtain ⟨later, -, -, -, difference⟩ := binary_times {} .epoch .minValue
  obtain ⟨d, done, exact, -⟩ := difference ⟨-2 ^ 63⟩ (by decide) (by decide)
  exact ⟨later (by decide), d, done, exact⟩

/-- Subtracting the least integer leads to an earlier time, not to a later one, although there is
one. -/
theorem binary_times_backwards :
    binary .sub (.time .epoch) (.int .minValue) {} = .ok (.time ⟨-2 ^ 63⟩) {} ∧
      Instant.representable (Instant.epoch.nanos - Int64.minValue.toInt) = true ∧
      Instant.epoch.nanos - Int64.minValue.toInt = 2 ^ 63 :=
  ⟨rfl, by decide, by decide⟩

/-! ## Characters -/

/-- What an operator that moves a character gives: the character with a code, or a failure if there
is none. -/
structure MovesTo (heap : Heap) (op : Operator) (left right : Value) (code : Int) : Prop where
  found (c : Char) : (c.toNat : Int) = code → binary op left right heap = .ok (.char c) heap
  missing : (∀ c : Char, (c.toNat : Int) ≠ code) →
    binary op left right heap = .error (.operator op left.type right.type) heap

/-- Numbers that are not the code of another character when they are cut to 32 bits. -/
def NearCodes (code : Int) : Prop := 0x110000 - 2 ^ 32 ≤ code ∧ code < 2 ^ 32

theorem toNat_lt_planes (c : Char) : c.toNat < 0x110000 := by
  have valid : c.toNat.isValidChar := c.valid
  unfold Nat.isValidChar at valid
  omega

section
variable {left right : Value} {code : Int}

theorem movesTo_of_elim (computed : binary op left right heap =
      (Value.charOfInt? code).elim (.error (.operator op left.type right.type) heap) (.ok · heap)) :
    MovesTo heap op left right (code % 2 ^ 32) where
  found c same := by
    have valid : (code % 0x100000000).toNat = c.toNat := by
      rw [← Int.toNat_natCast c.toNat, same]
      rfl
    have char : Literal.charOfCode? c.toNat = some c := dif_pos c.valid
    rw [computed, Value.charOfInt?, valid, char]
    rfl
  missing none := by
    have invalid : ¬(code % 0x100000000).toNat.isValidChar := by
      intro valid
      refine none (Char.ofNatAux _ valid) ?_
      rw [show (Char.ofNatAux _ valid).toNat = (code % 0x100000000).toNat from
        Char.toNat_ofNatAux valid]
      exact Int.toNat_of_nonneg (Int.emod_nonneg _ (by decide))
    rw [computed, Value.charOfInt?, Literal.charOfCode?, dif_neg invalid]
    rfl

theorem MovesTo.exact (moves : MovesTo heap op left right (code % 2 ^ 32)) (near : NearCodes code) :
    MovesTo heap op left right code where
  found c same := moves.found c (by rw [Int.emod_eq_of_lt (by omega) near.2]; exact same)
  missing none := by
    refine moves.missing fun c same => none c ?_
    have small := toNat_lt_planes c
    obtain ⟨low, high⟩ := near
    omega

end

/-- A character moves by exactly as many codes as an integer says, and the move fails where there is
no character, as long as the code is not so far away that it is the code of another character when
it is cut to 32 bits. The distance between characters is what one was moved by to the other. -/
theorem binary_characters (heap : Heap) (c : Char) (n : Int64) :
    (MovesTo heap .add (.char c) (.int n) ((c.toNat + n.toInt) % 2 ^ 32) ∧
      MovesTo heap .add (.int n) (.char c) ((c.toNat + n.toInt) % 2 ^ 32) ∧
      MovesTo heap .sub (.char c) (.int n) ((c.toNat - n.toInt) % 2 ^ 32)) ∧
    (NearCodes (c.toNat + n.toInt) → MovesTo heap .add (.char c) (.int n) (c.toNat + n.toInt) ∧
      MovesTo heap .add (.int n) (.char c) (c.toNat + n.toInt)) ∧
    (NearCodes (c.toNat - n.toInt) → MovesTo heap .sub (.char c) (.int n) (c.toNat - n.toInt)) ∧
    ∀ d : Char, binary .add (.char c) (.int n) heap = .ok (.char d) heap →
      ∃ m : Int64, binary .sub (.char d) (.char c) heap = .ok (.int m) heap ∧
        m.toInt % 2 ^ 32 = n.toInt % 2 ^ 32 ∧ (NearCodes (c.toNat + n.toInt) → m = n) := by
  have behind : MovesTo heap .add (.char c) (.int n) ((c.toNat + n.toInt) % 2 ^ 32) := by
    refine movesTo_of_elim ?_
    unfold binary
    simp only [resolve, scalarOperator]
    cases Value.charOfInt? (c.toNat + n.toInt) <;> rfl
  have before : MovesTo heap .add (.int n) (.char c) ((c.toNat + n.toInt) % 2 ^ 32) := by
    rw [Int.add_comm]
    refine movesTo_of_elim ?_
    unfold binary
    simp only [resolve, scalarOperator]
    cases Value.charOfInt? (n.toInt + c.toNat) <;> rfl
  have back : MovesTo heap .sub (.char c) (.int n) ((c.toNat - n.toInt) % 2 ^ 32) := by
    refine movesTo_of_elim ?_
    unfold binary
    simp only [resolve, scalarOperator]
    cases Value.charOfInt? (c.toNat - n.toInt) <;> rfl
  refine ⟨⟨behind, before, back⟩, fun near => ⟨behind.exact near, before.exact near⟩, back.exact,
    fun d moved => ?_⟩
  have code : (d.toNat : Int) = (c.toNat + n.toInt) % 2 ^ 32 := by
    by_contra other
    by_cases there : ∃ e : Char, (e.toNat : Int) = (c.toNat + n.toInt) % 2 ^ 32
    · obtain ⟨e, same⟩ := there
      cases (behind.found e same).symm.trans moved
      exact other same
    · cases (behind.missing (not_exists.1 there)).symm.trans moved
  have small := toNat_lt_planes d
  have small' := toNat_lt_planes c
  have distance : (Int64.ofInt (d.toNat - c.toNat)).toInt = d.toNat - c.toNat :=
    Int64.toInt_ofInt_of_le (by omega) (by omega)
  refine ⟨.ofInt (d.toNat - c.toNat), rfl, ?_, fun near => ?_⟩
  · rw [distance]
    omega
  · obtain ⟨low, high⟩ := near
    apply Int64.toInt_inj.1
    rw [distance]
    omega

/-- The last character before the surrogates does not move into them. -/
theorem binary_characters_gap :
    binary .add (.char '\ud7ff') (.int 1) {} = .error (.operator .add .char .int) {} ∧
      binary .sub (.char '\ue000') (.int 0x801) {} = .ok (.char '\ud7ff') {} := by
  obtain ⟨-, forwards, -, -⟩ := binary_characters {} '\ud7ff' 1
  obtain ⟨-, -, backwards, -⟩ := binary_characters {} '\ue000' 0x801
  refine ⟨(forwards ⟨by decide, by decide⟩).1.missing fun c same => ?_,
    (backwards ⟨by decide, by decide⟩).found _ (by decide)⟩
  have valid : c.toNat.isValidChar := c.valid
  have code : c.toNat = 0xd800 := by
    have far : (('\ud7ff'.toNat : Int) + (1 : Int64).toInt) = 0xd800 := by decide
    omega
  unfold Nat.isValidChar at valid
  omega

/-- A character that is moved by 2 ^ 32 stays where it is, although there is no character so far
away. -/
theorem binary_characters_far :
    binary .add (.char 'a') (.int 0x100000000) {} = .ok (.char 'a') {} ∧
      binary .add (.int 0x100000000) (.char 'a') {} = .ok (.char 'a') {} ∧
      ∀ c : Char, (c.toNat : Int) ≠ 'a'.toNat + (0x100000000 : Int64).toInt := by
  refine ⟨rfl, rfl, fun c same => ?_⟩
  have small := toNat_lt_planes c
  have far : ('a'.toNat : Int) + (0x100000000 : Int64).toInt = 4294967393 := by decide
  omega

end Heap

end Skiff
