import Mathlib
import Skiff.Code.Instr

/-!
# Numbers in byte sequences

Code is read as the list of its bytes. A number that was written with a width is read back cut to
that width, and the bytes of a number that was read are the bytes it was read from.
-/

namespace Skiff

open List Nat

theorem size_eq_length (code : ByteArray) : code.size = code.data.toList.length :=
  (@Array.length_toList _ code.data).symm

theorem byteAt_eq (code : ByteArray) (pos : Nat) :
    byteAt code pos = code.data.toList[pos]?.getD 0 := by
  unfold byteAt
  split
  · rename_i inside
    rw [size_eq_length] at inside
    rw [getElem?_eq_getElem inside]
    rfl
  · rename_i outside
    rw [size_eq_length, not_lt] at outside
    rw [getElem?_eq_none outside]
    rfl

/-- The bytes of a code to which others have been added. -/
theorem toList_foldl_push (bytes : List UInt8) (code : ByteArray) :
    (bytes.foldl ByteArray.push code).data.toList = code.data.toList ++ bytes := by
  induction bytes generalizing code with
  | nil => simp
  | cons byte rest ih =>
    rw [foldl_cons, ih]
    simp [ByteArray.push]

@[simp]
theorem length_littleEndian (width n : Nat) : (littleEndian width n).length = width := by
  induction width generalizing n with
  | zero => rfl
  | succ width ih => simp [littleEndian, ih]

theorem readNumber_lt (code : ByteArray) (pos width : Nat) :
    readNumber code pos width < 256 ^ width := by
  induction width generalizing pos with
  | zero => simp [readNumber]
  | succ width ih =>
    have low := (byteAt code pos).toNat_lt
    have high := ih (pos + 1)
    rw [readNumber, pow_succ]
    omega

/-- A number is read back from where it was written, cut to its width. -/
theorem readNumber_of_drop {code : ByteArray} {pos width n : Nat} {rest : List UInt8}
    (here : code.data.toList.drop pos = littleEndian width n ++ rest) :
    readNumber code pos width = n % 256 ^ width := by
  induction width generalizing pos n with
  | zero => simp [readNumber, mod_one]
  | succ width ih =>
    rw [littleEndian, cons_append] at here
    have first : code.data.toList[pos]? = some (UInt8.ofNat (n % 256)) := by
      have := congrArg head? here
      simpa [head?_drop] using this
    have later : code.data.toList.drop (pos + 1) = littleEndian width (n / 256) ++ rest := by
      have := congrArg tail here
      simpa [tail_drop] using this
    rw [readNumber, ih later, byteAt_eq, first]
    have small : n % 256 % 256 = n % 256 := mod_mod _ _
    simp only [Option.getD_some, UInt8.toNat_ofNat', reducePow, small]
    rw [pow_succ, mul_comm (256 ^ width) 256, mod_mul]

/-- The bytes of a number that was read are those it was read from. -/
theorem littleEndian_readNumber {code : ByteArray} {pos width : Nat}
    (inside : pos + width ≤ code.size) :
    littleEndian width (readNumber code pos width) = (code.data.toList.drop pos).take width := by
  induction width generalizing pos with
  | zero => simp [littleEndian]
  | succ width ih =>
    have here : pos < code.data.toList.length := by rw [← size_eq_length]; omega
    have low := (byteAt code pos).toNat_lt
    have byte : byteAt code pos = code.data.toList[pos] := by
      rw [byteAt_eq, getElem?_eq_getElem here, Option.getD_some]
    rw [readNumber, littleEndian, drop_eq_getElem_cons here, take_succ_cons]
    congr 1
    · rw [add_mul_mod_self_left, mod_eq_of_lt (by simpa using low), ← byte]
      exact UInt8.ofNat_toNat
    · rw [← ih (by omega)]
      congr 1
      omega

end Skiff
