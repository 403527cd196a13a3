import Mathlib
import Skiff.Number.Numeral

/-!
# Digits

Characters that stand for digits, and the numbers that rows of digits spell.
-/

namespace Skiff

open Nat

namespace Numeral

/-- A character stands for a digit; letters, in either case, for digits above nine. -/
def DigitOf (radix digit : Nat) (c : Char) : Prop :=
  digit < radix ∧ c.toLower = digitChar digit

/-- Digits, the highest first, spell a number. -/
def Spells (radix : Nat) (text : List Char) (value : Nat) : Prop :=
  ∃ digits, List.Forall₂ (DigitOf radix) digits text ∧ value = ofDigits radix digits.reverse

variable {radix digit value : Nat} {c : Char} {text : List Char}

theorem le_iff_toNat (a b : Char) : a ≤ b ↔ a.toNat ≤ b.toNat := by
  rw [Char.le_def, UInt32.le_iff_toNat_le]
  rfl

theorem digitValue?_eq_some_iff (small : radix ≤ 16) :
    digitValue? radix c = some digit ↔ DigitOf radix digit c := by
  have values : digitValue? radix c = (digitValue? 16 c).filter (· < radix) := by
    unfold digitValue?
    simp only [Option.filter_filter]
    congr
    funext n
    simp
    omega
  have hex (below : digit < 16) : digitValue? 16 c = some digit ↔ c.toLower = digitChar digit := by
    by_cases ascii : c.toNat < 128
    · have each : ∀ n < 128, ∀ digit < 16, digitValue? 16 (Char.ofNat n) = some digit ↔
          (Char.ofNat n).toLower = digitChar digit := by decide +kernel
      simpa using each c.toNat ascii digit below
    · have other : c.toLower = c := by
        unfold Char.toLower
        rw [dif_neg]
        intro upper
        have low := UInt32.le_iff_toNat_le.1 upper.2
        change c.toNat ≤ 90 at low
        omega
      have each : ∀ digit < 16, (digitChar digit).toNat < 128 := by decide
      have none : digitValue? 16 c = none := by
        simp only [digitValue?, le_iff_toNat, Char.reduceToNat]
        rw [if_neg (by omega), if_neg (by omega), if_neg (by omega)]
        rfl
      rw [other, none]
      refine iff_of_false (Option.some_ne_none digit).symm ?_
      rintro rfl
      exact ascii (each digit below)
  rw [values, Option.filter_eq_some_iff, decide_eq_true_iff, DigitOf, and_comm]
  exact and_congr_right fun below => hex (by omega)

theorem ofDigits_reverse (radix : Nat) (digits : List Nat) :
    ofDigits radix digits.reverse = digits.foldl (fun n digit => n * radix + digit) 0 := by
  rw [List.foldl_eq_foldr_reverse, ofDigits_eq_foldr]
  congr
  funext digit n
  exact (add_comm ..).trans (congrArg (· + digit) (mul_comm ..))

/-- A second sign is read behind a plus, but not behind a minus. -/
theorem readInt_second_sign : readInt "+-5".toList = .ok (-5) ∧
    readInt "-+5".toList = .error .invalidDigit := by
  decide +kernel

end Numeral

end Skiff
