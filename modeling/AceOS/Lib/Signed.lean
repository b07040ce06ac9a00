import Mathlib.Algebra.Group.Int.Defs
import Mathlib.Tactic.Common

/-!
# Signed words

`Int32` is two's complement and wraps.  Where the exact result of an operation is in range the
word has that value, and these lemmas say so; the value of a word read without a sign is
`toNat_toUInt32`.
-/

namespace Signed

variable {a b : Int32}

theorem toInt_add_of (h₁ : -2 ^ 31 ≤ a.toInt + b.toInt) (h₂ : a.toInt + b.toInt < 2 ^ 31) :
    (a + b).toInt = a.toInt + b.toInt := by
  rw [Int32.toInt_add]
  exact Int.bmod_eq_of_le h₁ h₂

theorem toInt_sub_of (h₁ : -2 ^ 31 ≤ a.toInt - b.toInt) (h₂ : a.toInt - b.toInt < 2 ^ 31) :
    (a - b).toInt = a.toInt - b.toInt := by
  rw [Int32.toInt_sub]
  exact Int.bmod_eq_of_le h₁ h₂

theorem toInt_mul_of (h₁ : -2 ^ 31 ≤ a.toInt * b.toInt) (h₂ : a.toInt * b.toInt < 2 ^ 31) :
    (a * b).toInt = a.toInt * b.toInt := by
  rw [Int32.toInt_mul]
  exact Int.bmod_eq_of_le h₁ h₂

theorem toInt_neg_of (h : -2 ^ 31 < a.toInt) : (-a).toInt = -a.toInt := by
  have hlt := a.toInt_lt
  rw [Int32.toInt_neg]
  exact Int.bmod_eq_of_le (by omega) (by omega)

theorem toNat_toUInt32 (a : Int32) :
    (a.toUInt32.toNat : Int) = if a.toInt < 0 then a.toInt + 2 ^ 32 else a.toInt := by
  have hlt := a.toBitVec.isLt
  have hnat : a.toUInt32.toNat = a.toBitVec.toNat := rfl
  have hint : a.toInt = a.toBitVec.toInt := rfl
  rw [hnat, hint, BitVec.toInt_eq_toNat_cond]
  split <;> split <;> omega

/-- The magnitude, also for the smallest word, whose negation wraps. -/
theorem toNat_toUInt32_neg (h : a.toInt < 0) : (-a).toUInt32.toNat = a.toInt.natAbs := by
  have hlow := a.le_toInt
  have hneg : (-a).toInt = (-a.toInt).bmod (2 ^ 32) := Int32.toInt_neg a
  have hbits := toNat_toUInt32 (-a)
  by_cases hmin : a.toInt = -2 ^ 31
  · rw [hneg, hmin] at hbits
    have hwrap : (-(-2 ^ 31) : Int).bmod (2 ^ 32) = -2 ^ 31 := by decide
    rw [hwrap, if_pos (by decide)] at hbits
    omega
  · rw [toInt_neg_of (by omega), if_neg (by omega)] at hbits
    omega

theorem toNat_toUInt32_of_nonneg (h : 0 ≤ a.toInt) : a.toUInt32.toNat = a.toInt.natAbs := by
  have hbits := toNat_toUInt32 a
  rw [if_neg (by omega)] at hbits
  omega

end Signed
