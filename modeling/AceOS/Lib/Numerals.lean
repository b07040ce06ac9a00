import Mathlib.Algebra.Ring.Nat
import Mathlib.Data.List.Basic
import Mathlib.Tactic.Common

/-!
# Numerals as bytes

The digits of `Nat.toDigits` as ASCII bytes, the most significant one first and none of them
a leading zero.  A loop that divides by the base meets them from the other end
(`numeral_of_le`).
-/

namespace Numerals

/-- The byte of a digit. -/
def digitByte (d : Nat) : UInt8 := UInt8.ofNat d.digitChar.toNat

def numeral (base n : Nat) : List UInt8 :=
  (Nat.toDigits base n).map fun c => UInt8.ofNat c.toNat

/-- The byte `'-'`. -/
abbrev minus : UInt8 := 45

/-- The decimal numeral of a signed number. -/
def decimal (v : Int) : List UInt8 :=
  if v < 0 then minus :: numeral 10 v.natAbs else numeral 10 v.natAbs

variable {base n k : Nat}

theorem numeral_of_lt (h : n < base) : numeral base n = [digitByte n] := by
  rw [numeral, Nat.toDigits_of_lt_base h]
  rfl

theorem numeral_of_le (hb : 1 < base) (h : base ≤ n) :
    numeral base n = numeral base (n / base) ++ [digitByte (n % base)] := by
  rw [numeral, Nat.toDigits_of_base_le hb h, List.map_append]
  rfl

theorem length_numeral_le (hb : 1 < base) (hk : 0 < k) (h : n < base ^ k) :
    (numeral base n).length ≤ k := by
  rw [numeral, List.length_map, Nat.length_toDigits_le_iff hb hk]
  exact h

theorem length_numeral_pos : 0 < (numeral base n).length := by
  rw [numeral, List.length_map]
  exact Nat.length_toDigits_pos

/-- The digits below ten are the bytes from `'0'` on. -/
theorem digitByte_toNat {d : Nat} (h : d < 10) : (digitByte d).toNat = 48 + d := by
  rw [digitByte, Nat.toNat_digitChar_of_lt_ten h, UInt8.toNat_ofNat', Nat.mod_eq_of_lt (by omega)]

theorem digitByte_ne_zero {d : Nat} (h : d < 16) : digitByte d ≠ 0 := by
  have hall : ∀ e < 16, digitByte e ≠ 0 := by decide
  exact hall d h

theorem numeral_noNul (hb : 1 < base) (hbase : base ≤ 16) : (0 : UInt8) ∉ numeral base n := by
  induction n using Nat.strongRecOn with
  | ind n ih =>
      by_cases hlt : n < base
      · rw [numeral_of_lt hlt, List.mem_singleton]
        exact (digitByte_ne_zero (by omega)).symm
      · rw [numeral_of_le hb (by omega), List.mem_append, List.mem_singleton, not_or]
        have hmod := Nat.mod_lt n (show base > 0 by omega)
        exact ⟨ih (n / base) (Nat.div_lt_self (by omega) hb), (digitByte_ne_zero (by omega)).symm⟩

theorem mem_numeral_ten {c : UInt8} (hc : c ∈ numeral 10 n) : 48 ≤ c.toNat ∧ c.toNat ≤ 57 := by
  induction n using Nat.strongRecOn with
  | ind n ih =>
      by_cases hlt : n < 10
      · rw [numeral_of_lt hlt, List.mem_singleton] at hc
        rw [hc, digitByte_toNat hlt]
        omega
      · rw [numeral_of_le (by decide) (by omega), List.mem_append, List.mem_singleton] at hc
        rcases hc with hc | rfl
        · exact ih (n / 10) (by omega) hc
        · rw [digitByte_toNat (by omega)]
          omega

end Numerals
