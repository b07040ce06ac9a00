import AceOS.Lib.Memory
import Mathlib.Data.Finset.Card
import Mathlib.Order.Interval.Finset.Nat

/-!
# Bitmaps in memory

A bitmap is a table of 32-bit words from a base address on; bit `i` is bit
`i % 32` of word `i / 32`.  Setting and clearing a bit is a read, a bitwise
operation and a write of one word, and `bit_setBit`, `bit_clearBit` say what that
does to every bit of the map.  `clearSet` is the finite set of clear bits below
a bound: setting a bit erases it there, clearing a bit inserts it.
-/

namespace Bitmap

open Memory

/-- Bitwise complement of a 32-bit word. -/
def not32 (v : Nat) : Nat := 4294967295 - v

theorem testBit_not32 {v : Nat} (h : v < 4294967296) (i : Nat) :
    (not32 v).testBit i = (decide (i < 32) && !v.testBit i) := by
  have h₁ : not32 v = 2 ^ 32 - (v + 1) := by unfold not32; omega
  rw [h₁, Nat.testBit_two_pow_sub_succ (by omega)]

/-- The word that holds bit `i`. -/
def word (m : Mem) (base i : Nat) : Nat := load32 m (base + 4 * (i / 32))

/-- Bit `i` of the map. -/
def bit (m : Mem) (base i : Nat) : Bool := (word m base i).testBit (i % 32)

def setBit (m : Mem) (base i : Nat) : Mem :=
  store32 m (base + 4 * (i / 32)) (word m base i ||| 1 <<< (i % 32))

def clearBit (m : Mem) (base i : Nat) : Mem :=
  store32 m (base + 4 * (i / 32)) (word m base i &&& not32 (1 <<< (i % 32)))

theorem word_lt (m : Mem) (base i : Nat) : word m base i < 2 ^ 32 := load32_lt _ _

theorem one_shiftLeft_lt (i : Nat) : 1 <<< (i % 32) < 2 ^ 32 := by
  rw [Nat.one_shiftLeft]
  exact Nat.pow_lt_pow_right (by decide) (Nat.mod_lt _ (by decide))

theorem and_one_shiftLeft_eq_zero (v b : Nat) : v &&& 1 <<< b = 0 ↔ v.testBit b = false := by
  rw [Nat.one_shiftLeft, Nat.and_two_pow]
  cases v.testBit b
  · simp
  · simp only [Bool.toNat_true, Nat.one_mul, Bool.true_eq_false, iff_false]
    exact (Nat.two_pow_pos b).ne'

theorem word_setBit_self (m : Mem) (base i : Nat) :
    word (setBit m base i) base i = word m base i ||| 1 <<< (i % 32) :=
  load32_store32 (Nat.or_lt_two_pow (word_lt m base i) (one_shiftLeft_lt i))

theorem word_clearBit_self (m : Mem) (base i : Nat) :
    word (clearBit m base i) base i = word m base i &&& not32 (1 <<< (i % 32)) :=
  load32_store32 (lt_of_le_of_lt Nat.and_le_left (word_lt m base i))

theorem word_setBit_of_ne {m : Mem} {base i j : Nat} (h : j / 32 ≠ i / 32) :
    word (setBit m base i) base j = word m base j :=
  load32_store32_of_disjoint (by omega)

theorem word_clearBit_of_ne {m : Mem} {base i j : Nat} (h : j / 32 ≠ i / 32) :
    word (clearBit m base i) base j = word m base j :=
  load32_store32_of_disjoint (by omega)

theorem word_of_div_eq {m : Mem} {base i j : Nat} (h : j / 32 = i / 32) :
    word m base j = word m base i := by
  rw [word, word, h]

/-- **Setting a bit sets that bit and no other.** -/
theorem bit_setBit (m : Mem) (base i j : Nat) :
    bit (setBit m base i) base j = (decide (j = i) || bit m base j) := by
  unfold bit
  by_cases hw : j / 32 = i / 32
  · rw [word_of_div_eq hw, word_setBit_self, word_of_div_eq hw, Nat.testBit_or, Nat.one_shiftLeft,
      Nat.testBit_two_pow, Bool.or_comm]
    congr 1
    exact decide_eq_decide.mpr (by omega)
  · rw [word_setBit_of_ne hw]
    have hne : j ≠ i := fun h => hw (by rw [h])
    simp [hne]

/-- **Clearing a bit clears that bit and no other.** -/
theorem bit_clearBit (m : Mem) (base i j : Nat) :
    bit (clearBit m base i) base j = (!decide (j = i) && bit m base j) := by
  unfold bit
  by_cases hw : j / 32 = i / 32
  · have hj : j % 32 < 32 := Nat.mod_lt _ (by decide)
    have hne : decide (i % 32 = j % 32) = decide (j = i) := decide_eq_decide.mpr (by omega)
    rw [word_of_div_eq hw, word_clearBit_self, word_of_div_eq hw, Nat.testBit_and,
      testBit_not32 (one_shiftLeft_lt i), Nat.one_shiftLeft, Nat.testBit_two_pow, hne,
      decide_eq_true hj, Bool.true_and, Bool.and_comm]
  · rw [word_clearBit_of_ne hw]
    have hne : j ≠ i := fun h => hw (by rw [h])
    simp [hne]

theorem bit_congr {m m' : Mem} {base i : Nat}
    (h : ∀ x, base + 4 * (i / 32) ≤ x → x < base + 4 * (i / 32) + 4 → m x = m' x) :
    bit m base i = bit m' base i := by
  unfold bit word
  rw [load32_congr h]

/-- Setting a bit below `n` writes inside the first `4 * ((n + 31) / 32)` bytes. -/
theorem setBit_of_outside {m : Mem} {base i n x : Nat} (hi : i < n)
    (hx : x < base ∨ base + 4 * ((n + 31) / 32) ≤ x) : setBit m base i x = m x :=
  store32_of_disjoint (by omega)

theorem clearBit_of_outside {m : Mem} {base i n x : Nat} (hi : i < n)
    (hx : x < base ∨ base + 4 * ((n + 31) / 32) ≤ x) : clearBit m base i x = m x :=
  store32_of_disjoint (by omega)

/-! ### The clear bits below a bound -/

/-- The clear bits below `n`. -/
def clearSet (m : Mem) (base n : Nat) : Finset Nat :=
  (Finset.range n).filter (fun i => bit m base i = false)

theorem mem_clearSet {m : Mem} {base n i : Nat} :
    i ∈ clearSet m base n ↔ i < n ∧ bit m base i = false := by
  simp [clearSet]

theorem clearSet_setBit (m : Mem) (base n i : Nat) :
    clearSet (setBit m base i) base n = (clearSet m base n).erase i := by
  ext j
  rw [mem_clearSet, bit_setBit, Finset.mem_erase, mem_clearSet]
  by_cases h : j = i <;> simp [h]

theorem clearSet_clearBit {m : Mem} {base n i : Nat} (hi : i < n) :
    clearSet (clearBit m base i) base n = insert i (clearSet m base n) := by
  ext j
  rw [mem_clearSet, bit_clearBit, Finset.mem_insert, mem_clearSet]
  by_cases h : j = i
  · simp [h, hi]
  · simp [h]

theorem clearSet_congr {m m' : Mem} {base n : Nat}
    (h : ∀ x, base ≤ x → x < base + 4 * ((n + 31) / 32) → m x = m' x) :
    clearSet m base n = clearSet m' base n := by
  ext i
  rw [mem_clearSet, mem_clearSet]
  refine and_congr_right fun hi => ?_
  rw [bit_congr fun x h₁ h₂ => h x (by omega) (by omega)]

theorem clearSet_fill_zero (m : Mem) (base n : Nat) :
    clearSet (fill m base (4 * ((n + 31) / 32)) 0) base n = Finset.range n := by
  ext i
  rw [mem_clearSet, Finset.mem_range]
  refine and_iff_left_of_imp fun hi => ?_
  unfold bit word
  rw [load32_fill_zero (by omega) (by omega), Nat.zero_testBit]

end Bitmap
