import Mathlib.Tactic.Common
import Mathlib.Data.Nat.Bitwise

/-!
# Byte memory and 32-bit words

A memory gives a byte for every address.  Words are four bytes, low byte first,
and are read as natural numbers below `2 ^ 32`; addresses and word values are
numbers too, so that `omega` reasons about them, and the arithmetic that wraps
is written out as `add32`, `sub32`, `mul32`.

Two kinds of lemmas are used by everything above: what a store leaves at its
own address (`load32_store32`), and what it leaves alone
(`load32_store32_of_disjoint`, `load32_congr`).
-/

namespace Memory

/-! ### Arithmetic modulo `2 ^ 32` -/

@[irreducible] def add32 (a b : Nat) : Nat := (a + b) % 4294967296

@[irreducible] def sub32 (a b : Nat) : Nat := (4294967296 - b % 4294967296 + a) % 4294967296

@[irreducible] def mul32 (a b : Nat) : Nat := (a * b) % 4294967296

theorem add32_lt (a b : Nat) : add32 a b < 4294967296 := by
  rw [add32]
  exact Nat.mod_lt _ (by decide)

theorem add32_of_lt {a b : Nat} (h : a + b < 4294967296) : add32 a b = a + b := by
  rw [add32, Nat.mod_eq_of_lt h]

theorem sub32_of_le {a b : Nat} (ha : a < 4294967296) (h : b ≤ a) : sub32 a b = a - b := by
  rw [sub32]
  omega

theorem add32_sub32 {a b : Nat} (ha : a < 4294967296) :
    add32 (sub32 a b) b = a := by
  rw [add32, sub32]
  omega

/-! ### Bytes -/

/-- A memory: the byte at every address. -/
@[ext] structure Mem where
  byte : Nat → UInt8

instance : CoeFun Mem (fun _ => Nat → UInt8) := ⟨Mem.byte⟩

def store8 (m : Mem) (a : Nat) (v : UInt8) : Mem := ⟨fun x => if x = a then v else m x⟩

@[simp] theorem store8_self (m : Mem) (a : Nat) (v : UInt8) : store8 m a v a = v := if_pos rfl

theorem store8_of_ne {m : Mem} {a x : Nat} {v : UInt8} (h : x ≠ a) : store8 m a v x = m x :=
  if_neg h

def storeBytes (m : Mem) (a : Nat) (bs : List UInt8) : Mem :=
  ⟨fun x => if h : a ≤ x ∧ x - a < bs.length then bs[x - a] else m x⟩

theorem storeBytes_of_disjoint {m : Mem} {a x : Nat} {bs : List UInt8}
    (h : x < a ∨ a + bs.length ≤ x) : storeBytes m a bs x = m x := by
  simp only [storeBytes]
  rw [dif_neg (by omega)]

theorem storeBytes_apply {m : Mem} {a i : Nat} {bs : List UInt8} (h : i < bs.length) :
    storeBytes m a bs (a + i) = bs[i] := by
  have hi : a + i - a = i := by omega
  simp [storeBytes, hi, h]

theorem storeBytes_cons (m : Mem) (a : Nat) (c : UInt8) (bs : List UInt8) :
    storeBytes m a (c :: bs) = storeBytes (store8 m a c) (a + 1) bs := by
  ext x
  by_cases hx : x = a
  · have hfirst : storeBytes m a (c :: bs) (a + 0) = c := storeBytes_apply (Nat.succ_pos bs.length)
    rw [hx, storeBytes_of_disjoint (a := a + 1) (Or.inl (Nat.lt_succ_self a)), store8_self]
    exact congrArg UInt8.toNat hfirst
  · by_cases hm : a ≤ x ∧ x < a + (bs.length + 1)
    · obtain ⟨i, rfl⟩ := Nat.exists_eq_add_of_le (show a + 1 ≤ x by omega)
      have hi : a + 1 + i = a + (i + 1) := by omega
      rw [storeBytes_apply (show i < bs.length by omega), hi,
        storeBytes_apply (show i + 1 < (c :: bs).length by rw [List.length_cons]; omega)]
      rfl
    · rw [storeBytes_of_disjoint (by rw [List.length_cons]; omega),
        storeBytes_of_disjoint (by omega), store8_of_ne hx]

/-- The `n` bytes from an address on. -/
def loadBytes (m : Mem) (a n : Nat) : List UInt8 := (List.range n).map (fun i => m (a + i))

@[simp] theorem loadBytes_length (m : Mem) (a n : Nat) : (loadBytes m a n).length = n := by
  simp [loadBytes]

theorem loadBytes_congr {m m' : Mem} {a n : Nat} (h : ∀ x, a ≤ x → x < a + n → m x = m' x) :
    loadBytes m a n = loadBytes m' a n := by
  unfold loadBytes
  refine List.map_congr_left fun i hi => ?_
  have := List.mem_range.mp hi
  exact h (a + i) (by omega) (by omega)

theorem loadBytes_storeBytes (m : Mem) (a n : Nat) (bs : List UInt8) (h : n ≤ bs.length) :
    loadBytes (storeBytes m a bs) a n = bs.take n := by
  refine List.ext_getElem (by simp; omega) fun i h₁ h₂ => ?_
  rw [loadBytes_length] at h₁
  simp [loadBytes, storeBytes_apply (show i < bs.length by omega)]

theorem take_loadBytes (m : Mem) (a n k : Nat) :
    (loadBytes m a n).take k = loadBytes m a (min k n) := by
  rw [loadBytes, loadBytes, ← List.map_take, List.take_range]

/-- Fill `n` bytes with one value. -/
def fill (m : Mem) (a n : Nat) (v : UInt8) : Mem :=
  ⟨fun x => if a ≤ x ∧ x < a + n then v else m x⟩

theorem fill_of_disjoint {m : Mem} {a n x : Nat} {v : UInt8} (h : x < a ∨ a + n ≤ x) :
    fill m a n v x = m x := if_neg (by omega)

theorem fill_of_mem {m : Mem} {a n x : Nat} {v : UInt8} (h₁ : a ≤ x) (h₂ : x < a + n) :
    fill m a n v x = v := if_pos ⟨h₁, h₂⟩

/-! ### Words -/

def load32 (m : Mem) (a : Nat) : Nat :=
  (m a).toNat + 256 * (m (a + 1)).toNat + 65536 * (m (a + 2)).toNat
    + 16777216 * (m (a + 3)).toNat

def store32 (m : Mem) (a v : Nat) : Mem :=
  ⟨fun x =>
    if x = a then UInt8.ofNat v
    else if x = a + 1 then UInt8.ofNat (v / 256)
    else if x = a + 2 then UInt8.ofNat (v / 65536)
    else if x = a + 3 then UInt8.ofNat (v / 16777216)
    else m x⟩

theorem load32_lt (m : Mem) (a : Nat) : load32 m a < 4294967296 := by
  have h₀ := (m a).toNat_lt
  have h₁ := (m (a + 1)).toNat_lt
  have h₂ := (m (a + 2)).toNat_lt
  have h₃ := (m (a + 3)).toNat_lt
  unfold load32
  omega

/-- A word read back is the value stored, modulo `2 ^ 32`. -/
theorem load32_store32_mod (m : Mem) (a v : Nat) :
    load32 (store32 m a v) a = v % 4294967296 := by
  simp only [load32, store32, ite_true, UInt8.toNat_ofNat', show ¬a + 1 = a by omega,
    show ¬a + 2 = a by omega, show ¬a + 3 = a by omega, show ¬a + 2 = a + 1 by omega,
    show ¬a + 3 = a + 1 by omega, show ¬a + 3 = a + 2 by omega, if_false]
  omega

theorem load32_store32 {m : Mem} {a v : Nat} (h : v < 4294967296) :
    load32 (store32 m a v) a = v := by
  rw [load32_store32_mod, Nat.mod_eq_of_lt h]

theorem store32_of_disjoint {m : Mem} {a v x : Nat} (h : x < a ∨ a + 4 ≤ x) :
    store32 m a v x = m x := by
  simp only [store32, show ¬x = a by omega, show ¬x = a + 1 by omega, show ¬x = a + 2 by omega,
    show ¬x = a + 3 by omega, if_false]

theorem load32_congr {m m' : Mem} {a : Nat} (h : ∀ x, a ≤ x → x < a + 4 → m x = m' x) :
    load32 m a = load32 m' a := by
  rw [load32, load32, h a (by omega) (by omega), h (a + 1) (by omega) (by omega),
    h (a + 2) (by omega) (by omega), h (a + 3) (by omega) (by omega)]

theorem load32_store32_of_disjoint {m : Mem} {a b v : Nat} (h : a + 4 ≤ b ∨ b + 4 ≤ a) :
    load32 (store32 m b v) a = load32 m a :=
  load32_congr fun x h₁ h₂ => store32_of_disjoint (by omega)

theorem load32_fill_zero {m : Mem} {a b n : Nat} (h₁ : b ≤ a) (h₂ : a + 4 ≤ b + n) :
    load32 (fill m b n 0) a = 0 := by
  rw [load32, fill_of_mem (by omega) (by omega), fill_of_mem (by omega) (by omega),
    fill_of_mem (by omega) (by omega), fill_of_mem (by omega) (by omega)]
  rfl

/-! ### Bit fields of a word -/

/-- The field of `len` bits that starts at bit `off`. -/
def getBits (w off len : Nat) : Nat := w / 2 ^ off % 2 ^ len

/-- The word with that field replaced. -/
def setBits (w off len v : Nat) : Nat :=
  w % 2 ^ off + 2 ^ off * (v % 2 ^ len + 2 ^ len * (w / 2 ^ off / 2 ^ len))

theorem setBits_div (w off len v : Nat) :
    setBits w off len v / 2 ^ off = v % 2 ^ len + 2 ^ len * (w / 2 ^ off / 2 ^ len) := by
  have hpos : 0 < 2 ^ off := Nat.two_pow_pos off
  rw [setBits, Nat.add_mul_div_left _ _ hpos, Nat.div_eq_of_lt (Nat.mod_lt w hpos), Nat.zero_add]

theorem getBits_setBits_self (w off len v : Nat) :
    getBits (setBits w off len v) off len = v % 2 ^ len := by
  rw [getBits, setBits_div, Nat.add_mul_mod_self_left, Nat.mod_mod]

theorem getBits_setBits_of_ge {w off len v off' len' : Nat} (h : off' + len' ≤ off) :
    getBits (setBits w off len v) off' len' = getBits w off' len' := by
  obtain ⟨k, rfl⟩ := Nat.exists_eq_add_of_le h
  have hmod : ∀ x, x / 2 ^ off' % 2 ^ len'
      = x % 2 ^ (off' + len' + k) % (2 ^ off' * 2 ^ len') / 2 ^ off' := by
    intro x
    rw [Nat.pow_add, Nat.pow_add, Nat.mod_mul_right_mod, Nat.mod_mul_right_div_self]
  rw [getBits, getBits, hmod, hmod w, setBits, Nat.add_mul_mod_self_left, Nat.mod_mod]

theorem setBits_lt {w off len v n : Nat} (hw : w < 2 ^ n) (h : off + len ≤ n) :
    setBits w off len v < 2 ^ n := by
  obtain ⟨k, rfl⟩ := Nat.exists_eq_add_of_le h
  have h₁ : w / 2 ^ off / 2 ^ len < 2 ^ k := by
    rw [Nat.div_div_eq_div_mul, ← Nat.pow_add]
    exact Nat.div_lt_of_lt_mul (by rwa [← Nat.pow_add])
  have h₂ := Nat.mod_lt v (Nat.two_pow_pos len)
  have h₃ := Nat.mod_lt w (Nat.two_pow_pos off)
  have h₄ : v % 2 ^ len + 2 ^ len * (w / 2 ^ off / 2 ^ len) < 2 ^ len * 2 ^ k := by
    have := Nat.mul_le_mul_left (2 ^ len) (Nat.succ_le_of_lt h₁)
    rw [Nat.mul_succ] at this
    omega
  rw [setBits, Nat.pow_add, Nat.pow_add, Nat.mul_assoc]
  have := Nat.mul_le_mul_left (2 ^ off) (Nat.succ_le_of_lt h₄)
  rw [Nat.mul_succ] at this
  omega

def setField (m : Mem) (a off len v : Nat) : Mem := store32 m a (setBits (load32 m a) off len v)

theorem setField_of_disjoint {m : Mem} {a off len v x : Nat} (h : x < a ∨ a + 4 ≤ x) :
    setField m a off len v x = m x := store32_of_disjoint h

theorem load32_setField {m : Mem} {a off len v : Nat} (h : off + len ≤ 32) :
    load32 (setField m a off len v) a = setBits (load32 m a) off len v :=
  load32_store32 (setBits_lt (load32_lt m a) h)

end Memory
