import AceOS.Lib.Memory
import AceOS.Libc.Stdio

/-!
# Integers and text (`itoa` in `src/kernel/pmm.c`, `atoi` in `src/libc/stdlib.c`)

`itoa` divides with a sign: a negative value that is not negated first has remainders that are
not positive, and its digits are looked up before the table.  Only a value printed in base 10
is negated, and the smallest one stays negative (`itoa_iff`).  `print_int` divides without a
sign.
-/

namespace AceOS.Libc

open Numerals

/-! ### `atoi` -/

/-- `' '`, `'\t'` and `'\n'`. -/
def isBlank (c : UInt8) : Bool := c = 32 ∨ c = 9 ∨ c = 10

def atoiDigits : (nptr : List UInt8) → (result : Int32) → Int32
  | [], result => result
  | c :: nptr, result =>
      if 48 ≤ c ∧ c ≤ 57 then atoiDigits nptr (result * 10 + (Int32.ofNat c.toNat - 48))
      else result

def atoi (nptr : List UInt8) : Int32 :=
  let nptr := nptr.dropWhile isBlank
  if nptr.head? = some minus then -1 * atoiDigits nptr.tail 0
  else if nptr.head? = some 43 then 1 * atoiDigits nptr.tail 0
  else 1 * atoiDigits nptr 0

theorem atoiDigits_digit {d : Nat} (hd : d < 10) (n : Nat) (rest : List UInt8) :
    atoiDigits (digitByte d :: rest) (Int32.ofNat n)
      = atoiDigits rest (Int32.ofNat (n * 10 + d)) := by
  have hnat := digitByte_toNat hd
  have hrange : 48 ≤ digitByte d ∧ digitByte d ≤ 57 := by
    rw [UInt8.le_iff_toNat_le, UInt8.le_iff_toNat_le, hnat]
    exact ⟨Nat.le_add_right 48 d, show 48 + d ≤ 57 by omega⟩
  have hdigit : Int32.ofNat (48 + d) - 48 = Int32.ofNat d := by
    rw [Nat.add_comm, Int32.ofNat_add]
    exact Int32.add_sub_cancel ..
  rw [atoiDigits, if_pos hrange, hnat, hdigit, Int32.ofNat_add, Int32.ofNat_mul]
  rfl

theorem atoiDigits_numeral (n : Nat) (rest : List UInt8) :
    atoiDigits (numeral 10 n ++ rest) 0 = atoiDigits rest (Int32.ofNat n) := by
  induction n using Nat.strongRecOn generalizing rest with
  | ind n ih =>
      by_cases hlt : n < 10
      · have hone := atoiDigits_digit hlt 0 rest
        rw [Nat.zero_mul, Nat.zero_add] at hone
        rw [numeral_of_lt hlt]
        exact hone
      · rw [numeral_of_le (by decide) (by omega), List.append_assoc, ih (n / 10) (by omega),
          List.singleton_append, atoiDigits_digit (by omega)]
        congr 2
        omega

theorem atoiDigits_numeral_nil (n : Nat) : atoiDigits (numeral 10 n) 0 = Int32.ofInt n := by
  have h := atoiDigits_numeral n []
  rw [List.append_nil] at h
  rw [h, Int32.ofInt_eq_ofNat]
  rfl

theorem atoi_of_unsigned {c : UInt8} (hc : 48 ≤ c.toNat) (cs : List UInt8) :
    atoi (c :: cs) = 1 * atoiDigits (c :: cs) 0 := by
  have hne : ∀ e : UInt8, e.toNat < 48 → c ≠ e := by
    rintro e he rfl
    exact absurd he (Nat.not_lt.mpr hc)
  have hblank : ¬isBlank c = true := by
    rw [isBlank, decide_eq_true_iff]
    rintro (h | h | h)
    · exact hne 32 (by decide) h
    · exact hne 9 (by decide) h
    · exact hne 10 (by decide) h
  have hsign : ∀ e : UInt8, e.toNat < 48 → (c :: cs).head? ≠ some e := fun e he hhead =>
    hne e he (Option.some.inj hhead)
  rw [atoi, List.dropWhile_cons_of_neg hblank, if_neg (hsign minus (by decide)),
    if_neg (hsign 43 (by decide))]

/-- **`atoi` reads a decimal numeral.** -/
theorem atoi_decimal (v : Int32) : atoi (decimal v.toInt) = v := by
  have hdigits := atoiDigits_numeral_nil v.toInt.natAbs
  by_cases hlt : v.toInt < 0
  · have habs : (v.toInt.natAbs : Int) = -v.toInt := by omega
    rw [decimal, if_pos hlt, atoi]
    have hdrop : (minus :: numeral 10 v.toInt.natAbs).dropWhile isBlank
        = minus :: numeral 10 v.toInt.natAbs := rfl
    rw [hdrop, if_pos (List.head?_cons ..), List.tail_cons, hdigits, habs, Int32.ofInt_neg,
      Int32.ofInt_toInt, Int32.neg_mul_neg, Int32.one_mul]
  · have habs : (v.toInt.natAbs : Int) = v.toInt := by omega
    have hlen : 0 < (numeral 10 v.toInt.natAbs).length := length_numeral_pos
    obtain ⟨c, cs, hcons⟩ := List.exists_cons_of_length_pos hlen
    obtain ⟨hlow, -⟩ := mem_numeral_ten (hcons ▸ List.mem_cons_self : c ∈ numeral 10 v.toInt.natAbs)
    rw [decimal, if_neg hlt, hcons, atoi_of_unsigned hlow, ← hcons, hdigits, habs,
      Int32.ofInt_toInt, Int32.one_mul]

end AceOS.Libc

namespace AceOS.Kernel

open Memory Libc Numerals

/-! ### `itoa` -/

/-- `"0123456789abcdef"[i]`; an index outside the table is `none`. -/
def digitAt (i : Int32) : Option UInt8 := if 0 ≤ i then digits[i.toInt.toNat]? else none

/-- `do … while (value)`: the pointer behind the digits. -/
def itoaLoop (base : Int32) : (fuel : Nat) → (value : Int32) → (ptr : Nat) → Mem →
    Option (Nat × Mem)
  | 0, _, _, _ => none
  | fuel + 1, value, ptr, m => do
      let tmpValue := value
      let value := value / base
      let c ← digitAt (tmpValue - value * base)
      let m := store8 m ptr c
      if value ≠ 0 then itoaLoop base fuel value (ptr + 1) m else some (ptr + 1, m)

/-- `while (ptr1 < ptr)`. -/
def reverseLoop : (fuel ptr1 ptr : Nat) → Mem → Option Mem
  | 0, _, _, _ => none
  | fuel + 1, ptr1, ptr, m =>
      if ptr1 < ptr then
        let tmpChar := m ptr
        let m := store8 m ptr (m ptr1)
        let m := store8 m ptr1 tmpChar
        reverseLoop fuel (ptr1 + 1) (ptr - 1) m
      else some m

/-- `itoa` behind the sign.  A base of at least 2 gives at most 32 digits. -/
def itoaDigits (value : Int32) (str : Nat) (base : Int32) (m : Mem) : Option Mem := do
  let (ptr, m) ← itoaLoop base 32 value str m
  let m := store8 m ptr 0
  reverseLoop 32 str (ptr - 1) m

def itoa (value : Int32) (str : Nat) (base : Int32) (m : Mem) : Option Mem :=
  if value < 0 ∧ base = 10 then itoaDigits (-value) (str + 1) base (store8 m str minus)
  else itoaDigits value str base m

/-! ### Digits -/

section Digits

variable {value base : Int32} {b w : Nat}

/-- **One division** of a value of either sign. -/
theorem toInt_divide (hbase : base.toInt = b) (hb : 1 < b) {s : Int} (hs : s = 1 ∨ s = -1)
    (hvalue : value.toInt = s * w) : (value / base).toInt = s * (w / b : Nat) ∧
      (value - value / base * base).toInt = s * (w % b : Nat) := by
  have hlow := value.le_toInt
  have hhigh := value.toInt_lt
  have hone : base ≠ -1 := by
    rintro rfl
    have hminus : (-1 : Int32).toInt = -1 := by decide
    omega
  have hquot : (value / base).toInt = s * (w / b : Nat) := by
    rw [Int32.toInt_div_of_ne_right _ _ hone, hbase, hvalue]
    rcases hs with rfl | rfl
    · rw [Int.one_mul, Int.one_mul]
      exact (Int.ofNat_tdiv w b).symm
    · rw [Int.neg_one_mul, Int.neg_one_mul, Int.neg_tdiv]
      exact congrArg Neg.neg (Int.ofNat_tdiv w b).symm
  have hle : w / b * b ≤ w := Nat.div_mul_le_self w b
  have hmod : w = w / b * b + w % b := (Nat.div_add_mod' w b).symm
  have hprod : (value / base * base).toInt = s * (w / b * b : Nat) := by
    have hexact : (value / base).toInt * base.toInt = s * (w / b * b : Nat) := by
      rw [hquot, hbase, Int.mul_assoc, Int.natCast_mul]
    rw [Signed.toInt_mul_of, hexact]
    · rw [hexact]
      rcases hs with rfl | rfl <;> omega
    · rw [hexact]
      rcases hs with rfl | rfl <;> omega
  refine ⟨hquot, ?_⟩
  have hdiff : value.toInt - (value / base * base).toInt = s * (w % b : Nat) := by
    rw [hprod, hvalue]
    rcases hs with rfl | rfl <;> omega
  rw [Signed.toInt_sub_of, hdiff]
  · rw [hdiff]
    rcases hs with rfl | rfl <;> omega
  · rw [hdiff]
    rcases hs with rfl | rfl <;> omega

theorem digitAt_eq {i : Int32} {d : Nat} (hi : i.toInt = d) (hd : d < 16) :
    digitAt i = some (digitByte d) := by
  have hnonneg : 0 ≤ i := by
    rw [Int32.le_iff_toInt_le, hi]
    exact Int.natCast_nonneg d
  rw [digitAt, if_pos hnonneg, hi, Int.toNat_natCast]
  exact digits_getElem? hd

theorem digitAt_of_neg {i : Int32} (hi : i.toInt < 0) : digitAt i = none := by
  rw [digitAt, if_neg]
  rw [Int32.le_iff_toInt_le]
  exact Int.not_le.mpr hi

/-- One round on a value that is not negative writes its last digit. -/
theorem itoaLoop_succ (hbase : base.toInt = b) (hb : 1 < b) (hb' : b ≤ 16) (fuel : Nat)
    (hvalue : value.toInt = w) (ptr : Nat) (m : Mem) :
    (value / base).toInt = (w / b : Nat) ∧
      itoaLoop base (fuel + 1) value ptr m
        = if w / b ≠ 0 then
            itoaLoop base fuel (value / base) (ptr + 1) (store8 m ptr (digitByte (w % b)))
          else some (ptr + 1, store8 m ptr (digitByte (w % b))) := by
  obtain ⟨hquot, hrem⟩ := toInt_divide hbase hb (Or.inl rfl) (hvalue.trans (Int.one_mul _).symm)
  rw [Int.one_mul] at hquot hrem
  have hlt := Nat.mod_lt w (Nat.lt_trans Nat.zero_lt_one hb)
  have hne : value / base ≠ 0 ↔ w / b ≠ 0 := by
    rw [Ne, ← Int32.toInt_inj, hquot]
    exact Int.natCast_ne_zero
  refine ⟨hquot, ?_⟩
  rw [itoaLoop]
  dsimp only
  rw [digitAt_eq hrem (by omega), Option.bind_eq_bind, Option.bind_some]
  simp only [hne]

theorem itoaLoop_eq (hbase : base.toInt = b) (hb : 1 < b) (hb' : b ≤ 16) {k fuel : Nat}
    (hfuel : k < fuel) (hvalue : value.toInt = w) (hlt : w < b ^ (k + 1)) (ptr : Nat) (m : Mem) :
    itoaLoop base fuel value ptr m
      = some (ptr + (numeral b w).length, storeBytes m ptr (numeral b w).reverse) := by
  induction k generalizing fuel value w ptr m with
  | zero =>
      obtain ⟨fuel, rfl⟩ := Nat.exists_eq_add_one_of_ne_zero (Nat.ne_of_gt hfuel)
      rw [Nat.zero_add, Nat.pow_one] at hlt
      have hquot : w / b = 0 := Nat.div_eq_of_lt hlt
      rw [(itoaLoop_succ hbase hb hb' fuel hvalue ptr m).2, if_neg (not_not.mpr hquot),
        Nat.mod_eq_of_lt hlt, numeral_of_lt hlt, List.reverse_singleton, storeBytes_cons]
      congr 2
      ext x
      rw [storeBytes_of_disjoint (by rw [List.length_nil]; omega)]
  | succ k ih =>
      by_cases hsmall : w < b
      · exact ih (by omega) hvalue
          (Nat.lt_of_lt_of_le hsmall (Nat.le_self_pow (Nat.succ_ne_zero k) b)) ptr m
      · obtain ⟨fuel, rfl⟩ := Nat.exists_eq_add_one_of_ne_zero (Nat.ne_zero_of_lt hfuel)
        obtain ⟨hquot, hloop⟩ := itoaLoop_succ hbase hb hb' fuel hvalue ptr m
        have hpos : 0 < w / b := Nat.div_pos (by omega) (by omega)
        have hlt' : w / b < b ^ (k + 1) := by
          rw [Nat.div_lt_iff_lt_mul (by omega), ← Nat.pow_succ]
          exact hlt
        rw [hloop, if_pos (Nat.ne_of_gt hpos), ih (by omega) hquot hlt',
          numeral_of_le hb (show b ≤ w by omega), List.reverse_append, List.length_append,
          List.length_singleton, List.reverse_singleton, List.singleton_append, storeBytes_cons]
        congr 2
        omega

/-- A negative value is looked up before the table, sooner or later. -/
theorem itoaLoop_of_neg (hbase : base.toInt = b) (hb : 1 < b) (fuel : Nat) (hneg : value.toInt < 0)
    (ptr : Nat) (m : Mem) : itoaLoop base fuel value ptr m = none := by
  induction fuel generalizing value ptr m with
  | zero => rfl
  | succ fuel ih =>
      obtain ⟨w, hw⟩ : ∃ w : Nat, value.toInt = -1 * w := ⟨value.toInt.natAbs, by omega⟩
      obtain ⟨hquot, hrem⟩ := toInt_divide hbase hb (Or.inr rfl) hw
      rw [itoaLoop]
      dsimp only
      by_cases hzero : w % b = 0
      · have hw0 : 0 < w := by omega
        have hpos : 0 < w / b :=
          Nat.div_pos (Nat.le_of_dvd hw0 (Nat.dvd_of_mod_eq_zero hzero)) (by omega)
        have hquot' : (value / base).toInt < 0 := by omega
        have hne : value / base ≠ 0 := by
          intro h0
          rw [h0] at hquot'
          exact absurd hquot' (by decide)
        have hdigit : (value - value / base * base).toInt = (0 : Nat) := by omega
        rw [digitAt_eq hdigit (by decide), Option.bind_eq_bind, Option.bind_some, if_pos hne]
        exact ih hquot' _ _
      · rw [digitAt_of_neg (by omega)]
        rfl

theorem reverseLoop_eq {fuel : Nat} {lo hi : Nat} (hfuel : hi - lo < fuel) (m : Mem) :
    ∃ m', reverseLoop fuel lo hi m = some m' ∧
      ∀ x, m' x = if lo ≤ x ∧ x ≤ hi then m (lo + hi - x) else m x := by
  induction fuel generalizing lo hi m with
  | zero => exact absurd hfuel (Nat.not_lt_zero _)
  | succ fuel ih =>
      rw [reverseLoop]
      by_cases hlt : lo < hi
      · rw [if_pos hlt]
        have hfuel' : hi - 1 - (lo + 1) < fuel := by omega
        obtain ⟨m', hrun, hm'⟩ := ih hfuel' (store8 (store8 m hi (m lo)) lo (m hi))
        refine ⟨m', hrun, fun x => ?_⟩
        rw [hm']
        by_cases hlo : x = lo
        · rw [hlo, if_neg (by omega), if_pos (by omega), store8_self, Nat.add_sub_cancel_left]
        · by_cases hhi : x = hi
          · rw [hhi, if_neg (by omega), if_pos (by omega), store8_of_ne (by omega), store8_self,
              Nat.add_sub_cancel]
          · by_cases hin : lo ≤ x ∧ x ≤ hi
            · rw [if_pos (by omega), if_pos hin, store8_of_ne (by omega), store8_of_ne (by omega)]
              congr 1
              omega
            · rw [if_neg (by omega), if_neg hin, store8_of_ne hlo, store8_of_ne hhi]
      · rw [if_neg hlt]
        refine ⟨m, rfl, fun x => ?_⟩
        split
        · congr 1
          omega
        · rfl

end Digits

/-! ### Strings in memory -/

/-- `m'` is `m` with the string `s` written at `a`. -/
structure WritesString (m m' : Mem) (a : Nat) (s : List UInt8) : Prop where
  bytes : loadBytes m' a s.length = s
  nul : m' (a + s.length) = 0
  noNul : (0 : UInt8) ∉ s
  outside : ∀ x, x < a ∨ a + s.length < x → m' x = m x

theorem WritesString.cons {m m' : Mem} {a : Nat} {c : UInt8} {s : List UInt8} (hc : 0 ≠ c)
    (h : WritesString (store8 m a c) m' (a + 1) s) : WritesString m m' a (c :: s) := by
  have hlen : a + (c :: s).length = a + 1 + s.length := by
    rw [List.length_cons]
    omega
  refine ⟨?_, ?_, ?_, ?_⟩
  · have hfirst : m' a = c := by
      rw [h.outside a (Or.inl (Nat.lt_succ_self a)), store8_self]
    have hrest : loadBytes m' (a + 1) s.length
        = (List.range s.length).map fun i => m' (a + (i + 1)) :=
      List.map_congr_left fun i _ => congrArg m' (by omega)
    rw [h.bytes] at hrest
    rw [List.length_cons, loadBytes, List.range_succ_eq_map, List.map_cons, List.map_map,
      Nat.add_zero, hfirst]
    exact congrArg (c :: ·) hrest.symm
  · rw [hlen]
    exact h.nul
  · rw [List.mem_cons, not_or]
    exact ⟨hc, h.noNul⟩
  · intro x hx
    rw [h.outside x (by omega), store8_of_ne (by omega)]

theorem itoaDigits_eq {value base : Int32} {b w : Nat} (hbase : base.toInt = b) (hb : 1 < b)
    (hb' : b ≤ 16) (hvalue : value.toInt = w) (str : Nat) (m : Mem) :
    ∃ m', itoaDigits value str base m = some m' ∧ WritesString m m' str (numeral b w) := by
  have hw : w < 2 ^ 32 := by
    have hlt := value.toInt_lt
    omega
  have hpow : w < b ^ 32 := Nat.lt_of_lt_of_le hw (Nat.pow_le_pow_left hb 32)
  have hlen := length_numeral_le hb (by decide) hpow
  have hpos : 0 < (numeral b w).length := length_numeral_pos
  have hloop := itoaLoop_eq hbase hb hb' (show 31 < 32 by decide) hvalue hpow str m
  have hfuel : str + (numeral b w).length - 1 - str < 32 := by omega
  obtain ⟨m', hrun, hm'⟩ := reverseLoop_eq hfuel
    (store8 (storeBytes m str (numeral b w).reverse) (str + (numeral b w).length) 0)
  refine ⟨m', ?_, ?_, ?_, numeral_noNul hb hb', ?_⟩
  · rw [itoaDigits, hloop]
    exact hrun
  · refine List.ext_getElem (loadBytes_length ..) fun i h₁ h₂ => ?_
    have hi : i < (numeral b w).reverse.length := by rwa [List.length_reverse]
    have hmirror : str + (str + (numeral b w).length - 1) - (str + i)
        = str + ((numeral b w).length - 1 - i) := by omega
    have hlt : (numeral b w).length - 1 - i < (numeral b w).reverse.length := by
      rw [List.length_reverse]
      omega
    simp only [loadBytes, List.getElem_map, List.getElem_range]
    rw [hm', if_pos (by omega), hmirror, store8_of_ne (by omega), storeBytes_apply hlt,
      List.getElem_reverse]
    congr 1
    omega
  · rw [hm', if_neg (by omega), store8_self]
  · intro x hx
    rw [hm', if_neg (by omega), store8_of_ne (by omega),
      storeBytes_of_disjoint (by rw [List.length_reverse]; omega)]

/-! ### The results -/

/-- `itoa(v, s, 10)` writes the decimal numeral, and `atoi(s)` reads the value back. -/
def ItoaDecimal (v : Int32) : Prop :=
  ∀ str m, ∃ m', itoa v str 10 m = some m' ∧ WritesString m m' str (decimal v.toInt) ∧
    atoi (decimal v.toInt) = v

/-- `itoa(v, s, 16)` writes the numeral of the two's complement pattern, as `print_int` does. -/
def ItoaHex (v : Int32) : Prop :=
  ∀ str m, ∃ m' n, itoa v str 16 m = some m' ∧
    WritesString m m' str (numeral 16 v.toUInt32.toNat) ∧
    printInt v 16 = some (numeral 16 v.toUInt32.toNat, n)

theorem itoaDecimal_iff (v : Int32) : ItoaDecimal v ↔ v ≠ Int32.minValue := by
  have hbase : (10 : Int32).toInt = (10 : Nat) := rfl
  have hmin : v = Int32.minValue ↔ v.toInt = -2 ^ 31 := by
    rw [← Int32.toInt_inj]
    rfl
  have hneg : v < 0 ∧ (10 : Int32) = 10 ↔ v.toInt < 0 := by
    rw [and_iff_left rfl, Int32.lt_iff_toInt_lt]
    rfl
  constructor
  · intro h hv
    obtain ⟨m', hrun, -⟩ := h 0 ⟨fun _ => 0⟩
    have hlt : v.toInt < 0 := by
      rw [hmin.mp hv]
      decide
    have hlt' : (-v).toInt < 0 := by
      rw [hv]
      decide
    rw [itoa, if_pos (hneg.mpr hlt), itoaDigits, itoaLoop_of_neg hbase (by decide) 32 hlt'] at hrun
    exact absurd hrun (by simp)
  · intro hv str m
    have hlow := v.le_toInt
    have hne := mt hmin.mpr hv
    rw [itoa, decimal]
    by_cases hlt : v.toInt < 0
    · have habs : (-v).toInt = v.toInt.natAbs := by
        rw [Signed.toInt_neg_of (by omega)]
        omega
      obtain ⟨m', hrun, hwrites⟩ := itoaDigits_eq hbase (by decide) (by decide) habs (str + 1)
        (store8 m str minus)
      have hatoi := atoi_decimal v
      rw [decimal, if_pos hlt] at hatoi
      rw [if_pos (hneg.mpr hlt), if_pos hlt]
      exact ⟨m', hrun, hwrites.cons (by decide), hatoi⟩
    · have habs : v.toInt = v.toInt.natAbs := by omega
      obtain ⟨m', hrun, hwrites⟩ := itoaDigits_eq hbase (by decide) (by decide) habs str m
      have hatoi := atoi_decimal v
      rw [decimal, if_neg hlt] at hatoi
      rw [if_neg (mt hneg.mp hlt), if_neg hlt]
      exact ⟨m', hrun, hwrites, hatoi⟩

theorem itoaHex_iff (v : Int32) : ItoaHex v ↔ 0 ≤ v := by
  have hbase : (16 : Int32).toInt = (16 : Nat) := rfl
  have hten : ¬(v < 0 ∧ (16 : Int32) = 10) := fun h => absurd h.2 (by decide)
  have hnonneg : 0 ≤ v ↔ 0 ≤ v.toInt := Int32.le_iff_toInt_le
  rw [hnonneg]
  constructor
  · intro h
    by_contra hlt
    obtain ⟨m', n, hrun, -⟩ := h 0 ⟨fun _ => 0⟩
    rw [itoa, if_neg hten, itoaDigits,
      itoaLoop_of_neg hbase (by decide) 32 (Int.not_le.mp hlt)] at hrun
    exact absurd hrun (by simp)
  · intro h str m
    have hbits : v.toInt = v.toUInt32.toNat := by
      rw [Signed.toNat_toUInt32_of_nonneg h]
      omega
    obtain ⟨m', hrun, hwrites⟩ := itoaDigits_eq hbase (by decide) (by decide) hbits str m
    refine ⟨m', _, ?_, hwrites, printInt_hex v⟩
    rw [itoa, if_neg hten]
    exact hrun

/-- **Integer formatting is exact** in decimal if and only if the value is not the smallest, and
in hexadecimal if and only if it is not negative. -/
theorem itoa_iff (v : Int32) :
    (ItoaDecimal v ↔ v ≠ Int32.minValue) ∧ (ItoaHex v ↔ 0 ≤ v) :=
  ⟨itoaDecimal_iff v, itoaHex_iff v⟩

/-- -1 in hexadecimal and the smallest value in decimal: the index of a digit is negative. -/
theorem itoa_outOfTable : itoa (-1) 0 16 ⟨fun _ => 0⟩ = none ∧
    printInt (-1) 16 = some ([102, 102, 102, 102, 102, 102, 102, 102], 8) ∧
    itoa Int32.minValue 0 10 ⟨fun _ => 0⟩ = none := by
  decide

end AceOS.Kernel
