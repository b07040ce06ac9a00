import AceOS.Lib.Memory

/-!
# `src/libc/string.c`

`memset`, `memcpy` and `memmove` are the byte loops of the source.  `memset_eq_fill` and
`memcpy_eq_storeBytes` say what they leave in memory at once; the second needs
the two ranges to be disjoint, since the loop reads bytes it may have written.
`memmove` chooses the direction in which it reads no byte that it has written
(`memmove_snapshot`).

The string functions take the bytes of a string without its NUL.
-/

namespace AceOS.Libc

open Memory

/-- `for (i = 0; i < n; i++) p[i] = value;` -/
def memset (m : Mem) (s c : Nat) : Nat → Mem
  | 0 => m
  | n + 1 => store8 (memset m s c n) (s + n) (UInt8.ofNat c)

/-- `for (i = 0; i < n; i++) d[i] = s[i];` -/
def memcpy (m : Mem) (dest src : Nat) : Nat → Mem
  | 0 => m
  | n + 1 => store8 (memcpy m dest src n) (dest + n) (memcpy m dest src n (src + n))

theorem memset_eq_fill (m : Mem) (s c n : Nat) : memset m s c n = fill m s n (UInt8.ofNat c) := by
  induction n with
  | zero => ext x; rw [memset, fill_of_disjoint (by omega)]
  | succ n ih =>
      ext x
      rw [memset, ih]
      by_cases hx : x = s + n
      · rw [hx, store8_self, fill_of_mem (by omega) (by omega)]
      · rw [store8_of_ne hx]
        by_cases hm : s ≤ x ∧ x < s + n
        · rw [fill_of_mem hm.1 hm.2, fill_of_mem hm.1 (by omega)]
        · rw [fill_of_disjoint (by omega), fill_of_disjoint (by omega)]

theorem memcpy_of_outside {m : Mem} {dest src n x : Nat} (h : x < dest ∨ dest + n ≤ x) :
    memcpy m dest src n x = m x := by
  induction n with
  | zero => rfl
  | succ n ih => rw [memcpy, store8_of_ne (by omega), ih (by omega)]

theorem memcpy_eq_storeBytes {m : Mem} {dest src n : Nat} (h : dest + n ≤ src ∨ src + n ≤ dest) :
    memcpy m dest src n = storeBytes m dest (loadBytes m src n) := by
  induction n with
  | zero => ext x; rw [memcpy, storeBytes_of_disjoint (by simp; omega)]
  | succ n ih =>
      ext x
      rw [memcpy, memcpy_of_outside (by omega)]
      by_cases hx : x = dest + n
      · rw [hx, store8_self, storeBytes_apply (by simp)]
        simp [loadBytes]
      · rw [store8_of_ne hx, ih (by omega)]
        by_cases hm : dest ≤ x ∧ x < dest + n
        · obtain ⟨i, rfl⟩ := Nat.exists_eq_add_of_le hm.1
          rw [storeBytes_apply (by simp; omega), storeBytes_apply (by simp; omega)]
          simp [loadBytes]
        · rw [storeBytes_of_disjoint (by simp; omega), storeBytes_of_disjoint (by simp; omega)]

/-! ### Ranges that overlap -/

/-- `for (i = n; i > 0; i--) d[i-1] = s[i-1];` -/
def copyBackward (m : Mem) (dest src : Nat) : Nat → Mem
  | 0 => m
  | n + 1 => copyBackward (store8 m (dest + n) (m (src + n))) dest src n

/-- The loop from start to end is that of `memcpy`. -/
def memmove (m : Mem) (dest src n : Nat) : Mem :=
  if dest < src then memcpy m dest src n
  else if src < dest then copyBackward m dest src n
  else m

section Memmove

variable {m : Mem} {dest src : Nat}

/-- Upwards, the bytes still to be read lie above those written. -/
theorem memcpy_apply (h : dest < src) (n x : Nat) :
    memcpy m dest src n x = if dest ≤ x ∧ x < dest + n then m (src + (x - dest)) else m x := by
  induction n with
  | zero => rw [memcpy, if_neg (by omega)]
  | succ n ih =>
      rw [memcpy]
      by_cases hx : x = dest + n
      · rw [hx, store8_self, if_pos (by omega), Nat.add_sub_cancel_left]
        exact memcpy_of_outside (by omega)
      · rw [store8_of_ne hx, ih]
        by_cases hm : dest ≤ x ∧ x < dest + n
        · rw [if_pos hm, if_pos (by omega)]
        · rw [if_neg hm, if_neg (by omega)]

/-- Downwards, they lie below. -/
theorem copyBackward_apply (h : src < dest) (n x : Nat) :
    copyBackward m dest src n x
      = if dest ≤ x ∧ x < dest + n then m (src + (x - dest)) else m x := by
  induction n generalizing m with
  | zero => rw [copyBackward, if_neg (by omega)]
  | succ n ih =>
      rw [copyBackward, ih]
      by_cases hx : x = dest + n
      · rw [hx, if_neg (by omega), if_pos (by omega), store8_self, Nat.add_sub_cancel_left]
      · by_cases hm : dest ≤ x ∧ x < dest + n
        · rw [if_pos hm, if_pos (by omega), store8_of_ne (by omega)]
        · rw [if_neg hm, if_neg (by omega), store8_of_ne hx]

theorem memmove_apply (n x : Nat) :
    memmove m dest src n x
      = if dest ≤ x ∧ x < dest + n then m (src + (x - dest)) else m x := by
  rw [memmove]
  split
  · rename_i h
    exact memcpy_apply h n x
  · split
    · rename_i h
      exact copyBackward_apply h n x
    · have hsame : src = dest := by omega
      split
      · rw [hsame]
        congr 1
        omega
      · rfl

end Memmove

/-- **`memmove` copies from a snapshot**, whatever the overlap, and changes nothing else. -/
theorem memmove_snapshot (m : Mem) (dest src n : Nat) :
    loadBytes (memmove m dest src n) dest n = loadBytes m src n ∧
    ∀ x, x < dest ∨ dest + n ≤ x → memmove m dest src n x = m x := by
  constructor
  · refine List.map_congr_left fun i hi => ?_
    have hlt := List.mem_range.mp hi
    rw [memmove_apply, if_pos (by omega), Nat.add_sub_cancel_left]
  · intro x hx
    rw [memmove_apply, if_neg (by omega)]

/-! ### Strings -/

def strncmp : (s1 s2 : List UInt8) → (n : Nat) → Int
  | _, _, 0 => 0
  | [], [], _ + 1 => 0
  | [], b :: _, _ + 1 => -b.toNat
  | a :: _, [], _ + 1 => a.toNat
  | a :: s1, b :: s2, n + 1 => if a ≠ b then a.toNat - b.toNat else strncmp s1 s2 n

/-- `while (*haystack)`: the string that is left where the needle is found. -/
def strstrLoop (needle : List UInt8) : (haystack : List UInt8) → Option (List UInt8)
  | [] => none
  | c :: cs =>
      if needle.head? = some c ∧ strncmp (c :: cs) needle needle.length = 0 then some (c :: cs)
      else strstrLoop needle cs

def strstr (haystack needle : List UInt8) : Option (List UInt8) :=
  if needle.length = 0 then some haystack else strstrLoop needle haystack

def strchr : (s : List UInt8) → (c : UInt8) → Option Nat
  | [], c => if c = 0 then some 0 else none
  | b :: s, c => if b = c then some 0 else (strchr s c).map (· + 1)

theorem strncmp_eq_zero_iff {s t : List UInt8} (h0 : (0 : UInt8) ∉ t) :
    strncmp s t t.length = 0 ↔ t <+: s := by
  induction t generalizing s with
  | nil => simp [strncmp]
  | cons b t ih =>
      obtain ⟨hb, ht⟩ := not_or.mp (mt List.mem_cons.mpr h0)
      cases s with
      | nil =>
          have hb' : b.toNat ≠ 0 := fun h => hb (UInt8.toNat_inj.mp h.symm)
          rw [List.length_cons, strncmp]
          refine iff_of_false (by omega) (fun h => ?_)
          exact absurd (List.prefix_nil.mp h) (List.cons_ne_nil b t)
      | cons a s =>
          rw [List.length_cons, strncmp, List.cons_prefix_cons]
          by_cases hab : a = b
          · rw [if_neg (not_not.mpr hab), ih ht, and_iff_right hab.symm]
          · have hne : a.toNat ≠ b.toNat := fun h => hab (UInt8.toNat_inj.mp h)
            rw [if_pos hab]
            refine iff_of_false (by omega) (fun h => hab h.1.symm)

/-- **`strstr` finds the strings that contain the needle.** -/
theorem strstr_ne_none_iff {s t : List UInt8} (h0 : (0 : UInt8) ∉ t) :
    strstr s t ≠ none ↔ t <:+: s := by
  cases t with
  | nil => simp [strstr]
  | cons b t =>
      rw [strstr, List.length_cons, if_neg (Nat.succ_ne_zero _)]
      induction s with
      | nil => simp [strstrLoop]
      | cons a s ih =>
          have hhere := strncmp_eq_zero_iff (s := a :: s) h0
          rw [List.length_cons] at hhere
          rw [strstrLoop, List.head?_cons, List.length_cons, List.infix_cons_iff, ← ih]
          by_cases hfound : b :: t <+: a :: s
          · have hhead : b = a := (List.cons_prefix_cons.mp hfound).1
            rw [if_pos ⟨congrArg some hhead, hhere.mpr hfound⟩]
            exact iff_of_true (Option.some_ne_none _) (Or.inl hfound)
          · rw [if_neg (fun h => hfound (hhere.mp h.2)), or_iff_right hfound]

end AceOS.Libc
