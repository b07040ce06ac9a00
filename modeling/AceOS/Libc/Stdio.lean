import AceOS.Lib.Signed
import AceOS.Lib.Numerals

/-!
# Formatted output (`src/libc/stdio.c`)

`vprintf` walks over the format and its NUL; a read behind the NUL is `none`.  It takes two
characters at a `%`, so that one at the end of the format takes the NUL, and the walk goes on
behind it (`vprintf_iff`).

The characters passed to `putchar` are the bytes that reach the terminal.  `vsprintf` and
`vsnprintf` are stubs.
-/

namespace AceOS.Libc

open Numerals

/-! ### The code -/

def digits : List UInt8 :=
  [48, 49, 50, 51, 52, 53, 54, 55, 56, 57, 97, 98, 99, 100, 101, 102]

/-- `while (abs_value > 0)`: what it puts into `buffer`, which has 32 bytes. -/
def printIntLoop (base : UInt32) : (fuel : Nat) → (absValue : UInt32) → (buffer : List UInt8) →
    Option (List UInt8)
  | 0, _, _ => none
  | fuel + 1, absValue, buffer =>
      if absValue = 0 then some buffer
      else if 32 ≤ buffer.length then none
      else do
        let c ← digits[(absValue % base).toNat]?
        printIntLoop base fuel (absValue / base) (buffer ++ [c])

/-- `print_int`: the characters it prints, and their number.  The loop fills the buffer in its
33rd round at the latest. -/
def printInt (value base : Int32) : Option (List UInt8 × Int32) :=
  if value = 0 then some ([48], 1)
  else do
    let neg := value < 0 ∧ base = 10
    let absValue := if neg then (-value).toUInt32 else value.toUInt32
    let buffer ← printIntLoop base.toUInt32 33 absValue []
    let printed : Int32 := if neg then 1 else 0
    some ((if neg then [minus] else []) ++ buffer.reverse, printed + Int32.ofNat buffer.length)

/-- An argument of a variadic call: an `int`, or a string, which may be `NULL`. -/
inductive VaArg
  | int (v : Int32)
  | str (s : Option (List UInt8))
  deriving DecidableEq

def nullText : List UInt8 := [40, 110, 117, 108, 108, 41]

abbrev percent : UInt8 := 37

/-- The `switch`: the characters printed, what is added to `printed`, and the arguments left. -/
def vprintfSwitch (c : UInt8) (args : List VaArg) : Option (List UInt8 × Int32 × List VaArg) :=
  if c = 99 then                      -- 'c'
    match args with
    | .int v :: args => some ([v.toUInt32.toUInt8], 1, args)
    | _ => none
  else if c = 115 then                -- 's'
    match args with
    | .str s :: args =>
        let s := s.getD nullText
        some (s, Int32.ofNat s.length, args)
    | _ => none
  else if c = 100 ∨ c = 105 then      -- 'd', 'i'
    match args with
    | .int d :: args => (printInt d 10).map fun r => (r.1, r.2, args)
    | _ => none
  else if c = 120 then                -- 'x'
    match args with
    | .int d :: args => (printInt d 16).map fun r => (r.1, r.2, args)
    | _ => none
  else if c = percent then some ([percent], 1, args)
  else some ([percent, c], 2, args)

def vprintfLoop : (format : List UInt8) → List VaArg → (printed : Int32) →
    Option (List UInt8 × Int32)
  | [], _, _ => none
  | c :: format, args, printed =>
      if c = 0 then some ([], printed)
      else if c ≠ percent then
        (vprintfLoop format args (printed + 1)).map fun r => (c :: r.1, r.2)
      else
        match format with
        | [] => none
        | c :: format =>
            match vprintfSwitch c args with
            | none => none
            | some (out, n, args) =>
                (vprintfLoop format args (printed + n)).map fun r => (out ++ r.1, r.2)

/-- `vprintf` on the bytes of the format: the characters passed to `putchar`, and the result. -/
def vprintf (format : List UInt8) (args : List VaArg) : Option (List UInt8 × Int32) :=
  vprintfLoop (format ++ [0]) args 0

/-- The stub: nothing is written to `str`. -/
def vsnprintf (str : List UInt8) (_size : Nat) (_format : List UInt8) (_args : List VaArg) :
    Int × List UInt8 := (0, str)

def snprintf (str : List UInt8) (size : Nat) (format : List UInt8) (args : List VaArg) :
    Int × List UInt8 := vsnprintf str size format args

/-! ### Integers -/

theorem digits_getElem? {d : Nat} (h : d < 16) : digits[d]? = some (digitByte d) := by
  have hall : ∀ e < 16, digits[e]? = some (digitByte e) := by decide
  exact hall d h

theorem printIntLoop_eq {base : UInt32} (hb : 1 < base.toNat) (hbase : base.toNat ≤ 16) {k : Nat}
    {fuel : Nat} (hfuel : k < fuel) {absValue : UInt32} (hpos : 0 < absValue.toNat)
    (hlt : absValue.toNat < base.toNat ^ k) {buffer : List UInt8} (hroom : buffer.length + k ≤ 32) :
    printIntLoop base fuel absValue buffer
      = some (buffer ++ (numeral base.toNat absValue.toNat).reverse) := by
  induction k generalizing fuel absValue buffer with
  | zero =>
      rw [Nat.pow_zero] at hlt
      omega
  | succ k ih =>
      obtain ⟨fuel, rfl⟩ : ∃ n, fuel = n + 1 := ⟨fuel - 1, by omega⟩
      have hne : absValue ≠ 0 := by
        rintro rfl
        exact absurd hpos (Nat.lt_irrefl 0)
      have hmod : (absValue % base).toNat = absValue.toNat % base.toNat := UInt32.toNat_mod ..
      have hdiv : (absValue / base).toNat = absValue.toNat / base.toNat := UInt32.toNat_div ..
      have hdigit : digits[(absValue % base).toNat]?
          = some (digitByte (absValue.toNat % base.toNat)) := by
        rw [hmod]
        exact digits_getElem? (Nat.lt_of_lt_of_le (Nat.mod_lt _ (by omega)) hbase)
      rw [printIntLoop, if_neg hne, if_neg (by omega), hdigit, Option.bind_eq_bind,
        Option.bind_some]
      by_cases hsmall : absValue.toNat < base.toNat
      · have hzero : absValue / base = 0 := by
          rw [← UInt32.toNat_inj, hdiv, Nat.div_eq_of_lt hsmall]
          rfl
        obtain ⟨fuel, rfl⟩ : ∃ n, fuel = n + 1 := ⟨fuel - 1, by omega⟩
        rw [hzero, printIntLoop, if_pos rfl, numeral_of_lt hsmall, Nat.mod_eq_of_lt hsmall]
        rfl
      · have hlt' : (absValue / base).toNat < base.toNat ^ k := by
          rw [hdiv, Nat.div_lt_iff_lt_mul (by omega), ← Nat.pow_succ]
          exact hlt
        have hpos' : 0 < (absValue / base).toNat := by
          rw [hdiv]
          exact Nat.div_pos (by omega) (by omega)
        rw [ih (by omega) hpos' hlt' (by rw [List.length_append, List.length_singleton]; omega),
          hdiv, numeral_of_le hb (by omega : base.toNat ≤ absValue.toNat), List.reverse_append]
        simp

theorem printIntLoop_word {base absValue : UInt32} (hb : 1 < base.toNat) (hbase : base.toNat ≤ 16)
    (hpos : 0 < absValue.toNat) : printIntLoop base 33 absValue []
      = some (numeral base.toNat absValue.toNat).reverse := by
  have hpow : 2 ^ 32 ≤ base.toNat ^ 32 := Nat.pow_le_pow_left hb 32
  exact printIntLoop_eq hb hbase (by decide) hpos (Nat.lt_of_lt_of_le absValue.toNat_lt hpow)
    (Nat.le_refl 32)

theorem toInt_ne_zero {v : Int32} (h : v ≠ 0) : v.toInt ≠ 0 :=
  fun h0 => h (Int32.toInt_inj.mp h0)

theorem printInt_decimal (v : Int32) :
    printInt v 10 = some (decimal v.toInt, Int32.ofNat (decimal v.toInt).length) := by
  have hbase : (10 : Int32).toUInt32.toNat = 10 := rfl
  rw [printInt]
  split
  · rename_i h0
    rw [h0]
    rfl
  · rename_i h0
    have hne := toInt_ne_zero h0
    have hneg : (v < 0 ∧ (10 : Int32) = 10) ↔ v.toInt < 0 := by
      rw [and_iff_left rfl, Int32.lt_iff_toInt_lt]
      rfl
    have habs : (if v < 0 ∧ (10 : Int32) = 10 then (-v).toUInt32 else v.toUInt32).toNat
        = v.toInt.natAbs := by
      split
      · exact Signed.toNat_toUInt32_neg (hneg.mp ‹_›)
      · exact Signed.toNat_toUInt32_of_nonneg (Int.not_lt.mp (mt hneg.mpr ‹_›))
    dsimp only
    rw [printIntLoop_word (by decide) (by decide) (by omega), habs, hbase, Option.bind_eq_bind,
      Option.bind_some, List.reverse_reverse, List.length_reverse, decimal]
    by_cases hlt : v.toInt < 0
    · rw [if_pos (hneg.mpr hlt), if_pos (hneg.mpr hlt), if_pos hlt, List.length_cons,
        Int32.ofNat_add, Int32.add_comm]
      rfl
    · rw [if_neg (mt hneg.mp hlt), if_neg (mt hneg.mp hlt), if_neg hlt, Int32.zero_add]
      rfl

theorem printInt_hex (v : Int32) :
    printInt v 16 = some (numeral 16 v.toUInt32.toNat,
      Int32.ofNat (numeral 16 v.toUInt32.toNat).length) := by
  have hbase : (16 : Int32).toUInt32.toNat = 16 := rfl
  rw [printInt]
  split
  · rename_i h0
    rw [h0]
    rfl
  · rename_i h0
    have hpos : 0 < v.toUInt32.toNat := by
      have hne := toInt_ne_zero h0
      have hbits := Signed.toNat_toUInt32 v
      have hlow := v.le_toInt
      split at hbits <;> omega
    have hneg : ¬(v < 0 ∧ (16 : Int32) = 10) := fun h => absurd h.2 (by decide)
    dsimp only
    rw [if_neg hneg, if_neg hneg, if_neg hneg, printIntLoop_word (by decide) (by decide) hpos,
      hbase, Option.bind_eq_bind, Option.bind_some, List.reverse_reverse, List.length_reverse,
      Int32.zero_add]
    rfl

/-! ### Formats -/

inductive Directive
  | literal (c : UInt8)
  | conversion (c : UInt8)

/-- The parts of a format; a `%` at its end is none. -/
def directives : List UInt8 → List Directive
  | [] => []
  | c :: format =>
      if c ≠ percent then .literal c :: directives format
      else
        match format with
        | [] => []
        | c :: format => .conversion c :: directives format

def dangling : List UInt8 → Bool
  | [] => false
  | c :: format =>
      if c ≠ percent then dangling format
      else
        match format with
        | [] => true
        | _ :: format => dangling format

def rendering (c : UInt8) (args : List VaArg) : Option (List UInt8 × List VaArg) :=
  if c = 99 then
    match args with
    | .int v :: args => some ([v.toUInt32.toUInt8], args)
    | _ => none
  else if c = 115 then
    match args with
    | .str s :: args => some (s.getD nullText, args)
    | _ => none
  else if c = 100 ∨ c = 105 then
    match args with
    | .int d :: args => some (decimal d.toInt, args)
    | _ => none
  else if c = 120 then
    match args with
    | .int d :: args => some (numeral 16 d.toUInt32.toNat, args)
    | _ => none
  else if c = percent then some ([percent], args)
  else some ([percent, c], args)

/-- The format with each conversion replaced by what it stands for. -/
def render : List Directive → List VaArg → Option (List UInt8)
  | [], _ => some []
  | .literal c :: ds, args => (render ds args).map (c :: ·)
  | .conversion c :: ds, args => do
      let (text, args) ← rendering c args
      (render ds args).map (text ++ ·)

theorem vprintfSwitch_eq (c : UInt8) (args : List VaArg) :
    vprintfSwitch c args
      = (rendering c args).map fun r => (r.1, Int32.ofNat r.1.length, r.2) := by
  unfold vprintfSwitch rendering
  by_cases hc : c = 99
  · rw [if_pos hc, if_pos hc]
    rcases args with _ | ⟨v | s, args⟩ <;> rfl
  by_cases hs : c = 115
  · rw [if_neg hc, if_neg hc, if_pos hs, if_pos hs]
    rcases args with _ | ⟨v | s, args⟩ <;> rfl
  by_cases hd : c = 100 ∨ c = 105
  · rw [if_neg hc, if_neg hc, if_neg hs, if_neg hs, if_pos hd, if_pos hd]
    rcases args with _ | ⟨v | s, args⟩
    · rfl
    · dsimp only
      rw [printInt_decimal]
      rfl
    · rfl
  by_cases hx : c = 120
  · rw [if_neg hc, if_neg hc, if_neg hs, if_neg hs, if_neg hd, if_neg hd, if_pos hx, if_pos hx]
    rcases args with _ | ⟨v | s, args⟩
    · rfl
    · dsimp only
      rw [printInt_hex]
      rfl
    · rfl
  rw [if_neg hc, if_neg hc, if_neg hs, if_neg hs, if_neg hd, if_neg hd, if_neg hx, if_neg hx]
  by_cases hp : c = percent
  · rw [if_pos hp, if_pos hp]
    rfl
  · rw [if_neg hp, if_neg hp]
    rfl

/-- **The loop** prints the rendering and adds its length, unless a `%` takes the NUL. -/
theorem vprintfLoop_eq {format : List UInt8} (h0 : (0 : UInt8) ∉ format) (args : List VaArg)
    (printed : Int32) : vprintfLoop (format ++ [0]) args printed
      = if dangling format then none
        else (render (directives format) args).map fun text =>
          (text, printed + Int32.ofNat text.length) := by
  induction format using directives.induct generalizing args printed with
  | case1 =>
      rw [List.nil_append, vprintfLoop, if_pos rfl]
      simp [dangling, directives, render]
  | case2 c format hc ih =>
      obtain ⟨hc0, h0⟩ := not_or.mp (mt List.mem_cons.mpr h0)
      unfold vprintfLoop dangling directives
      rw [List.cons_append]
      dsimp only
      rw [if_neg (Ne.symm hc0), if_pos hc, if_pos hc, if_pos hc, ih h0, render]
      split
      · rfl
      · cases render (directives format) args with
        | none => rfl
        | some text =>
            simp only [Option.map_some, List.length_cons, Int32.ofNat_add]
            rw [Int32.add_assoc, Int32.add_comm 1]
            rfl
  | case3 c hc =>
      obtain rfl := not_not.mp hc
      rfl
  | case4 c hc d format ih =>
      obtain rfl := not_not.mp hc
      have h0' : (0 : UInt8) ∉ format := fun h =>
        h0 (List.mem_cons_of_mem _ (List.mem_cons_of_mem _ h))
      unfold vprintfLoop dangling directives
      rw [List.cons_append, List.cons_append]
      dsimp only
      rw [if_neg (by decide), if_neg hc, if_neg hc, if_neg hc, render, vprintfSwitch_eq]
      cases rendering d args with
      | none => simp
      | some r =>
          obtain ⟨text, args⟩ := r
          simp only [Option.map_some, Option.bind_eq_bind, Option.bind_some, ih h0']
          split
          · rfl
          · cases render (directives format) args with
            | none => rfl
            | some rest =>
                simp only [Option.map_some, List.length_append, Int32.ofNat_add, Int32.add_assoc]

theorem toInt_ofNat_eq_iff {n : Nat} : (Int32.ofNat n).toInt = n ↔ n < 2 ^ 31 := by
  constructor
  · intro h
    have hlt := (Int32.ofNat n).toInt_lt
    omega
  · intro h
    exact Int32.toInt_ofNat_of_lt h

/-- **`vprintf` stays inside its format**, prints the rendering and returns its length if and
only if no `%` ends the format and the length is an `int`. -/
theorem vprintf_iff {format : List UInt8} (h0 : (0 : UInt8) ∉ format) {args : List VaArg}
    {text : List UInt8} (hargs : render (directives format) args = some text) :
    (∃ n : Int32, vprintf format args = some (text, n) ∧ n.toInt = text.length) ↔
      dangling format = false ∧ text.length < 2 ^ 31 := by
  rw [vprintf, vprintfLoop_eq h0, hargs, Option.map_some, Int32.zero_add]
  cases dangling format with
  | true => simp
  | false =>
      rw [if_neg Bool.false_ne_true, and_iff_right rfl, ← toInt_ofNat_eq_iff]
      constructor
      · rintro ⟨n, hn, hint⟩
        rw [(Prod.mk.inj (Option.some.inj hn)).2]
        exact hint
      · intro h
        exact ⟨_, rfl, h⟩

theorem vprintf_int : ∃ n : Int32,
    vprintf [118, 61, percent, 100] [.int (-5)] = some ([118, 61, 45, 53], n) ∧ n.toInt = 4 :=
  (vprintf_iff (by decide) rfl).mpr ⟨rfl, by decide⟩

/-- `"%"`: the `switch` takes the NUL, and the next read is behind it. -/
theorem vprintf_dangling :
    render (directives [percent]) [] = some [] ∧ vprintf [percent] [] = none :=
  ⟨rfl, rfl⟩

end AceOS.Libc
