import AceOS.Drivers.InputBuffer
import Mathlib.Data.List.Induction

/-!
# The keyboard (`src/drivers/keyboard.c`, `src/include/keyboard.h`)

`keyboard_handler` keeps two flags and pushes the character of each key pressed.  One flag is
set by a press of either shift key and cleared by a release of either, so that it is wrong when
one of two shift keys held is released (`keyboard_shift_iff`).  With Caps Lock on and no shift
key the keys that are not letters give their shifted characters (`keyboard_capsLock_iff`).

The byte that `inb` reads is the argument of the step; what is pushed is its output, whether or
not the buffer has room for it.
-/

namespace AceOS.Drivers

open Machine InputBuffer

/-! ### The code -/

abbrev keyLshift : UInt8 := 0x2A
abbrev keyRshift : UInt8 := 0x36
abbrev keyCapslock : UInt8 := 0x3A

/-- The keys with a character: the digit row, the three rows of letters, the space bar and the
three keys of the number pad. -/
def scancodeAsciiMap (scancode : UInt8) : UInt8 :=
  [0, 27, 49, 50, 51, 52, 53, 54, 55, 56, 57, 48, 45, 61, 8,
    9, 113, 119, 101, 114, 116, 121, 117, 105, 111, 112, 91, 93, 10,
    0, 97, 115, 100, 102, 103, 104, 106, 107, 108, 59, 39, 96,
    0, 92, 122, 120, 99, 118, 98, 110, 109, 44, 46, 47, 0,
    42, 0, 32, 0, 0, 0, 0, 0, 0, 0, 0, 0, 0, 0, 0, 0, 0, 0, 0, 45,
    0, 0, 0, 43].getD scancode.toNat 0

def scancodeAsciiMapShift (scancode : UInt8) : UInt8 :=
  [0, 27, 33, 64, 35, 36, 37, 94, 38, 42, 40, 41, 95, 43, 8,
    9, 81, 87, 69, 82, 84, 89, 85, 73, 79, 80, 123, 125, 10,
    0, 65, 83, 68, 70, 71, 72, 74, 75, 76, 58, 34, 126,
    0, 124, 90, 88, 67, 86, 66, 78, 77, 60, 62, 63, 0,
    42, 0, 32, 0, 0, 0, 0, 0, 0, 0, 0, 0, 0, 0, 0, 0, 0, 0, 0, 45,
    0, 0, 0, 43].getD scancode.toNat 0

/-- The static flags. -/
structure KeyState where
  shiftPressed : UInt8
  capsLockOn : UInt8

structure Keyboard where
  keys : KeyState
  buffer : InputBuffer keyboardBufferSize

/-- The character of a key. -/
def keyCharacter (scancode : UInt8) (s : KeyState) : UInt8 :=
  if s.shiftPressed ≠ 0 ∧ s.capsLockOn = 0 ∨ s.shiftPressed = 0 ∧ s.capsLockOn ≠ 0 then
    if 97 ≤ scancodeAsciiMap scancode ∧ scancodeAsciiMap scancode ≤ 122 then
      scancodeAsciiMap scancode - 32
    else scancodeAsciiMapShift scancode
  else if s.shiftPressed ≠ 0 ∧ s.capsLockOn ≠ 0 then
    if 65 ≤ scancodeAsciiMapShift scancode ∧ scancodeAsciiMapShift scancode ≤ 90 then
      scancodeAsciiMapShift scancode + 32
    else scancodeAsciiMapShift scancode
  else scancodeAsciiMap scancode

/-- `keyboard_handler` up to the push: the character it gets to, and the flags. -/
def keyboardKey (scancode : UInt8) (s : KeyState) : Option UInt8 × KeyState :=
  if scancode &&& 0x80 ≠ 0 then
    if scancode &&& 0x7F = keyLshift ∨ scancode &&& 0x7F = keyRshift then
      (none, { s with shiftPressed := 0 })
    else (none, s)
  else if scancode = keyLshift ∨ scancode = keyRshift then (none, { s with shiftPressed := 1 })
  else if scancode = keyCapslock then
    (none, { s with capsLockOn := if s.capsLockOn = 0 then 1 else 0 })
  else if keyCharacter scancode s ≠ 0 then (some (keyCharacter scancode s), s)
  else (none, s)

/-- `keyboard_handler`, with the character it pushes. -/
def keyboardHandler (scancode : UInt8) (k : Keyboard) : Option (Option UInt8 × Keyboard) :=
  match keyboardKey scancode k.keys with
  | (some character, keys) =>
      (keyboardBufferPush character k.buffer).map fun buffer => (some character, ⟨keys, buffer⟩)
  | (none, keys) => some (none, ⟨keys, k.buffer⟩)

/-- The static variables as they are loaded, and the buffer that `keyboard_init` empties. -/
def keyboardStart (buffer : InputBuffer keyboardBufferSize) : Keyboard :=
  ⟨⟨0, 0⟩, keyboardBufferInit buffer⟩

/-! ### Keys and characters -/

/-- `P` holds of each code and the codes before it. -/
def Along (P : List UInt8 → UInt8 → Prop) (codes : List UInt8) : Prop :=
  ∀ pre c, pre ++ [c] <+: codes → P pre c

theorem along_nil {P : List UInt8 → UInt8 → Prop} : Along P [] := by
  intro pre c h
  exact absurd (List.prefix_nil.mp h) (by simp)

theorem along_cons {P : List UInt8 → UInt8 → Prop} {c : UInt8} {codes : List UInt8} :
    Along P (c :: codes) ↔ P [] c ∧ Along (fun pre d => P (c :: pre) d) codes := by
  constructor
  · intro h
    refine ⟨h [] c ⟨codes, rfl⟩, ?_⟩
    intro pre d hpre
    exact h (c :: pre) d (List.cons_prefix_cons.mpr ⟨rfl, hpre⟩)
  · rintro ⟨hc, h⟩ pre d hpre
    cases pre with
    | nil =>
        obtain rfl := (List.cons_prefix_cons.mp hpre).1
        exact hc
    | cons e pre =>
        obtain ⟨rfl, hpre'⟩ := List.cons_prefix_cons.mp hpre
        exact h pre d hpre'

/-- The flag as the last code of a shift key leaves it. -/
def shiftDown (codes : List UInt8) : Bool :=
  codes.foldl (fun down c =>
    if c = keyLshift ∨ c = keyRshift then true
    else if c = keyLshift ||| 0x80 ∨ c = keyRshift ||| 0x80 then false
    else down) false

def capsOn (codes : List UInt8) : Bool := codes.count keyCapslock % 2 = 1

/-- The key has been pressed and not yet released. -/
def keyHeld (key : UInt8) (codes : List UInt8) : Bool :=
  codes.foldl (fun held c => if c = key then true else if c = key ||| 0x80 then false else held)
    false

def shiftHeld (codes : List UInt8) : Prop :=
  keyHeld keyLshift codes = true ∨ keyHeld keyRshift codes = true

/-- The presses and releases of a key alternate, starting with a press. -/
def Alternates (key : UInt8) : List UInt8 → Prop :=
  Along fun pre c =>
    (c = key → keyHeld key pre = false) ∧ (c = key ||| 0x80 → keyHeld key pre = true)

/-- When a shift key is released, the other one is not held. -/
def ReleasesAlone : List UInt8 → Prop :=
  Along fun pre c => (c = keyLshift ||| 0x80 → keyHeld keyRshift pre = false) ∧
    (c = keyRshift ||| 0x80 → keyHeld keyLshift pre = false)

/-- The character with a capital letter replaced by the small one. -/
def foldCase (c : UInt8) : UInt8 := if 65 ≤ c ∧ c ≤ 90 then c + 32 else c

/-- The same character, or a letter in the other case. -/
def SameUpToCase (c c' : UInt8) : Prop := foldCase c = foldCase c'

instance : DecidableRel SameUpToCase := fun c _ => inferInstanceAs (Decidable (foldCase c = _))

/-- The key has two characters that are not the two cases of a letter. -/
def IsSymbolKey (scancode : UInt8) : Prop :=
  scancode < 0x80 ∧ ¬SameUpToCase (scancodeAsciiMap scancode) (scancodeAsciiMapShift scancode)

instance (scancode : UInt8) : Decidable (IsSymbolKey scancode) :=
  inferInstanceAs (Decidable (_ ∧ _))

/-- No key with two symbols is pressed with Caps Lock on and the shift flag off. -/
def NoSymbolInCaps : List UInt8 → Prop :=
  Along fun pre c => ¬(IsSymbolKey c ∧ capsOn pre = true ∧ shiftDown pre = false)

section Flags

variable {codes : List UInt8} {c : UInt8}

theorem shiftDown_concat : shiftDown (codes ++ [c]) =
    if c = keyLshift ∨ c = keyRshift then true
    else if c = keyLshift ||| 0x80 ∨ c = keyRshift ||| 0x80 then false
    else shiftDown codes := List.foldl_concat ..

theorem keyHeld_concat {key : UInt8} : keyHeld key (codes ++ [c]) =
    if c = key then true else if c = key ||| 0x80 then false else keyHeld key codes :=
  List.foldl_concat ..

theorem capsOn_concat : capsOn (codes ++ [c]) =
    if c = keyCapslock then !capsOn codes else capsOn codes := by
  rw [capsOn, capsOn, List.count_append]
  by_cases hc : c = keyCapslock
  · rw [if_pos hc, hc, List.count_singleton_self, ← decide_not, decide_eq_decide]
    omega
  · rw [if_neg hc, List.count_singleton, beq_eq_false_iff_ne.mpr hc, if_neg (by decide),
      Nat.add_zero]

end Flags

def flagByte (b : Bool) : UInt8 := if b then 1 else 0

theorem flagByte_eq_one {b : Bool} : flagByte b = 1 ↔ b = true := by
  cases b <;> decide

def keysAfter (codes : List UInt8) : KeyState :=
  ⟨flagByte (shiftDown codes), flagByte (capsOn codes)⟩

/-! ### One scancode -/

theorem release_iff (c : UInt8) : c &&& 0x80 ≠ 0 →
    (c &&& 0x7F = keyLshift ∨ c &&& 0x7F = keyRshift ↔
      c = keyLshift ||| 0x80 ∨ c = keyRshift ||| 0x80) ∧
    ¬(c = keyLshift ∨ c = keyRshift) ∧ c ≠ keyCapslock ∧ ¬c < 0x80 := by
  obtain ⟨i, rfl⟩ : ∃ i : Fin 256, UInt8.ofFin i = c := ⟨c.toFin, rfl⟩
  revert i
  decide +kernel

theorem press_ne {c : UInt8} (h : c &&& 0x80 = 0) :
    ¬(c = keyLshift ||| 0x80 ∨ c = keyRshift ||| 0x80) := by
  rintro (rfl | rfl) <;> exact absurd h (by decide)

/-- **The flags** follow the codes. -/
theorem keyboardKey_keys (codes : List UInt8) (c : UInt8) :
    (keyboardKey c (keysAfter codes)).2 = keysAfter (codes ++ [c]) := by
  rw [keysAfter, keysAfter, shiftDown_concat, capsOn_concat, keyboardKey]
  by_cases hrelease : c &&& 0x80 ≠ 0
  · obtain ⟨hshift, hpress, hcaps, -⟩ := release_iff c hrelease
    rw [if_pos hrelease, if_neg hpress, if_neg hcaps]
    by_cases h : c = keyLshift ||| 0x80 ∨ c = keyRshift ||| 0x80
    · rw [if_pos h, if_pos (hshift.mpr h)]
      rfl
    · rw [if_neg h, if_neg (mt hshift.mp h)]
  · rw [if_neg hrelease, if_neg (press_ne (not_not.mp hrelease))]
    by_cases hshift : c = keyLshift ∨ c = keyRshift
    · have hnc : c ≠ keyCapslock := by
        rcases hshift with rfl | rfl <;> decide
      rw [if_pos hshift, if_pos hshift, if_neg hnc]
      rfl
    · rw [if_neg hshift, if_neg hshift]
      by_cases hc : c = keyCapslock
      · rw [if_pos hc, if_pos hc]
        cases capsOn codes <;> rfl
      · rw [if_neg hc, if_neg hc]
        split <;> rfl

/-- Caps Lock and the tables: the key has a character with it if and only if it has one without,
and the two differ in case only, but for a key with two characters and no shift key down. -/
theorem keyCharacter_caps {c : UInt8} (hc : c &&& 0x80 = 0) (shift caps : Bool) :
    (keyCharacter c ⟨flagByte shift, flagByte caps⟩ = 0 ↔
      keyCharacter c ⟨flagByte shift, 0⟩ = 0) ∧
    (SameUpToCase (keyCharacter c ⟨flagByte shift, flagByte caps⟩)
        (keyCharacter c ⟨flagByte shift, 0⟩) ↔
      ¬(IsSymbolKey c ∧ caps = true ∧ shift = false)) := by
  obtain ⟨i, rfl⟩ : ∃ i : Fin 256, UInt8.ofFin i = c := ⟨c.toFin, rfl⟩
  revert shift caps i
  decide +kernel

/-! ### Runs -/

/-- The characters pushed for `codes`, with the codes before them. -/
def keyChars (pre : List UInt8) : List UInt8 → List UInt8
  | [] => []
  | c :: codes => (keyboardKey c (keysAfter pre)).1.toList ++ keyChars (pre ++ [c]) codes

section Run

variable {k : Keyboard} {q pre codes : List UInt8}

/-- **One interrupt** has room for its character or drops it. -/
theorem keyboardHandler_spec (hk : k.keys = keysAfter pre) (hq : k.buffer.Stores q) (c : UInt8) :
    ∃ k' q', keyboardHandler c k = some ((keyboardKey c (keysAfter pre)).1, k') ∧
      k'.keys = keysAfter (pre ++ [c]) ∧ k'.buffer.Stores q' := by
  have hkeys := keyboardKey_keys pre c
  rw [keyboardHandler, hk]
  generalize keyboardKey c (keysAfter pre) = r at hkeys
  obtain ⟨_ | character, keys⟩ := r
  · exact ⟨_, q, rfl, hkeys, hq⟩
  · obtain ⟨b', hpush, hstores⟩ := hq.push character
    refine ⟨⟨keys, b'⟩, _, ?_, hkeys, hstores⟩
    dsimp only
    rw [keyboardBufferPush, hpush, Option.map_some]

/-- **A run** pushes the characters of its codes. -/
theorem keyboardRun_spec (hk : k.keys = keysAfter pre) (hq : k.buffer.Stores q)
    (codes : List UInt8) : ∃ outs k', run keyboardHandler codes k = some (outs, k') ∧
      outs.reduceOption = keyChars pre codes ∧ k'.keys = keysAfter (pre ++ codes) := by
  induction codes generalizing k q pre with
  | nil => exact ⟨[], k, rfl, rfl, by rw [List.append_nil, hk]⟩
  | cons c codes ih =>
      obtain ⟨k₁, q₁, hstep, hk₁, hq₁⟩ := keyboardHandler_spec hk hq c
      obtain ⟨outs, k', hrun, houts, hk'⟩ := ih hk₁ hq₁
      refine ⟨_ :: outs, k', run_cons_some.mpr ⟨_, k₁, outs, hstep, hrun, rfl⟩, ?_, ?_⟩
      · rw [keyChars, ← houts]
        cases (keyboardKey c (keysAfter pre)).1 <;> rfl
      · rw [hk', List.append_assoc, List.singleton_append]

theorem keyboardStart_run (buffer : InputBuffer keyboardBufferSize) (codes : List UInt8) :
    ∃ outs k, run keyboardHandler codes (keyboardStart buffer) = some (outs, k) ∧
      outs.reduceOption = keyChars [] codes ∧ k.keys = keysAfter codes :=
  have hempty : (keyboardStart buffer).buffer.Stores [] := stores_nil rfl (Nat.succ_pos 255)
  have hkeys : (keyboardStart buffer).keys = keysAfter [] := rfl
  keyboardRun_spec hkeys hempty codes

/-! ### The shift flag -/

/-- The flag is right for as long as no shift key is released while the other is held. -/
theorem shiftDown_iff_held (h : ReleasesAlone codes) (hpre : pre <+: codes) :
    shiftDown pre = true ↔ shiftHeld pre := by
  induction pre using List.reverseRecOn with
  | nil => simp [shiftDown, shiftHeld, keyHeld]
  | append_singleton pre c ih =>
      obtain ⟨hl, hr⟩ := h pre c hpre
      have ih := ih ((List.prefix_append pre [c]).trans hpre)
      rw [shiftHeld] at ih ⊢
      rw [shiftDown_concat, keyHeld_concat, keyHeld_concat]
      by_cases hpress : c = keyLshift ∨ c = keyRshift
      · rw [if_pos hpress]
        rcases hpress with rfl | rfl <;> simp
      · obtain ⟨hnl, hnr⟩ := not_or.mp hpress
        rw [if_neg hpress, if_neg hnl, if_neg hnr]
        by_cases hrl : c = keyLshift ||| 0x80
        · have hother := hl hrl
          rw [if_pos (Or.inl hrl), if_pos hrl, hother]
          simp
        · by_cases hrr : c = keyRshift ||| 0x80
          · have hother := hr hrr
            rw [if_pos (Or.inr hrr), if_pos hrr, if_neg hrl, hother]
            simp
          · rw [if_neg (not_or.mpr ⟨hrl, hrr⟩), if_neg hrl, if_neg hrr]
            exact ih

/-- **The shift flag tells whether a shift key is held** after every code, if and only if no
shift key is released while the other one is held. -/
theorem keyboard_shift_iff (buffer : InputBuffer keyboardBufferSize) (codes : List UInt8) :
    (∀ pre, pre <+: codes → ∃ outs k,
        run keyboardHandler pre (keyboardStart buffer) = some (outs, k) ∧
        (k.keys.shiftPressed = 1 ↔ shiftHeld pre)) ↔ ReleasesAlone codes := by
  have hflag : ∀ pre outs k, run keyboardHandler pre (keyboardStart buffer) = some (outs, k) →
      (k.keys.shiftPressed = 1 ↔ shiftDown pre = true) := by
    intro pre outs k hrun
    obtain ⟨outs', k', hrun', -, hk⟩ := keyboardStart_run buffer pre
    rw [hrun', Option.some.injEq, Prod.mk.injEq] at hrun
    rw [← hrun.2, hk, keysAfter]
    exact flagByte_eq_one
  constructor
  · intro h pre c hpre
    obtain ⟨outs, k, hrun, hk⟩ := h _ hpre
    rw [hflag _ _ _ hrun, shiftHeld, shiftDown_concat, keyHeld_concat, keyHeld_concat] at hk
    constructor
    · rintro rfl
      rw [if_neg (by decide), if_pos (by decide), if_neg (by decide), if_pos rfl,
        if_neg (by decide), if_neg (by decide)] at hk
      simpa using hk
    · rintro rfl
      rw [if_neg (by decide), if_pos (by decide), if_neg (by decide), if_neg (by decide),
        if_neg (by decide), if_pos rfl] at hk
      simpa using hk
  · intro h pre hpre
    obtain ⟨outs, k, hrun, -⟩ := keyboardStart_run buffer pre
    exact ⟨outs, k, hrun, (hflag _ _ _ hrun).trans (shiftDown_iff_held h hpre)⟩

/-- Left shift pressed, right shift pressed, right shift released: the flag is off, and the left
key is still held. -/
theorem keyboard_shift_both : Alternates keyLshift [0x2A, 0x36, 0xB6] ∧
    Alternates keyRshift [0x2A, 0x36, 0xB6] ∧ shiftHeld [0x2A, 0x36, 0xB6] ∧
    ∀ buffer, ∃ outs k,
      run keyboardHandler [0x2A, 0x36, 0xB6] (keyboardStart buffer) = some (outs, k) ∧
      k.keys.shiftPressed ≠ 1 := by
  refine ⟨?_, ?_, Or.inl (by decide), ?_⟩
  · simp only [Alternates, along_cons]
    exact ⟨by decide, by decide, by decide, along_nil⟩
  · simp only [Alternates, along_cons]
    exact ⟨by decide, by decide, by decide, along_nil⟩
  · intro buffer
    obtain ⟨outs, k, hrun, -, hk⟩ := keyboardStart_run buffer [0x2A, 0x36, 0xB6]
    refine ⟨outs, k, hrun, ?_⟩
    rw [hk]
    decide

/-! ### Caps Lock -/

/-- The codes with every press of Caps Lock deleted. -/
def withoutCaps (codes : List UInt8) : List UInt8 := codes.filter (· ≠ keyCapslock)

theorem withoutCaps_concat {c : UInt8} :
    withoutCaps (codes ++ [c]) = withoutCaps codes ++ if c = keyCapslock then [] else [c] := by
  rw [withoutCaps, List.filter_append, withoutCaps]
  by_cases hc : c = keyCapslock
  · rw [if_pos hc, List.filter_cons_of_neg (by simp [hc]), List.filter_nil]
  · rw [if_neg hc, List.filter_cons_of_pos (by simp [hc]), List.filter_nil]

theorem withoutCaps_cons {c : UInt8} :
    withoutCaps (c :: codes) = (if c = keyCapslock then [] else [c]) ++ withoutCaps codes := by
  by_cases hc : c = keyCapslock
  · rw [if_pos hc, withoutCaps, List.filter_cons_of_neg (by simp [hc])]
    rfl
  · rw [if_neg hc, withoutCaps, List.filter_cons_of_pos (by simp [hc])]
    rfl

theorem shiftDown_withoutCaps (codes : List UInt8) :
    shiftDown (withoutCaps codes) = shiftDown codes := by
  induction codes using List.reverseRecOn with
  | nil => rfl
  | append_singleton codes c ih =>
      rw [withoutCaps_concat]
      by_cases hc : c = keyCapslock
      · subst hc
        rw [if_pos rfl, List.append_nil, ih, shiftDown_concat, if_neg (by decide),
          if_neg (by decide)]
      · rw [if_neg hc, shiftDown_concat, shiftDown_concat, ih]

/-- Without its presses Caps Lock is off, and the shift flag is the same. -/
theorem keysAfter_withoutCaps (codes : List UInt8) :
    keysAfter (withoutCaps codes) = ⟨flagByte (shiftDown codes), 0⟩ := by
  have hcaps : capsOn (withoutCaps codes) = false := by
    rw [capsOn, withoutCaps, List.count_eq_zero_of_not_mem (by simp)]
    rfl
  rw [keysAfter, hcaps, shiftDown_withoutCaps]
  rfl

/-- **One key** pushes a character with Caps Lock if and only if it does without, and the two
agree up to case but for a symbol key. -/
theorem keyboardKey_caps {c : UInt8} (hc : c ≠ keyCapslock) (shift caps : Bool) :
    ((keyboardKey c ⟨flagByte shift, flagByte caps⟩).1 = none ∧
      (keyboardKey c ⟨flagByte shift, 0⟩).1 = none ∧
      ¬(IsSymbolKey c ∧ caps = true ∧ shift = false)) ∨
    ∃ a b, (keyboardKey c ⟨flagByte shift, flagByte caps⟩).1 = some a ∧
      (keyboardKey c ⟨flagByte shift, 0⟩).1 = some b ∧
      (SameUpToCase a b ↔ ¬(IsSymbolKey c ∧ caps = true ∧ shift = false)) := by
  rw [keyboardKey, keyboardKey]
  by_cases hrelease : c &&& 0x80 ≠ 0
  · left
    rw [if_pos hrelease, if_pos hrelease]
    refine ⟨by split <;> rfl, by split <;> rfl, ?_⟩
    rintro ⟨⟨hlt, -⟩, -⟩
    exact (release_iff c hrelease).2.2.2 hlt
  rw [if_neg hrelease, if_neg hrelease]
  by_cases hshift : c = keyLshift ∨ c = keyRshift
  · left
    rw [if_pos hshift, if_pos hshift]
    refine ⟨rfl, rfl, ?_⟩
    rcases hshift with rfl | rfl <;> exact fun h => absurd h.1 (by decide)
  rw [if_neg hshift, if_neg hshift, if_neg hc, if_neg hc]
  obtain ⟨hzero, hsame⟩ := keyCharacter_caps (not_not.mp hrelease) shift caps
  by_cases h0 : keyCharacter c ⟨flagByte shift, flagByte caps⟩ = 0
  · left
    rw [if_neg (not_not.mpr h0), if_neg (not_not.mpr (hzero.mp h0))]
    refine ⟨rfl, rfl, hsame.mp ?_⟩
    rw [h0, hzero.mp h0]
    rfl
  · right
    rw [if_pos h0, if_pos (mt hzero.mpr h0)]
    exact ⟨_, _, rfl, rfl, hsame⟩

/-- The two runs push as many characters, and these agree up to case if and only if every
symbol key is pressed with Caps Lock off or the shift flag on. -/
theorem keyChars_withoutCaps (pre codes : List UInt8) :
    (keyChars pre codes).length = (keyChars (withoutCaps pre) (withoutCaps codes)).length ∧
    (List.Forall₂ SameUpToCase (keyChars pre codes)
        (keyChars (withoutCaps pre) (withoutCaps codes)) ↔
      Along (fun mid c => ¬(IsSymbolKey c ∧ capsOn (pre ++ mid) = true ∧
        shiftDown (pre ++ mid) = false)) codes) := by
  induction codes generalizing pre with
  | nil => exact ⟨rfl, iff_of_true List.Forall₂.nil along_nil⟩
  | cons c codes ih =>
      obtain ⟨hlen, hsame⟩ := ih (pre ++ [c])
      simp only [List.append_assoc, List.singleton_append] at hsame
      rw [along_cons, List.append_nil, withoutCaps_cons, keyChars]
      by_cases hc : c = keyCapslock
      · subst hc
        rw [withoutCaps_concat, if_pos rfl, List.append_nil] at hlen hsame
        rw [if_pos rfl, List.nil_append]
        exact ⟨hlen, hsame.trans (and_iff_right (fun h => absurd h.1 (by decide))).symm⟩
      · rw [withoutCaps_concat, if_neg hc] at hlen hsame
        rw [if_neg hc, List.singleton_append, keyChars, keysAfter_withoutCaps, ← hsame]
        rcases keyboardKey_caps hc (shiftDown pre) (capsOn pre) with
          ⟨hnone, hnone', hno⟩ | ⟨a, b, ha, hb, hab⟩
        · rw [keysAfter, hnone, hnone']
          exact ⟨hlen, (and_iff_right hno).symm⟩
        · rw [keysAfter, ha, hb, ← hab]
          exact ⟨congrArg Nat.succ hlen, List.forall₂_cons⟩

/-- **Caps Lock affects only the case of letters** if and only if no key with two symbols is
pressed with Caps Lock on and the shift flag off. -/
theorem keyboard_capsLock_iff (buffer : InputBuffer keyboardBufferSize) (codes : List UInt8) :
    ∃ outs k outs' k', run keyboardHandler codes (keyboardStart buffer) = some (outs, k) ∧
      run keyboardHandler (codes.filter (· ≠ keyCapslock)) (keyboardStart buffer)
        = some (outs', k') ∧
      outs.reduceOption.length = outs'.reduceOption.length ∧
      (List.Forall₂ SameUpToCase outs.reduceOption outs'.reduceOption ↔
        NoSymbolInCaps codes) := by
  obtain ⟨outs, k, hrun, houts, -⟩ := keyboardStart_run buffer codes
  obtain ⟨outs', k', hrun', houts', -⟩ := keyboardStart_run buffer (withoutCaps codes)
  obtain ⟨hlen, hsame⟩ := keyChars_withoutCaps [] codes
  rw [← houts, show withoutCaps [] = [] from rfl, ← houts'] at hlen hsame
  exact ⟨outs, k, outs', k', hrun, hrun', hlen, hsame⟩

/-- Caps Lock pressed and released, then the key 1: an exclamation mark, and not a 1. -/
theorem keyboard_capsLock_digit : ¬List.Forall₂ SameUpToCase [33] [49] ∧
    ∀ buffer, ∃ outs k outs' k',
      run keyboardHandler [0x3A, 0xBA, 0x02] (keyboardStart buffer) = some (outs, k) ∧
      run keyboardHandler [0xBA, 0x02] (keyboardStart buffer) = some (outs', k') ∧
      outs.reduceOption = [33] ∧ outs'.reduceOption = [49] := by
  constructor
  · rw [List.forall₂_cons]
    exact fun h => absurd h.1 (by decide)
  · intro buffer
    obtain ⟨outs, k, hrun, houts, -⟩ := keyboardStart_run buffer [0x3A, 0xBA, 0x02]
    obtain ⟨outs', k', hrun', houts', -⟩ := keyboardStart_run buffer [0xBA, 0x02]
    have hbang : keyChars [] [0x3A, 0xBA, 0x02] = [33] := by decide
    have hone : keyChars [] [0xBA, 0x02] = [49] := by decide
    exact ⟨outs, k, outs', k', hrun, hrun', houts.trans hbang, houts'.trans hone⟩

end Run

end AceOS.Drivers
