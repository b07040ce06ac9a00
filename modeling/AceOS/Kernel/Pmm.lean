import AceOS.Lib.Bitmap
import AceOS.Lib.Machine
import AceOS.Libc.String
import Mathlib.Order.Bounds.Basic
import Mathlib.Data.Finset.Lattice.Fold

/-!
# The physical frame allocator (`src/kernel/pmm.c`)

`pmm` keeps a bitmap of frames at `MEMORY_START`, a count of the free ones and
a hint below which no frame is free.  The bitmap lies in the memory it
describes, so the state is the memory together with the manager's fields.

The allocator is for the set of free frames: `freeFrameSet`.  Each operation is
read as an operation on that set (`pmmAllocFrame_spec` takes its least member,
`pmmFreeFrame_spec` inserts, `pmmMarkFrameUsed_spec` erases), and `PmmInv` is
what the counter and the hint have to do with it.
-/

namespace AceOS.Kernel

open Memory Bitmap AceOS.Libc

/-! ### The code -/

abbrev pageSize : Nat := 4096
abbrev memoryStart : Nat := 0x200000
abbrev memorySize : Nat := 0x1E00000

/-- `physical_memory_manager_t`. -/
structure PhysicalMemoryManager where
  bitmap : Nat
  bitmapSize : Nat
  totalFrames : Nat
  freeFrames : Nat
  firstFreeFrame : Nat
  deriving DecidableEq, Repr

/-- Physical memory and the static `pmm`. -/
structure Phys where
  mem : Mem
  pmm : PhysicalMemoryManager

/-- `pmm.bitmap[word_index] & (1 << bit_index)` is zero. -/
def frameClear (s : Phys) (i : Nat) : Bool :=
  word s.mem s.pmm.bitmap i &&& 1 <<< (i % 32) == 0

def pmmMarkFrameUsed (frameIndex : Nat) (s : Phys) : Phys :=
  if s.pmm.totalFrames ≤ frameIndex then s
  else if frameClear s frameIndex then
    { mem := setBit s.mem s.pmm.bitmap frameIndex
      pmm := { s.pmm with freeFrames := sub32 s.pmm.freeFrames 1 } }
  else s

def pmmInit (m : Mem) : Phys :=
  let totalFrames := memorySize / pageSize
  let bitmapSize := (totalFrames + 31) / 32
  let m := memset m memoryStart 0 (bitmapSize * 4)
  let bitmapFrames := (bitmapSize * 4 + pageSize - 1) / pageSize
  (List.range bitmapFrames).foldl (fun s i => pmmMarkFrameUsed i s)
    { mem := m
      pmm := { bitmap := memoryStart, bitmapSize := bitmapSize, totalFrames := totalFrames,
               freeFrames := totalFrames, firstFreeFrame := 0 } }

/-- The scan of `n` frames from `i` on: the first one whose bit is clear. -/
def scanClear (s : Phys) : (i n : Nat) → Option Nat
  | _, 0 => none
  | i, n + 1 => if frameClear s i then some i else scanClear s (i + 1) n

def pmmAllocFrame (s : Phys) : Nat × Phys :=
  if s.pmm.freeFrames = 0 then (0, s)
  else
    match scanClear s s.pmm.firstFreeFrame (s.pmm.totalFrames - s.pmm.firstFreeFrame) with
    | some i =>
        (add32 memoryStart (mul32 i pageSize),
          { mem := setBit s.mem s.pmm.bitmap i
            pmm := { s.pmm with
              freeFrames := sub32 s.pmm.freeFrames 1
              firstFreeFrame :=
                if i = s.pmm.firstFreeFrame then add32 s.pmm.firstFreeFrame 1
                else s.pmm.firstFreeFrame } })
    | none =>
        -- the fallback: search again from the beginning
        match scanClear s 0 s.pmm.firstFreeFrame with
        | some i =>
            (add32 memoryStart (mul32 i pageSize),
              { mem := setBit s.mem s.pmm.bitmap i
                pmm := { s.pmm with freeFrames := sub32 s.pmm.freeFrames 1 } })
        | none => (0, s)

def pmmFreeFrame (frameAddr : Nat) (s : Phys) : Phys :=
  if frameAddr < memoryStart then s
  else
    let frameIndex := (frameAddr - memoryStart) / pageSize
    if s.pmm.totalFrames ≤ frameIndex then s
    else if frameClear s frameIndex then s
    else
      { mem := clearBit s.mem s.pmm.bitmap frameIndex
        pmm := { s.pmm with
          freeFrames := add32 s.pmm.freeFrames 1
          firstFreeFrame :=
            if frameIndex < s.pmm.firstFreeFrame then frameIndex else s.pmm.firstFreeFrame } }

def pmmGetFreeFrames (s : Phys) : Nat := s.pmm.freeFrames

/-! ### The set of free frames -/

/-- The frames the bitmap has as free. -/
def freeFrameSet (s : Phys) : Finset Nat := clearSet s.mem s.pmm.bitmap s.pmm.totalFrames

/-- Frame `i` is marked used. -/
def FrameUsed (s : Phys) (i : Nat) : Prop := bit s.mem s.pmm.bitmap i = true

instance (s : Phys) (i : Nat) : Decidable (FrameUsed s i) :=
  inferInstanceAs (Decidable (_ = true))

theorem frameClear_eq (s : Phys) (i : Nat) : frameClear s i = !bit s.mem s.pmm.bitmap i := by
  rw [frameClear, Bool.eq_iff_iff, beq_iff_eq, and_one_shiftLeft_eq_zero, Bool.not_eq_true']
  rfl

theorem frameClear_iff {s : Phys} {i : Nat} : frameClear s i = true ↔ ¬FrameUsed s i := by
  rw [frameClear_eq, FrameUsed, Bool.not_eq_true', Bool.not_eq_true]

theorem mem_freeFrameSet {s : Phys} {i : Nat} :
    i ∈ freeFrameSet s ↔ i < s.pmm.totalFrames ∧ ¬FrameUsed s i := by
  rw [freeFrameSet, mem_clearSet, FrameUsed, Bool.not_eq_true]

abbrev frameAddress (i : Nat) : Nat := memoryStart + pageSize * i

theorem frameAddress_inj {i j : Nat} : frameAddress i = frameAddress j ↔ i = j := by
  simp only [frameAddress, memoryStart, pageSize]
  omega

theorem frameIndex_eq {a i : Nat} (h : frameAddress i ≤ a) (h' : a < frameAddress i + pageSize) :
    (a - memoryStart) / pageSize = i := by
  simp only [frameAddress, memoryStart, pageSize] at *
  omega

/-! ### The invariant -/

/-- The counter counts the free frames, and no frame below the hint is free. -/
structure PmmInv (s : Phys) : Prop where
  bitmap : s.pmm.bitmap = memoryStart
  total : s.pmm.totalFrames = 7680
  count : s.pmm.freeFrames = (freeFrameSet s).card
  hint_le : s.pmm.firstFreeFrame ≤ s.pmm.totalFrames
  hint : ∀ i < s.pmm.firstFreeFrame, FrameUsed s i

namespace PmmInv

variable {s : Phys}

theorem count_le (h : PmmInv s) : s.pmm.freeFrames ≤ 7680 := by
  rw [h.count, ← h.total]
  exact (Finset.card_filter_le _ _).trans (Finset.card_range _).le

theorem freeFrames_eq_zero_iff (h : PmmInv s) : s.pmm.freeFrames = 0 ↔ freeFrameSet s = ∅ := by
  rw [h.count, Finset.card_eq_zero]

theorem hint_le_of_mem (h : PmmInv s) {i : Nat} (hi : i ∈ freeFrameSet s) :
    s.pmm.firstFreeFrame ≤ i := by
  by_contra hlt
  exact (mem_freeFrameSet.mp hi).2 (h.hint i (by omega))

end PmmInv

/-- What no call changes, whatever becomes of the bitmap. -/
structure PmmPlaced (s : Phys) : Prop where
  bitmap : s.pmm.bitmap = memoryStart
  total : s.pmm.totalFrames = 7680
  hint_le : s.pmm.firstFreeFrame ≤ 7680

theorem PmmInv.placed {s : Phys} (h : PmmInv s) : PmmPlaced s :=
  ⟨h.bitmap, h.total, h.total ▸ h.hint_le⟩

/-! ### One operation -/

theorem scanClear_eq_some {s : Phys} : ∀ {i n j : Nat}, scanClear s i n = some j →
    i ≤ j ∧ j < i + n ∧ ¬FrameUsed s j ∧ ∀ k, i ≤ k → k < j → FrameUsed s k := by
  intro i n
  induction n generalizing i with
  | zero => intro j h; simp [scanClear] at h
  | succ n ih =>
      intro j h
      rw [scanClear] at h
      by_cases hc : frameClear s i = true
      · rw [if_pos hc, Option.some.injEq] at h
        subst h
        exact ⟨le_refl i, by omega, frameClear_iff.mp hc, fun k h₁ h₂ => absurd h₂ (by omega)⟩
      · rw [if_neg hc] at h
        obtain ⟨h₁, h₂, h₃, h₄⟩ := ih h
        refine ⟨by omega, by omega, h₃, fun k hk hk' => ?_⟩
        by_cases he : k = i
        · subst he
          by_contra hu
          exact hc (frameClear_iff.mpr hu)
        · exact h₄ k (by omega) hk'

theorem scanClear_eq_none {s : Phys} : ∀ {i n : Nat},
    scanClear s i n = none ↔ ∀ k, i ≤ k → k < i + n → FrameUsed s k := by
  intro i n
  induction n generalizing i with
  | zero => simp only [scanClear, true_iff]; intro k h₁ h₂; omega
  | succ n ih =>
      rw [scanClear]
      by_cases hc : frameClear s i = true
      · rw [if_pos hc]
        simp only [reduceCtorEq, false_iff]
        exact fun h => frameClear_iff.mp hc (h i (le_refl i) (by omega))
      · rw [if_neg hc, ih]
        refine ⟨fun h k h₁ h₂ => ?_, fun h k h₁ h₂ => h k (by omega) (by omega)⟩
        by_cases he : k = i
        · subst he
          by_contra hu
          exact hc (frameClear_iff.mpr hu)
        · exact h k (by omega) (by omega)

/-- The fallback scan never finds a frame. -/
theorem PmmInv.fallback {s : Phys} (h : PmmInv s) :
    scanClear s 0 s.pmm.firstFreeFrame = none :=
  scanClear_eq_none.mpr fun k _ hk => h.hint k (by omega)

/-- An allocation returns `0` and changes nothing, or takes a frame that is marked free. -/
theorem pmmAllocFrame_cases {s : Phys} (h : PmmPlaced s) :
    pmmAllocFrame s = (0, s) ∨
      ∃ i < 7680, ¬FrameUsed s i ∧ (pmmAllocFrame s).1 = frameAddress i ∧
        (pmmAllocFrame s).2.mem = setBit s.mem memoryStart i ∧ PmmPlaced (pmmAllocFrame s).2 := by
  have htotal := h.total
  have hhint := h.hint_le
  have haddr : ∀ i < 7680, add32 memoryStart (mul32 i pageSize) = frameAddress i := by
    intro i hi
    simp only [add32, mul32, memoryStart, pageSize, frameAddress]
    omega
  have hword : ∀ i, setBit s.mem s.pmm.bitmap i = setBit s.mem memoryStart i := by
    intro i
    rw [h.bitmap]
  rw [pmmAllocFrame]
  split
  · exact Or.inl rfl
  split
  · rename_i i hs
    obtain ⟨h₁, h₂, h₃, -⟩ := scanClear_eq_some hs
    have hlt : i < 7680 := by omega
    refine Or.inr ⟨i, hlt, h₃, haddr i hlt, hword i, ⟨h.bitmap, htotal, ?_⟩⟩
    dsimp only
    split
    · rw [add32_of_lt (by omega)]
      omega
    · exact hhint
  split
  · rename_i i hs
    obtain ⟨h₁, h₂, h₃, -⟩ := scanClear_eq_some hs
    have hlt : i < 7680 := by omega
    exact Or.inr ⟨i, hlt, h₃, haddr i hlt, hword i, ⟨h.bitmap, htotal, hhint⟩⟩
  · exact Or.inl rfl

section Bits

variable {s s' : Phys} {i : Nat}

theorem freeFrameSet_setBit (hm : s'.mem = setBit s.mem s.pmm.bitmap i)
    (hb : s'.pmm.bitmap = s.pmm.bitmap) (ht : s'.pmm.totalFrames = s.pmm.totalFrames) :
    freeFrameSet s' = (freeFrameSet s).erase i := by
  rw [freeFrameSet, hm, hb, ht, clearSet_setBit]
  rfl

theorem freeFrameSet_clearBit (hm : s'.mem = clearBit s.mem s.pmm.bitmap i)
    (hb : s'.pmm.bitmap = s.pmm.bitmap) (ht : s'.pmm.totalFrames = s.pmm.totalFrames)
    (hi : i < s.pmm.totalFrames) : freeFrameSet s' = insert i (freeFrameSet s) := by
  rw [freeFrameSet, hm, hb, ht, clearSet_clearBit hi]
  rfl

theorem frameUsed_setBit (hm : s'.mem = setBit s.mem s.pmm.bitmap i)
    (hb : s'.pmm.bitmap = s.pmm.bitmap) (j : Nat) : FrameUsed s' j ↔ j = i ∨ FrameUsed s j := by
  simp only [FrameUsed, hm, hb, bit_setBit, Bool.or_eq_true, decide_eq_true_eq]

theorem frameUsed_clearBit (hm : s'.mem = clearBit s.mem s.pmm.bitmap i)
    (hb : s'.pmm.bitmap = s.pmm.bitmap) (j : Nat) : FrameUsed s' j ↔ j ≠ i ∧ FrameUsed s j := by
  simp only [FrameUsed, hm, hb, bit_clearBit, Bool.and_eq_true, Bool.not_eq_true',
    decide_eq_false_iff_not, ne_eq]

/-- A free frame is taken out of the bitmap, with the counter and some hint in step. -/
theorem PmmInv.take (h : PmmInv s) (hi : i ∈ freeFrameSet s)
    (hm : s'.mem = setBit s.mem s.pmm.bitmap i) (hb : s'.pmm.bitmap = s.pmm.bitmap)
    (ht : s'.pmm.totalFrames = s.pmm.totalFrames)
    (hf : s'.pmm.freeFrames = sub32 s.pmm.freeFrames 1)
    (hle : s'.pmm.firstFreeFrame ≤ s.pmm.totalFrames)
    (hfirst : ∀ k < s'.pmm.firstFreeFrame, k = i ∨ FrameUsed s k) : PmmInv s' where
  bitmap := hb.trans h.bitmap
  total := ht.trans h.total
  count := by
    have hpos : 0 < (freeFrameSet s).card := Finset.card_pos.mpr ⟨i, hi⟩
    have hc := h.count
    have hle := h.count_le
    rw [freeFrameSet_setBit hm hb ht, Finset.card_erase_of_mem hi, ← hc, hf]
    exact sub32_of_le (by omega) (by omega)
  hint_le := by rw [ht]; exact hle
  hint := fun k hk => (frameUsed_setBit hm hb k).mpr (hfirst k hk)

theorem PmmInv.give (h : PmmInv s) (hi : i < s.pmm.totalFrames) (hu : FrameUsed s i)
    (hm : s'.mem = clearBit s.mem s.pmm.bitmap i) (hb : s'.pmm.bitmap = s.pmm.bitmap)
    (ht : s'.pmm.totalFrames = s.pmm.totalFrames)
    (hf : s'.pmm.freeFrames = add32 s.pmm.freeFrames 1)
    (hfirst : s'.pmm.firstFreeFrame = min i s.pmm.firstFreeFrame) : PmmInv s' where
  bitmap := hb.trans h.bitmap
  total := ht.trans h.total
  count := by
    have hn : i ∉ freeFrameSet s := fun hn => (mem_freeFrameSet.mp hn).2 hu
    have hle := h.count_le
    rw [freeFrameSet_clearBit hm hb ht hi, Finset.card_insert_of_notMem hn, ← h.count, hf]
    exact add32_of_lt (by omega)
  hint_le := by have := h.hint_le; omega
  hint := fun k hk =>
    (frameUsed_clearBit hm hb k).mpr ⟨by omega, h.hint k (by omega)⟩

end Bits

theorem pmmMarkFrameUsed_spec {s : Phys} (h : PmmInv s) (i : Nat) :
    PmmInv (pmmMarkFrameUsed i s) ∧
      freeFrameSet (pmmMarkFrameUsed i s) = (freeFrameSet s).erase i := by
  unfold pmmMarkFrameUsed
  by_cases ht : s.pmm.totalFrames ≤ i
  · rw [if_pos ht]
    refine ⟨h, (Finset.erase_eq_of_notMem fun hm => ?_).symm⟩
    have := (mem_freeFrameSet.mp hm).1
    omega
  · rw [if_neg ht]
    by_cases hc : frameClear s i = true
    · have hm : i ∈ freeFrameSet s := mem_freeFrameSet.mpr ⟨by omega, frameClear_iff.mp hc⟩
      rw [if_pos hc]
      exact ⟨h.take hm rfl rfl rfl rfl h.hint_le fun k hk => Or.inr (h.hint k hk),
        freeFrameSet_setBit rfl rfl rfl⟩
    · rw [if_neg hc]
      refine ⟨h, (Finset.erase_eq_of_notMem fun hm => ?_).symm⟩
      exact hc (frameClear_iff.mpr (mem_freeFrameSet.mp hm).2)

/-- **Allocation takes the least free frame**, and reports `0` when there is none. -/
theorem pmmAllocFrame_spec {s : Phys} (h : PmmInv s) :
    (freeFrameSet s = ∅ ∧ pmmAllocFrame s = (0, s)) ∨
      ∃ i, IsLeast (freeFrameSet s : Set Nat) i ∧ (pmmAllocFrame s).1 = frameAddress i ∧
        PmmInv (pmmAllocFrame s).2 ∧
        (pmmAllocFrame s).2.mem = setBit s.mem memoryStart i ∧
        freeFrameSet (pmmAllocFrame s).2 = (freeFrameSet s).erase i := by
  by_cases hz : s.pmm.freeFrames = 0
  · left
    exact ⟨h.freeFrames_eq_zero_iff.mp hz, by unfold pmmAllocFrame; rw [if_pos hz]⟩
  · right
    have hne : (freeFrameSet s).Nonempty := by
      rw [Finset.nonempty_iff_ne_empty]
      exact fun he => hz (h.freeFrames_eq_zero_iff.mpr he)
    cases hs : scanClear s s.pmm.firstFreeFrame (s.pmm.totalFrames - s.pmm.firstFreeFrame) with
    | none =>
        -- every frame from the hint on is used, and so is every frame below it
        obtain ⟨i, hi⟩ := hne
        have hle := h.hint_le_of_mem hi
        have hlt := (mem_freeFrameSet.mp hi).1
        exact absurd (scanClear_eq_none.mp hs i hle (by omega)) (mem_freeFrameSet.mp hi).2
    | some i =>
        obtain ⟨h₁, h₂, h₃, h₄⟩ := scanClear_eq_some hs
        have ht := h.total
        have hlt : i < s.pmm.totalFrames := by have := h.hint_le; omega
        have hm : i ∈ freeFrameSet s := mem_freeFrameSet.mpr ⟨hlt, h₃⟩
        have haddr : add32 memoryStart (mul32 i pageSize) = frameAddress i := by
          simp only [add32, mul32, memoryStart, pageSize, frameAddress]
          omega
        have hfirst : (if i = s.pmm.firstFreeFrame then add32 s.pmm.firstFreeFrame 1
            else s.pmm.firstFreeFrame) ≤ s.pmm.totalFrames ∧
            ∀ k < (if i = s.pmm.firstFreeFrame then add32 s.pmm.firstFreeFrame 1
              else s.pmm.firstFreeFrame), k = i ∨ FrameUsed s k := by
          by_cases he : i = s.pmm.firstFreeFrame
          · rw [if_pos he, add32_of_lt (by omega)]
            refine ⟨by omega, fun k hk => ?_⟩
            by_cases hki : k = i
            · exact Or.inl hki
            · exact Or.inr (h.hint k (by omega))
          · rw [if_neg he]
            exact ⟨h.hint_le, fun k hk => Or.inr (h.hint k hk)⟩
        refine ⟨i, ⟨hm, fun j hj => ?_⟩, ?_⟩
        · by_contra hji
          have hj' := mem_freeFrameSet.mp hj
          exact hj'.2 (h₄ j (h.hint_le_of_mem hj) (by omega))
        · unfold pmmAllocFrame
          rw [if_neg hz, hs]
          refine ⟨haddr, h.take hm rfl rfl rfl rfl hfirst.1 hfirst.2, ?_,
            freeFrameSet_setBit rfl rfl rfl⟩
          simp only [h.bitmap]

theorem pmmFreeFrame_spec {s : Phys} (h : PmmInv s) (a : Nat) :
    PmmInv (pmmFreeFrame a s) ∧
      freeFrameSet (pmmFreeFrame a s) =
        if memoryStart ≤ a ∧ (a - memoryStart) / pageSize < 7680 then
          insert ((a - memoryStart) / pageSize) (freeFrameSet s)
        else freeFrameSet s := by
  unfold pmmFreeFrame
  have ht := h.total
  by_cases ha : a < memoryStart
  · rw [if_pos ha, if_neg (by omega)]
    exact ⟨h, rfl⟩
  · rw [if_neg ha]
    generalize hi : (a - memoryStart) / pageSize = i
    simp only
    by_cases hlt : s.pmm.totalFrames ≤ i
    · rw [if_pos hlt, if_neg (by omega)]
      exact ⟨h, rfl⟩
    · rw [if_neg hlt, if_pos (show memoryStart ≤ a ∧ i < 7680 from ⟨by omega, by omega⟩)]
      by_cases hc : frameClear s i = true
      · have hm : i ∈ freeFrameSet s := mem_freeFrameSet.mpr ⟨by omega, frameClear_iff.mp hc⟩
        rw [if_pos hc, Finset.insert_eq_of_mem hm]
        exact ⟨h, rfl⟩
      · have hu : FrameUsed s i := by
          by_contra hu
          exact hc (frameClear_iff.mpr hu)
        have hmin : (if i < s.pmm.firstFreeFrame then i else s.pmm.firstFreeFrame)
            = min i s.pmm.firstFreeFrame := by split <;> omega
        rw [if_neg hc]
        exact ⟨h.give (by omega) hu rfl rfl rfl rfl hmin,
          freeFrameSet_clearBit rfl rfl rfl (by omega)⟩

/-- The state `pmm_init` leaves: every frame free but the one the bitmap lies in. -/
theorem pmmInit_spec (m : Mem) :
    PmmInv (pmmInit m) ∧ freeFrameSet (pmmInit m) = (Finset.range 7680).erase 0 := by
  have hstart : freeFrameSet ⟨memset m memoryStart 0 960,
      { bitmap := memoryStart, bitmapSize := 240, totalFrames := 7680, freeFrames := 7680,
        firstFreeFrame := 0 }⟩ = Finset.range 7680 := by
    rw [freeFrameSet, memset_eq_fill]
    exact clearSet_fill_zero m memoryStart 7680
  have hinv : PmmInv ⟨memset m memoryStart 0 960,
      { bitmap := memoryStart, bitmapSize := 240, totalFrames := 7680, freeFrames := 7680,
        firstFreeFrame := 0 }⟩ :=
    ⟨rfl, rfl, by rw [hstart, Finset.card_range], Nat.zero_le _,
      fun i hi => absurd hi (Nat.not_lt_zero i)⟩
  have hinit : pmmInit m = pmmMarkFrameUsed 0 ⟨memset m memoryStart 0 960,
      { bitmap := memoryStart, bitmapSize := 240, totalFrames := 7680, freeFrames := 7680,
        firstFreeFrame := 0 }⟩ := rfl
  rw [hinit, ← hstart]
  exact pmmMarkFrameUsed_spec hinv 0

/-! ### Runs -/

inductive PmmOp
  | allocFrame
  | freeFrame (frameAddr : Nat)
  | markFrameUsed (frameIndex : Nat)
  deriving DecidableEq, Repr

/-- Every call returns; only an allocation has a result. -/
def pmmStep : PmmOp → Phys → Option (Nat × Phys)
  | .allocFrame, s => some (pmmAllocFrame s)
  | .freeFrame a, s => some (0, pmmFreeFrame a s)
  | .markFrameUsed i, s => some (0, pmmMarkFrameUsed i s)

theorem pmmAllocFrame_inv {s : Phys} (h : PmmInv s) : PmmInv (pmmAllocFrame s).2 := by
  rcases pmmAllocFrame_spec h with ⟨-, he⟩ | ⟨i, -, -, hi, -⟩
  · rw [he]; exact h
  · exact hi

theorem pmmStep_inv {s : Phys} (op : PmmOp) (h : PmmInv s) :
    ∃ o s', pmmStep op s = some (o, s') ∧ PmmInv s' := by
  cases op with
  | allocFrame => exact ⟨_, _, rfl, pmmAllocFrame_inv h⟩
  | freeFrame a => exact ⟨_, _, rfl, (pmmFreeFrame_spec h a).1⟩
  | markFrameUsed i => exact ⟨_, _, rfl, (pmmMarkFrameUsed_spec h i).1⟩

theorem pmmStep_freeFrameSet {s s' : Phys} {op : PmmOp} {o : Nat} (h : PmmInv s)
    (hs : pmmStep op s = some (o, s')) :
    freeFrameSet s' ⊆ freeFrameSet s ∨
      ∃ a, op = .freeFrame a ∧ memoryStart ≤ a ∧
        freeFrameSet s' = insert ((a - memoryStart) / pageSize) (freeFrameSet s) := by
  cases op with
  | allocFrame =>
      simp only [pmmStep, Option.some.injEq] at hs
      left
      rcases pmmAllocFrame_spec h with ⟨-, he⟩ | ⟨i, -, -, -, -, he⟩
      · rw [he, Prod.mk.injEq] at hs
        rw [hs.2]
      · rw [hs] at he
        exact he ▸ Finset.erase_subset _ _
  | freeFrame a =>
      simp only [pmmStep, Option.some.injEq, Prod.mk.injEq] at hs
      have he := (pmmFreeFrame_spec h a).2
      rw [hs.2] at he
      split at he
      · exact Or.inr ⟨a, rfl, by omega, he⟩
      · exact Or.inl he.le
  | markFrameUsed i =>
      simp only [pmmStep, Option.some.injEq, Prod.mk.injEq] at hs
      have he := (pmmMarkFrameUsed_spec h i).2
      rw [hs.2] at he
      exact Or.inl (he ▸ Finset.erase_subset _ _)

/-- A frame in use stays in use along a run that frees no address inside it. -/
theorem pmmRun_used {i : Nat} {ops : List PmmOp} {s s' : Phys} {os : List Nat} (h : PmmInv s)
    (hi : i ∉ freeFrameSet s)
    (hops : ∀ a, .freeFrame a ∈ ops → ¬(frameAddress i ≤ a ∧ a < frameAddress i + pageSize))
    (hr : Machine.run pmmStep ops s = some (os, s')) : i ∉ freeFrameSet s' := by
  induction ops generalizing s os with
  | nil =>
      simp only [Machine.run_nil, Option.some.injEq, Prod.mk.injEq] at hr
      exact hr.2 ▸ hi
  | cons op ops ih =>
      obtain ⟨o, t, os', ht, hr', -⟩ := Machine.run_cons_some.mp hr
      obtain ⟨o', t', ht', hinv⟩ := pmmStep_inv op h
      rw [ht, Option.some.injEq, Prod.mk.injEq] at ht'
      rw [← ht'.2] at hinv
      refine ih hinv ?_ (fun a ha => hops a (List.mem_cons_of_mem op ha)) hr'
      rcases pmmStep_freeFrameSet h ht with hsub | ⟨a, rfl, ha, he⟩
      · exact fun hm => hi (hsub hm)
      · rw [he, Finset.mem_insert, not_or]
        refine ⟨fun hia => hops a (List.mem_cons_self ..) ?_, hi⟩
        simp only [frameAddress, memoryStart, pageSize] at *
        omega

/-- **The allocator over a whole run.**  The counter counts the clear bits, no
frame below the hint is free, an allocation returns the lowest free frame or `0`
when there is none, and a frame handed out comes back only after an address
inside it was freed. -/
theorem pmmRun_correct (m : Mem) (ops : List PmmOp) :
    ∃ os s, Machine.run pmmStep ops (pmmInit m) = some (os, s) ∧
      s.pmm.totalFrames = memorySize / pageSize ∧
      s.pmm.freeFrames =
        ((Finset.range s.pmm.totalFrames).filter (fun i => ¬FrameUsed s i)).card ∧
      (∀ i < s.pmm.firstFreeFrame, FrameUsed s i) ∧
      scanClear s 0 s.pmm.firstFreeFrame = none ∧
      ((pmmAllocFrame s).1 = 0 ↔ ∀ i < s.pmm.totalFrames, FrameUsed s i) ∧
      ((pmmAllocFrame s).1 ≠ 0 →
        ∃ i, i < s.pmm.totalFrames ∧ ¬FrameUsed s i ∧ (∀ j < i, FrameUsed s j) ∧
          (pmmAllocFrame s).1 = memoryStart + 4096 * i) ∧
      ∀ mid os' t, (pmmAllocFrame s).1 ≠ 0 →
        Machine.run pmmStep mid (pmmAllocFrame s).2 = some (os', t) →
        (pmmAllocFrame t).1 = (pmmAllocFrame s).1 →
        ∃ a, .freeFrame a ∈ mid ∧ (pmmAllocFrame s).1 ≤ a ∧ a < (pmmAllocFrame s).1 + 4096 := by
  obtain ⟨os, s, hr, h⟩ := Machine.run_total (G := fun _ _ => True) (I := PmmInv)
    (fun op s h _ => pmmStep_inv op h) (pmmInit_spec m).1 (Machine.meets_true ops _)
  have hset : ∀ {t : Phys}, freeFrameSet t
      = (Finset.range t.pmm.totalFrames).filter (fun i => ¬FrameUsed t i) := by
    intro t
    ext i
    rw [mem_freeFrameSet, Finset.mem_filter, Finset.mem_range]
  refine ⟨os, s, hr, h.total, by rw [h.count, hset], h.hint, h.fallback, ?_, ?_, ?_⟩
  · rcases pmmAllocFrame_spec h with ⟨he, ha⟩ | ⟨i, hi, ha, -⟩
    · refine ⟨fun _ i hi => ?_, fun _ => by rw [ha]⟩
      by_contra hu
      exact Finset.notMem_empty i (he ▸ mem_freeFrameSet.mpr ⟨hi, hu⟩)
    · refine ⟨fun h0 => absurd (ha ▸ h0) (by simp [frameAddress]), fun hu => ?_⟩
      have hm := mem_freeFrameSet.mp (Finset.mem_coe.mp hi.1)
      exact absurd (hu i hm.1) hm.2
  · intro hne
    rcases pmmAllocFrame_spec h with ⟨-, ha⟩ | ⟨i, hi, ha, -⟩
    · exact absurd (by rw [ha]) hne
    · have hm := mem_freeFrameSet.mp (Finset.mem_coe.mp hi.1)
      refine ⟨i, hm.1, hm.2, fun j hj => ?_, ha⟩
      by_contra hu
      have := hi.2 (Finset.mem_coe.mpr (mem_freeFrameSet.mpr ⟨by omega, hu⟩))
      omega
  · intro mid os' t hne hmid heq
    rcases pmmAllocFrame_spec h with ⟨-, ha⟩ | ⟨i, hi, ha, hinv, -, hfree⟩
    · exact absurd (by rw [ha]) hne
    · -- were no address inside frame `i` freed, it would still be in use at the second call
      by_contra hno
      have hi' : i ∉ freeFrameSet (pmmAllocFrame s).2 := by
        rw [hfree]
        exact Finset.notMem_erase i _
      have hused := pmmRun_used hinv hi' (fun a hma hin => hno ⟨a, hma, by rw [ha]; exact hin⟩) hmid
      obtain ⟨_, t', hrt, ht⟩ := Machine.run_total (G := fun _ _ => True) (I := PmmInv)
        (fun op s h _ => pmmStep_inv op h) hinv (Machine.meets_true mid _)
      rw [hmid, Option.some.injEq, Prod.mk.injEq] at hrt
      rw [← hrt.2] at ht
      rcases pmmAllocFrame_spec ht with ⟨-, ha'⟩ | ⟨j, hj, ha', -⟩
      · exact hne (by rw [← heq, ha'])
      · have hij : j = i := frameAddress_inj.mp (by rw [← ha', heq, ha])
        exact hused (hij ▸ Finset.mem_coe.mp hj.1)

end AceOS.Kernel
