import AceOS.Kernel.Process
import AceOS.Kernel.Translation

/-!
# The frames of a process

`process_create` takes a frame for the page directory, one for each of the two stacks, and,
through `vmm_map_page`, one for the table of the user stack.  Only the frames that are
counted matter to whether it gets them: `PmmStock s n` says that `n` are counted and can be
found.  It also covers the allocator whose own frame is free: the first directory is then
written over the bitmap.

With fewer than three frames the creation fails and keeps its slot
(`processCreate_failed_iff`).  With three it succeeds, and the process has no user stack
(`processCreate_stack_iff`).
-/

namespace AceOS.Kernel

open Memory Bitmap AceOS.Libc

variable {s : Phys} {n i j k x : Nat}

/-! ### Counted frames -/

/-- `n` frames are counted, and there are as many from the hint on. -/
structure PmmStock (s : Phys) (n : Nat) : Prop extends PmmPlaced s where
  count : s.pmm.freeFrames = n
  room : n ≤ ((freeFrameSet s).filter (s.pmm.firstFreeFrame ≤ ·)).card

theorem PmmInv.stock (h : PmmInv s) : PmmStock s (freeFrameSet s).card := by
  refine ⟨h.placed, h.count, ?_⟩
  rw [Finset.filter_true_of_mem]
  intro i hi
  exact h.hint_le_of_mem hi

theorem PmmStock.le (h : PmmStock s n) : n ≤ 7680 - s.pmm.firstFreeFrame := by
  refine h.room.trans ?_
  rw [← Nat.card_Ico]
  apply Finset.card_le_card
  intro i hi
  obtain ⟨hmem, hle⟩ := Finset.mem_filter.mp hi
  have hlt := (mem_freeFrameSet.mp hmem).1
  rw [h.total] at hlt
  exact Finset.mem_Ico.mpr ⟨hle, hlt⟩

theorem PmmStock.alloc_zero (h : PmmStock s 0) : pmmAllocFrame s = (0, s) := by
  rw [pmmAllocFrame, if_pos h.count]

theorem PmmStock.take (h : PmmStock s (n + 1)) {s' : Phys} (hi : i ∈ freeFrameSet s)
    (hle : s.pmm.firstFreeFrame ≤ i) (hm : s'.mem = setBit s.mem s.pmm.bitmap i)
    (hb : s'.pmm.bitmap = s.pmm.bitmap) (ht : s'.pmm.totalFrames = s.pmm.totalFrames)
    (hcount : s'.pmm.freeFrames = n)
    (hhint : s'.pmm.firstFreeFrame
      = if i = s.pmm.firstFreeFrame then i + 1 else s.pmm.firstFreeFrame) : PmmStock s' n := by
  have hlt := (mem_freeFrameSet.mp hi).1
  have htotal := h.total
  have hset := freeFrameSet_setBit hm hb ht
  refine ⟨⟨hb.trans h.bitmap, ht.trans htotal, ?_⟩, hcount, ?_⟩
  · have hle' := h.hint_le
    rw [hhint]
    split <;> omega
  · -- the frame that is taken is the only one that is lost
    have hsub : ((freeFrameSet s).filter (s.pmm.firstFreeFrame ≤ ·)).erase i ⊆
        (freeFrameSet s').filter (s'.pmm.firstFreeFrame ≤ ·) := by
      intro q hq
      obtain ⟨hqi, hq⟩ := Finset.mem_erase.mp hq
      obtain ⟨hqfree, hqle⟩ := Finset.mem_filter.mp hq
      rw [Finset.mem_filter, hset, hhint]
      refine ⟨Finset.mem_erase.mpr ⟨hqi, hqfree⟩, ?_⟩
      split <;> omega
    have hmem : i ∈ (freeFrameSet s).filter (s.pmm.firstFreeFrame ≤ ·) :=
      Finset.mem_filter.mpr ⟨hi, hle⟩
    have hcard := Finset.card_le_card hsub
    rw [Finset.card_erase_of_mem hmem] at hcard
    have hroom := h.room
    omega

/-- **With one counted** the first clear frame from the hint on is taken. -/
theorem PmmStock.alloc (h : PmmStock s (n + 1)) :
    ∃ i < 7680, ¬FrameUsed s i ∧ s.pmm.firstFreeFrame ≤ i ∧
      (pmmAllocFrame s).1 = frameAddress i ∧ (pmmAllocFrame s).2.mem = setBit s.mem memoryStart i ∧
      (pmmAllocFrame s).2.pmm.firstFreeFrame
        = (if i = s.pmm.firstFreeFrame then i + 1 else s.pmm.firstFreeFrame) ∧
      PmmStock (pmmAllocFrame s).2 n := by
  have htotal := h.total
  have hhint := h.hint_le
  have hcount := h.count
  have hle := h.le
  have hne : s.pmm.freeFrames ≠ 0 := by omega
  cases hs : scanClear s s.pmm.firstFreeFrame (s.pmm.totalFrames - s.pmm.firstFreeFrame) with
  | none =>
      -- every frame from the hint on is used, and none could be counted
      exfalso
      have hpos : 0 < ((freeFrameSet s).filter (s.pmm.firstFreeFrame ≤ ·)).card :=
        Nat.lt_of_lt_of_le (Nat.succ_pos n) h.room
      obtain ⟨i, hi⟩ := Finset.card_pos.mp hpos
      obtain ⟨hmem, hge⟩ := Finset.mem_filter.mp hi
      obtain ⟨hlt, hnot⟩ := mem_freeFrameSet.mp hmem
      exact hnot (scanClear_eq_none.mp hs i hge (by omega))
  | some i =>
      obtain ⟨h₁, h₂, h₃, -⟩ := scanClear_eq_some hs
      have hlt : i < 7680 := by omega
      have haddr : add32 memoryStart (mul32 i pageSize) = frameAddress i := by
        simp only [add32, mul32, memoryStart, pageSize, frameAddress]
        omega
      have hfirst : (if i = s.pmm.firstFreeFrame then add32 s.pmm.firstFreeFrame 1
          else s.pmm.firstFreeFrame) = if i = s.pmm.firstFreeFrame then i + 1
          else s.pmm.firstFreeFrame := by
        split
        · rename_i he
          rw [← he, add32_of_lt (by omega)]
        · rfl
      have hsub : sub32 s.pmm.freeFrames 1 = n := by
        rw [hcount, sub32_of_le (by omega) (by omega), Nat.add_sub_cancel]
      rw [pmmAllocFrame, if_neg hne, hs]
      refine ⟨i, hlt, h₃, h₁, haddr, ?_, hfirst, ?_⟩
      · dsimp only
        rw [h.bitmap]
      · exact h.take (mem_freeFrameSet.mpr ⟨by omega, h₃⟩) h₁ rfl rfl rfl hsub hfirst

theorem PmmStock.congr (h : PmmStock s n) (s' : Phys) (hp : s'.pmm = s.pmm)
    (hm : ∀ x, memoryStart ≤ x → x < memoryStart + 960 → s'.mem x = s.mem x) : PmmStock s' n := by
  have hset : freeFrameSet s' = freeFrameSet s := by
    rw [freeFrameSet, freeFrameSet, hp, h.bitmap, h.total]
    exact clearSet_congr hm
  refine ⟨⟨by rw [hp, h.bitmap], by rw [hp, h.total], by rw [hp]; exact h.hint_le⟩,
    by rw [hp, h.count], ?_⟩
  rw [hset, hp]
  exact h.room

theorem PmmPlaced.frameUsed_congr (h : PmmPlaced s) (s' : Phys) (hp : s'.pmm = s.pmm)
    (hm : ∀ x, memoryStart ≤ x → x < memoryStart + 960 → s'.mem x = s.mem x) (hi : i < 7680) :
    FrameUsed s' i ↔ FrameUsed s i := by
  rw [FrameUsed, FrameUsed, hp, h.bitmap, bit_congr]
  intro x h₁ h₂
  exact hm x (by omega) (by omega)

/-- A word that is not in the bitmap. -/
abbrev OutsideMap (x : Nat) : Prop := x + 4 ≤ memoryStart ∨ memoryStart + 960 ≤ x

/-- What one allocation does to the frames in use and to the words outside the bitmap. -/
structure FrameTaken (s s' : Phys) (i : Nat) : Prop where
  lt : i < 7680
  free : ¬FrameUsed s i
  hint : s.pmm.firstFreeFrame ≤ i ∧ s.pmm.firstFreeFrame ≤ s'.pmm.firstFreeFrame
  used : ∀ q, FrameUsed s' q ↔ q = i ∨ FrameUsed s q
  word : ∀ x, OutsideMap x → load32 s'.mem x = load32 s.mem x

theorem PmmStock.taken (h : PmmStock s (n + 1)) : ∃ i s', pmmAllocFrame s = (frameAddress i, s') ∧
    FrameTaken s s' i ∧ PmmStock s' n := by
  obtain ⟨i, hlt, hfree, hle, ha, hmem, hhint, hstock⟩ := h.alloc
  refine ⟨i, (pmmAllocFrame s).2, ?_, ⟨hlt, hfree, ⟨hle, ?_⟩, ?_, ?_⟩, hstock⟩
  · rw [← ha]
  · rw [hhint]
    split <;> omega
  · exact frameUsed_setBit (by rw [hmem, h.bitmap]) (hstock.bitmap.trans h.bitmap.symm)
  · intro x hx
    apply load32_congr
    intro y h₁ h₂
    rw [hmem]
    exact setBit_of_outside hlt (by omega)

/-! ### The directory -/

/-- The new directory in frame `j`: its lower entries are clear, and `j` is in use, unless it
is the frame of the bitmap. -/
structure DirectoryTaken (s s' : Phys) (j : Nat) : Prop where
  lt : j < 7680
  free : ¬FrameUsed s j
  clear : ∀ i < 768, load32 s'.mem (frameAddress j + 4 * i) = 0
  used : j ≠ 0 → ∀ q < 7680, FrameUsed s' q ↔ q = j ∨ FrameUsed s q
  wiped : j = 0 → 0 < s'.pmm.firstFreeFrame ∧ ¬FrameUsed s' 0

theorem PmmStock.createDirectory (h : PmmStock s (n + 1)) (k : Nat) :
    ∃ j s', vmmCreatePageDirectory k s = (frameAddress j, s') ∧ DirectoryTaken s s' j ∧
      PmmStock s' n := by
  have hle := h.le
  obtain ⟨j, hlt, hfree, hhint, ha, hmem, hfirst, hstock⟩ := h.alloc
  obtain ⟨m, hresult, hout, -⟩ := vmmCreatePageDirectory_of_alloc k ha
  have hclear : ∀ i < 768, load32 m (frameAddress j + 4 * i) = 0 := by
    intro i hi
    rw [← load32_fill_zero (m := (pmmAllocFrame s).2.mem) (a := frameAddress j + 4 * i)
      (b := frameAddress j) (n := 4096) (by omega) (by omega)]
    apply load32_congr
    intro x h₁ h₂
    exact hout x (by omega)
  refine ⟨j, _, hresult, ?_⟩
  by_cases hj : j = 0
  · -- the bitmap itself is cleared
    subst hj
    have hset : freeFrameSet { (pmmAllocFrame s).2 with mem := m } = Finset.range 7680 := by
      rw [freeFrameSet, hstock.bitmap, hstock.total, ← clearSet_fill_zero m memoryStart 7680]
      apply clearSet_congr
      intro x h₁ h₂
      have hx : frameAddress 0 = memoryStart := rfl
      rw [hout x (by omega), fill_of_mem (by omega) (by omega), fill_of_mem h₁ h₂]
    have hone : (pmmAllocFrame s).2.pmm.firstFreeFrame = 1 := by
      rw [hfirst, if_pos (by omega)]
    refine ⟨⟨hlt, hfree, hclear, fun h0 => absurd rfl h0, fun _ => ⟨?_, ?_⟩⟩,
      ⟨⟨hstock.bitmap, hstock.total, hstock.hint_le⟩, hstock.count, ?_⟩⟩
    · dsimp only
      omega
    · have hmem0 : 0 ∈ freeFrameSet { (pmmAllocFrame s).2 with mem := m } := by
        rw [hset]
        exact Finset.mem_range.mpr hlt
      exact (mem_freeFrameSet.mp hmem0).2
    · have hcard : (Finset.Ico 1 7680).card ≤ ((Finset.range 7680).filter (1 ≤ ·)).card := by
        apply Finset.card_le_card
        intro q hq
        obtain ⟨h₁, h₂⟩ := Finset.mem_Ico.mp hq
        exact Finset.mem_filter.mpr ⟨Finset.mem_range.mpr h₂, h₁⟩
      rw [Nat.card_Ico] at hcard
      rw [hset]
      dsimp only
      rw [hone]
      omega
  · have hsame : ∀ x, memoryStart ≤ x → x < memoryStart + 960 →
        m x = (pmmAllocFrame s).2.mem x := by
      intro x h₁ h₂
      have hx : x < frameAddress j := by
        simp only [frameAddress, pageSize]
        omega
      rw [hout x (by omega), fill_of_disjoint (by omega)]
    refine ⟨⟨hlt, hfree, hclear, fun _ q hq => ?_, fun h0 => absurd h0 hj⟩,
      hstock.congr _ rfl hsame⟩
    rw [hstock.toPmmPlaced.frameUsed_congr { (pmmAllocFrame s).2 with mem := m } rfl hsame hq]
    exact frameUsed_setBit (by rw [hmem, h.bitmap]) (hstock.bitmap.trans h.bitmap.symm) q

theorem PmmStock.createDirectory_zero (h : PmmStock s 0) (k : Nat) :
    vmmCreatePageDirectory k s = (0, s) := by
  rw [vmmCreatePageDirectory, h.alloc_zero]
  rfl

theorem frameAddress_ne_zero : frameAddress i ≠ 0 := by
  simp only [frameAddress, memoryStart]
  omega

/-! ### The failing paths -/

section Create

variable {s : Tasks} {name : List UInt8} {priority : Nat}

theorem processCreate_fst (hi : findFreeSlot s 1 (maxProcesses - 1) = some i) :
    (processCreate k name priority s).1 =
      if (vmmCreatePageDirectory k s.phys).1 = 0 then none
      else if (pmmAllocFrame (vmmCreatePageDirectory k s.phys).2).1 = 0 then none
      else if (pmmAllocFrame (pmmAllocFrame (vmmCreatePageDirectory k s.phys).2).2).1 = 0 then none
      else some i := by
  rw [processCreate, hi]
  dsimp only
  generalize (if priority = processPriorityHigh then 50
    else if priority = processPriorityNormal then 100 else 200) = timeSlice
  split
  · rename_i hd
    exact (if_pos hd).symm
  · rename_i hd
    refine Eq.trans ?_ (if_neg hd).symm
    split
    · rename_i hk
      exact (if_pos hk).symm
    · rename_i hk
      refine Eq.trans ?_ (if_neg hk).symm
      split
      · rename_i hu
        exact (if_pos hu).symm
      · rename_i hu
        exact (if_neg hu).symm

theorem processCreate_none_iff (h : PmmStock s.phys n)
    (hi : findFreeSlot s 1 (maxProcesses - 1) = some i) :
    (processCreate k name priority s).1 = none ↔ n < 3 := by
  rw [processCreate_fst hi]
  match n, h with
  | 0, h =>
      rw [h.createDirectory_zero, if_pos rfl]
      simp
  | 1, h =>
      obtain ⟨j, s₁, he, -, h₁⟩ := h.createDirectory k
      rw [he, if_neg frameAddress_ne_zero, h₁.alloc_zero, if_pos rfl]
      simp
  | 2, h =>
      obtain ⟨j, s₁, he, -, h₁⟩ := h.createDirectory k
      obtain ⟨i₂, s₂, he₂, -, h₂⟩ := h₁.taken
      rw [he, if_neg frameAddress_ne_zero, he₂, if_neg frameAddress_ne_zero, h₂.alloc_zero,
        if_pos rfl]
      simp
  | n + 3, h =>
      obtain ⟨j, s₁, he, -, h₁⟩ := h.createDirectory k
      obtain ⟨i₂, s₂, he₂, -, h₂⟩ := h₁.taken
      obtain ⟨i₃, s₃, he₃, -, -⟩ := h₂.taken
      rw [he, if_neg frameAddress_ne_zero, he₂, if_neg frameAddress_ne_zero, he₃,
        if_neg frameAddress_ne_zero]
      simp

/-- Nothing is left of the attempt. -/
structure NothingLeft (s s' : Tasks) : Prop where
  slots : ∀ p < maxProcesses, s'.processTable p = s.processTable p
  frames : freeFrameSet s'.phys = freeFrameSet s.phys

/-- **A failed `process_create` leaves nothing behind** only when it fails for want of a slot. -/
theorem processCreate_failed_iff (h : PmmInv s.phys) (k : Nat) (name : List UInt8)
    (priority : Nat) :
    ((processCreate k name priority s).1 = none →
        NothingLeft s (processCreate k name priority s).2) ↔
      (∀ p, 1 ≤ p → p < maxProcesses → s.Live p) ∨ 3 ≤ (freeFrameSet s.phys).card := by
  cases hi : findFreeSlot s 1 (maxProcesses - 1) with
  | none =>
      refine iff_of_true (fun _ => ?_) (Or.inl fun p h₁ h₂ => ?_)
      · rw [processCreate, hi]
        exact ⟨fun _ _ => rfl, rfl⟩
      · exact findFreeSlot_eq_none.mp hi p h₁ (by omega)
  | some i =>
      obtain ⟨h₁, h₂, hunused⟩ := findFreeSlot_some hi
      rw [processCreate_none_iff h.stock hi]
      constructor
      · intro hleft
        right
        by_contra hfew
        -- the slot has become a ready process
        obtain ⟨e, hrep, -, hready⟩ := processCreate_slot k name priority hi
        have hslot := (hleft (by omega)).slots i (by omega)
        rw [hrep.self] at hslot
        rw [hslot, hunused] at hready
        exact absurd hready (by decide)
      · rintro (hlive | hmany) hfew
        · exact absurd hunused (hlive i h₁ (by omega))
        · omega

theorem pmmInit_free : PmmInv (pmmInit ⟨fun _ => 0⟩) ∧ FrameUsed (pmmInit ⟨fun _ => 0⟩) 0 ∧
    (freeFrameSet (pmmInit ⟨fun _ => 0⟩)).card = 7679 := by
  obtain ⟨hinv, hset⟩ := pmmInit_spec ⟨fun _ => 0⟩
  have hmem : 0 ∈ Finset.range 7680 := Finset.mem_range.mpr (by omega)
  refine ⟨hinv, (hinv.frameUsed_iff (j := 0) (by decide)).mpr ?_, ?_⟩
  · rw [hset]
    exact Finset.notMem_erase 0 _
  · rw [hset, Finset.card_erase_of_mem hmem, Finset.card_range]

/-- A ready process in every slot. -/
def fullTable (phys : Phys) : Tasks :=
  { processInit phys with
    processTable := fun p => { (processInit phys).processTable p with state := .ready } }

/-- Without a slot the call fails and leaves nothing behind, although frames are free. -/
theorem processCreate_failed_full : ∃ s : Tasks, (freeFrameSet s.phys).card = 7679 ∧
    (processCreate 0x110000 [97] 2 s).1 = none ∧
    NothingLeft s (processCreate 0x110000 [97] 2 s).2 := by
  obtain ⟨hinv, -, hcard⟩ := pmmInit_free
  generalize pmmInit ⟨fun _ => 0⟩ = phys at *
  have hlive : ∀ p, 1 ≤ p → p < maxProcesses → (fullTable phys).Live p := by
    intro p _ _ hunused
    cases hunused
  have hnone : (processCreate 0x110000 [97] 2 (fullTable phys)).1 = none := by
    have hslot : findFreeSlot (fullTable phys) 1 (maxProcesses - 1) = none :=
      findFreeSlot_eq_none.mpr fun p h₁ h₂ => hlive p h₁ (by omega)
    rw [processCreate, hslot]
  exact ⟨fullTable phys, hcard, hnone, (processCreate_failed_iff (s := fullTable phys) hinv
    0x110000 [97] 2).mpr (Or.inl hlive) hnone⟩

/-- The allocator without a free frame. -/
def exhausted : Phys where
  mem := ⟨fun _ => 255⟩
  pmm := { bitmap := memoryStart, bitmapSize := 240, totalFrames := 7680, freeFrames := 0,
           firstFreeFrame := 7680 }

/-- No frame is left for the directory: the slot of the failed process is taken for good. -/
theorem processCreate_slot_lost :
    (processCreate 0x110000 [97] 2 (processInit exhausted)).1 = none ∧
    ((processInit exhausted).processTable 1).state = .unused ∧
    ((processCreate 0x110000 [97] 2 (processInit exhausted)).2.processTable 1).state = .ready ∧
    ¬NothingLeft (processInit exhausted)
      (processCreate 0x110000 [97] 2 (processInit exhausted)).2 := by
  have hbefore : ((processInit exhausted).processTable 1).state = .unused := rfl
  have hafter : ((processCreate 0x110000 [97] 2 (processInit exhausted)).2.processTable 1).state
      = .ready := rfl
  refine ⟨rfl, hbefore, hafter, ?_⟩
  intro hleft
  rw [hleft.slots 1 (by decide), hbefore] at hafter
  exact absurd hafter (by decide)

end Create

/-! ### The user stack -/

abbrev stackPage : Nat := userVirtualBase + 0x10000

/-- The user stack of a process is where its directory says, its stack pointer is on it, and
the four frames of the process are distinct and in use. -/
structure HasStack (e : Process) (s : Phys) : Prop where
  translation : ∀ o < processStackSize,
    vmmGetPhysicalAddress e.pageDirectory (stackPage + o) s = e.userStack + o
  esp : stackPage ≤ e.esp ∧ e.esp < stackPage + processStackSize
  frames : ∃ a b c t, e.pageDirectory = frameAddress a ∧ e.kernelStack = frameAddress b ∧
    e.userStack = frameAddress c ∧
    pageTable e.pageDirectory (getPdIndex stackPage) s.mem = frameAddress t ∧
    [a, b, c, t].Nodup ∧ ∀ q ∈ [a, b, c, t], q < 7680 ∧ FrameUsed s q

/-- The fourth frame becomes the table behind entry 256; the bitmap is the one the allocation
has left. -/
theorem takeTable_stack {a : Nat} {s' : Phys} (halloc : pmmAllocFrame s = (frameAddress t, s'))
    (hpos : 0 < t) (ht : t < 7680) :
    entryPresent (takeTable (frameAddress a) 256 7 s).mem (frameAddress a + 4 * 256) = 1 ∧
      pageTable (frameAddress a) 256 (takeTable (frameAddress a) 256 7 s).mem = frameAddress t ∧
      ∀ x, memoryStart ≤ x → x < memoryStart + 960 →
        (takeTable (frameAddress a) 256 7 s).mem x = s'.mem x := by
  refine ⟨?_, ?_, ?_⟩
  · rw [takeTable]
    exact entryPresent_setEntry
  · rw [pageTable, takeTable, entryAddress_setEntry, halloc]
    simp only [frameAddress, memoryStart, pageSize]
    omega
  · intro x h₁ h₂
    rw [takeTable_of_outside _ _ _ (by rw [halloc]), halloc]
    · simp only [frameAddress, memoryStart, pageSize] at *
      omega
    · simp only [frameAddress, memoryStart, pageSize] at *
      omega

/-- The page of the stack, mapped behind the table in the frame `t`. -/
theorem stackPage_mapped {a c : Nat} {s : Phys}
    (hpresent : entryPresent s.mem (frameAddress a + 4 * 256) = 1)
    (htable : pageTable (frameAddress a) 256 s.mem = frameAddress t)
    (hc : c < 7680) :
    vmmMapPage (frameAddress a) stackPage (frameAddress c) 7 s
        = { s with mem := mappedEntry s.mem (frameAddress t + 64) (frameAddress c) 7 } ∧
      pageTable (frameAddress a) 256 (mappedEntry s.mem (frameAddress t + 64) (frameAddress c) 7)
        = frameAddress t ∧
      ∀ o < processStackSize, vmmGetPhysicalAddress (frameAddress a) (stackPage + o)
        { s with mem := mappedEntry s.mem (frameAddress t + 64) (frameAddress c) 7 }
          = frameAddress c + o := by
  have hpd : getPdIndex stackPage = 256 := rfl
  have hpt : getPtIndex stackPage = 16 := rfl
  have hmap : vmmMapPage (frameAddress a) stackPage (frameAddress c) 7 s = _ :=
    vmmMapPage_of_present (frameAddress c) 7 (by rw [hpd, hpresent]; decide)
  have hentry : pageEntry (frameAddress a) stackPage s.mem = frameAddress t + 64 := by
    rw [pageEntry_eq, hpd, hpt, htable]
  rw [hentry] at hmap
  have hdir : load32 (mappedEntry s.mem (frameAddress t + 64) (frameAddress c) 7)
      (frameAddress a + 4 * 256) = load32 s.mem (frameAddress a + 4 * 256) := by
    apply load32_congr
    intro x h₁ h₂
    apply mappedEntry_of_disjoint
    simp only [frameAddress, memoryStart, pageSize] at *
    omega
  have htable' := pageTable_congr hdir
  rw [htable] at htable'
  refine ⟨hmap, htable', ?_⟩
  intro o ho
  have hpd' : getPdIndex (stackPage + o) = 256 := by
    simp only [getPdIndex, stackPage, userVirtualBase, processStackSize] at *
    omega
  have hpt' : getPtIndex (stackPage + o) = 16 := by
    simp only [getPtIndex, stackPage, userVirtualBase, processStackSize] at *
    omega
  have hentry' : pageEntry (frameAddress a) (stackPage + o)
      (mappedEntry s.mem (frameAddress t + 64) (frameAddress c) 7) = frameAddress t + 64 := by
    rw [pageEntry_eq, hpd', hpt', htable']
  have hbit : flagBit 7 pagePresent = 1 := rfl
  rw [vmmGetPhysicalAddress_eq, hpd', entryPresent, hdir]
  rw [if_neg (show getBits (load32 s.mem (frameAddress a + 4 * 256)) 0 1 ≠ 0 by
    rw [show getBits _ 0 1 = 1 from hpresent]; decide)]
  dsimp only
  rw [pageFrame, hentry', entryPresent_mappedEntry, hbit, if_neg (by decide),
    entryAddress_mappedEntry (by simp only [frameAddress, memoryStart, pageSize]; omega)]
  simp only [frameAddress, memoryStart, pageSize, stackPage, userVirtualBase, processStackSize]
    at *
  omega

theorem userStack_mapped {a c : Nat} (h : PmmStock s (n + 1))
    (hclear : load32 s.mem (frameAddress a + 4 * 256) = 0)
    (h0 : 0 < s.pmm.firstFreeFrame ∨ FrameUsed s 0) (hc : c < 7680) :
    ∃ t, ¬FrameUsed s t ∧ 0 < t ∧ t < 7680 ∧
      pageTable (frameAddress a) (getPdIndex stackPage) (vmmMapPage (frameAddress a) stackPage
        (frameAddress c) (pagePresent ||| pageWritable ||| pageUser) s).mem = frameAddress t ∧
      (∀ o < processStackSize, vmmGetPhysicalAddress (frameAddress a) (stackPage + o)
        (vmmMapPage (frameAddress a) stackPage (frameAddress c)
          (pagePresent ||| pageWritable ||| pageUser) s) = frameAddress c + o) ∧
      ∀ q < 7680, FrameUsed (vmmMapPage (frameAddress a) stackPage (frameAddress c)
        (pagePresent ||| pageWritable ||| pageUser) s) q ↔ q = t ∨ FrameUsed s q := by
  obtain ⟨t, s', halloc, htaken, hstock⟩ := h.taken
  have hlt := htaken.lt
  have hpos : 0 < t := by
    rcases h0 with hhint | hused
    · have hle := htaken.hint.1
      omega
    · apply Nat.pos_of_ne_zero
      rintro rfl
      exact htaken.free hused
  have hpd : getPdIndex stackPage = 256 := rfl
  have hflags : pagePresent ||| pageWritable ||| pageUser = 7 := rfl
  have hp : entryPresent s.mem (frameAddress a + 4 * getPdIndex stackPage) = 0 := by
    rw [hpd, entryPresent, hclear]
    rfl
  rw [hflags]
  rw [vmmMapPage_of_absent hp (by rw [halloc]; exact frameAddress_ne_zero), hpd]
  obtain ⟨hpresent, htable, hbitmap⟩ := takeTable_stack (a := a) halloc hpos hlt
  have hpmm : (takeTable (frameAddress a) 256 7 s).pmm = s'.pmm := by
    rw [takeTable, halloc]
  obtain ⟨hmap, htable', hpage⟩ := stackPage_mapped hpresent htable hc
  rw [hmap]
  refine ⟨t, htaken.free, hpos, hlt, htable', hpage, ?_⟩
  intro q hq
  rw [← htaken.used]
  refine hstock.toPmmPlaced.frameUsed_congr _ hpmm ?_ hq
  intro x h₁ h₂
  rw [← hbitmap x h₁ h₂]
  apply mappedEntry_of_disjoint
  simp only [frameAddress, memoryStart, pageSize] at *
  omega

section Created

variable {s : Tasks} {name : List UInt8} {priority : Nat}

/-- What a successful `process_create` makes of the three frames. -/
theorem processCreate_some {d ks us : Nat} {phys₁ phys₂ phys₃ : Phys} (name : List UInt8)
    (priority : Nat) (hi : findFreeSlot s 1 (maxProcesses - 1) = some i)
    (hd : vmmCreatePageDirectory k s.phys = (d, phys₁)) (hd0 : d ≠ 0)
    (hk : pmmAllocFrame phys₁ = (ks, phys₂)) (hk0 : ks ≠ 0)
    (hu : pmmAllocFrame phys₂ = (us, phys₃)) (hu0 : us ≠ 0) :
    ∃ s', processCreate k name priority s = (some i, s') ∧
      (s'.processTable i).pageDirectory = d ∧ (s'.processTable i).kernelStack = ks ∧
      (s'.processTable i).userStack = us ∧
      (s'.processTable i).esp = stackPage + processStackSize - 4 ∧
      s'.phys = vmmMapPage d stackPage us (pagePresent ||| pageWritable ||| pageUser) phys₃ := by
  rw [processCreate, hi]
  dsimp only
  generalize (if priority = processPriorityHigh then 50
    else if priority = processPriorityNormal then 100 else 200) = timeSlice
  rw [Tasks.modify_twice]
  have hd' : ∀ f, vmmCreatePageDirectory k (((processGetNextPid s).2).modify i f).phys
      = (d, phys₁) := fun _ => hd
  simp only [hd', if_neg hd0, hk, if_neg hk0, hu, if_neg hu0]
  refine ⟨_, rfl, ?_, ?_, ?_, ?_, rfl⟩
  all_goals simp only [Tasks.modify, Function.update_self]

/-- The directory lands on the bitmap when that frame is free. -/
theorem createDirectory_eq_zero_iff {phys phys₁ : Phys} {a : Nat} (h : PmmInv phys)
    (he : vmmCreatePageDirectory k phys = (frameAddress a, phys₁)) : a = 0 ↔ ¬FrameUsed phys 0 := by
  have hfst : (vmmCreatePageDirectory k phys).1 = (pmmAllocFrame phys).1 := by
    rw [vmmCreatePageDirectory]
    dsimp only
    split
    · rename_i hzero
      exact hzero.symm
    · rfl
  rw [he] at hfst
  rcases pmmAllocFrame_spec h with ⟨-, hnone⟩ | ⟨l, hl, ha, -⟩
  · rw [hnone] at hfst
    exact absurd hfst frameAddress_ne_zero
  · rw [ha, frameAddress_inj] at hfst
    subst hfst
    constructor
    · intro h0
      exact (mem_freeFrameSet.mp (h0 ▸ Finset.mem_coe.mp hl.1)).2
    · intro hfree
      have hmem : 0 ∈ freeFrameSet phys := mem_freeFrameSet.mpr ⟨by rw [h.total]; decide, hfree⟩
      exact Nat.le_zero.mp (hl.2 (Finset.mem_coe.mpr hmem))

/-- After the three allocations. -/
structure StacksTaken (phys phys₃ : Phys) (a b c : Nat) : Prop where
  lt : a < 7680 ∧ b < 7680 ∧ c < 7680
  clear : load32 phys₃.mem (frameAddress a + 4 * 256) = 0
  apart : a ≠ 0 → [a, b, c].Nodup
  used : a ≠ 0 → ∀ q < 7680, FrameUsed phys₃ q ↔ q = a ∨ q = b ∨ q = c ∨ FrameUsed phys q
  wiped : a = 0 → 0 < phys₃.pmm.firstFreeFrame ∧ ¬FrameUsed phys₃ 0

theorem stacksTaken {phys phys₁ phys₂ phys₃ : Phys} {a b c : Nat}
    (ha : DirectoryTaken phys phys₁ a) (hb : FrameTaken phys₁ phys₂ b)
    (hc : FrameTaken phys₂ phys₃ c) : StacksTaken phys phys₃ a b c := by
  have hout : OutsideMap (frameAddress a + 4 * 256) := by
    simp only [OutsideMap, frameAddress]
    omega
  have hhint := hb.hint
  have hhint' := hc.hint
  refine ⟨⟨ha.lt, hb.lt, hc.lt⟩, ?_, ?_, ?_, ?_⟩
  · rw [hc.word _ hout, hb.word _ hout]
    exact ha.clear 256 (by decide)
  · intro ha0
    have hua : FrameUsed phys₁ a := (ha.used ha0 a ha.lt).mpr (Or.inl rfl)
    have hub := (hb.used b).mpr (Or.inl rfl)
    have hab : a ≠ b := fun he => hb.free (he ▸ hua)
    have hac : a ≠ c := fun he => hc.free (he ▸ (hb.used a).mpr (Or.inr hua))
    have hbc : b ≠ c := fun he => hc.free (he ▸ hub)
    simp [hab, hac, hbc]
  · intro ha0 q hq
    rw [hc.used, hb.used, ha.used ha0 q hq]
    constructor
    · rintro (h | h | h | h)
      · exact Or.inr (Or.inr (Or.inl h))
      · exact Or.inr (Or.inl h)
      · exact Or.inl h
      · exact Or.inr (Or.inr (Or.inr h))
    · rintro (h | h | h | h)
      · exact Or.inr (Or.inr (Or.inl h))
      · exact Or.inr (Or.inl h)
      · exact Or.inl h
      · exact Or.inr (Or.inr (Or.inr h))
  · intro ha0
    obtain ⟨hpos, hfree⟩ := ha.wiped ha0
    refine ⟨by omega, ?_⟩
    rw [hc.used, hb.used]
    rintro (h | h | h)
    · omega
    · omega
    · exact hfree h

theorem StacksTaken.no_stack {phys phys₃ : Phys} {a b c : Nat} {e : Process}
    (ht : StacksTaken phys phys₃ a b c) (h : PmmStock phys₃ 0)
    (hd : e.pageDirectory = frameAddress a) (hu : e.userStack = frameAddress c) :
    ¬HasStack e (vmmMapPage (frameAddress a) stackPage (frameAddress c)
      (pagePresent ||| pageWritable ||| pageUser) phys₃) := by
  have hp : entryPresent phys₃.mem (frameAddress a + 4 * getPdIndex stackPage) = 0 := by
    rw [entryPresent, show getPdIndex stackPage = 256 from rfl, ht.clear]
    rfl
  rw [vmmMapPage_of_no_frame h.toPmmPlaced hp (by rw [h.alloc_zero])]
  intro hstack
  have htrans := hstack.translation 0 (by decide)
  rw [hd, hu, Nat.add_zero, Nat.add_zero, vmmGetPhysicalAddress_of_absent hp] at htrans
  exact frameAddress_ne_zero htrans.symm

/-- With a fourth frame it is the directory that decides. -/
theorem StacksTaken.stack_iff {phys phys₃ : Phys} {a b c : Nat} {e : Process}
    (ht : StacksTaken phys phys₃ a b c) (h : PmmStock phys₃ (n + 1))
    (h0 : a ≠ 0 → FrameUsed phys 0) (hd : e.pageDirectory = frameAddress a)
    (hk : e.kernelStack = frameAddress b) (hu : e.userStack = frameAddress c)
    (hesp : e.esp = stackPage + processStackSize - 4) :
    HasStack e (vmmMapPage (frameAddress a) stackPage (frameAddress c)
      (pagePresent ||| pageWritable ||| pageUser) phys₃) ↔ a ≠ 0 := by
  obtain ⟨ha, hb, hc⟩ := ht.lt
  have hhint : 0 < phys₃.pmm.firstFreeFrame ∨ FrameUsed phys₃ 0 := by
    by_cases ha0 : a = 0
    · exact Or.inl (ht.wiped ha0).1
    · exact Or.inr ((ht.used ha0 0 (by decide)).mpr (Or.inr (Or.inr (Or.inr (h0 ha0)))))
  obtain ⟨t, htfree, htpos, htlt, htable, htrans, hused⟩ :=
    userStack_mapped h ht.clear hhint hc
  generalize vmmMapPage (frameAddress a) stackPage (frameAddress c)
    (pagePresent ||| pageWritable ||| pageUser) phys₃ = phys' at *
  constructor
  · -- the frame of the bitmap is not in use any more
    rintro hstack rfl
    obtain ⟨a', _, _, _, ha', _, _, _, _, hall⟩ := hstack.frames
    rw [hd, frameAddress_inj] at ha'
    have hzero := (hall a' (List.mem_cons_self ..)).2
    rw [← ha', hused 0 (by decide)] at hzero
    rcases hzero with hzero | hzero
    · omega
    · exact (ht.wiped rfl).2 hzero
  · intro ha0
    have hmem : ∀ q ∈ [a, b, c], q < 7680 ∧ FrameUsed phys₃ q := by
      intro q hq
      have hq' : q = a ∨ q = b ∨ q = c := by simpa using hq
      have hlt : q < 7680 := by
        rcases hq' with rfl | rfl | rfl <;> assumption
      refine ⟨hlt, (ht.used ha0 q hlt).mpr ?_⟩
      rcases hq' with hq | hq | hq
      · exact Or.inl hq
      · exact Or.inr (Or.inl hq)
      · exact Or.inr (Or.inr (Or.inl hq))
    refine ⟨?_, ?_, a, b, c, t, hd, hk, hu, hd.symm ▸ htable, ?_, ?_⟩
    · intro o ho
      rw [hd, hu]
      exact htrans o ho
    · rw [hesp]
      decide
    · rw [show [a, b, c, t] = [a, b, c] ++ [t] from rfl, List.nodup_append]
      refine ⟨ht.apart ha0, List.nodup_singleton t, ?_⟩
      intro q hq t' ht'
      rw [List.mem_singleton.mp ht']
      rintro rfl
      exact htfree (hmem q hq).2
    · intro q hq
      rw [show [a, b, c, t] = [a, b, c] ++ [t] from rfl, List.mem_append, List.mem_singleton] at hq
      rcases hq with hq | rfl
      · exact ⟨(hmem q hq).1, (hused q (hmem q hq).1).mpr (Or.inr (hmem q hq).2)⟩
      · exact ⟨htlt, (hused q htlt).mpr (Or.inl rfl)⟩

/-- **A created process has its stack** if it finds a fourth frame, and the frame of the bitmap
is in use. -/
theorem processCreate_stack_iff (h : PmmInv s.phys) (k : Nat) (name : List UInt8)
    (priority : Nat) :
    (∀ p s', processCreate k name priority s = (some p, s') →
        HasStack (s'.processTable p) s'.phys) ↔
      (∀ p, 1 ≤ p → p < maxProcesses → s.Live p) ∨ (freeFrameSet s.phys).card < 3 ∨
        4 ≤ (freeFrameSet s.phys).card ∧ FrameUsed s.phys 0 := by
  have hstock := h.stock
  generalize (freeFrameSet s.phys).card = n at hstock
  cases hi : findFreeSlot s 1 (maxProcesses - 1) with
  | none =>
      refine iff_of_true ?_ (Or.inl fun p h₁ h₂ => findFreeSlot_eq_none.mp hi p h₁ (by omega))
      intro p s' he
      rw [processCreate, hi] at he
      exact absurd (congrArg Prod.fst he) (by simp)
  | some i =>
      obtain ⟨h₁, h₂, hunused⟩ := findFreeSlot_some hi
      have hslot : ¬∀ p, 1 ≤ p → p < maxProcesses → s.Live p :=
        fun hlive => hlive i h₁ (by omega) hunused
      rw [or_iff_right hslot]
      by_cases hfew : n < 3
      · refine iff_of_true ?_ (Or.inl hfew)
        intro p s' he
        have hnone : (processCreate k name priority s).1 = none :=
          (processCreate_none_iff hstock hi).mpr hfew
        rw [he] at hnone
        exact absurd hnone (by simp)
      obtain ⟨m, rfl⟩ := Nat.exists_eq_add_of_le (Nat.le_of_not_lt hfew)
      rw [Nat.add_comm] at hstock
      obtain ⟨a, phys₁, he₁, ha, hs₁⟩ := hstock.createDirectory k
      obtain ⟨b, phys₂, he₂, hb, hs₂⟩ := hs₁.taken
      obtain ⟨c, phys₃, he₃, hc, hs₃⟩ := hs₂.taken
      have hzero := createDirectory_eq_zero_iff h he₁
      have htaken := stacksTaken ha hb hc
      obtain ⟨s', hcreate, hdir, hkernel, huser, hesp, hphys⟩ := processCreate_some name priority
        hi he₁ frameAddress_ne_zero he₂ frameAddress_ne_zero he₃ frameAddress_ne_zero
      have hcreated : (∀ p t, processCreate k name priority s = (some p, t) →
          HasStack (t.processTable p) t.phys) ↔ HasStack (s'.processTable i) s'.phys := by
        rw [hcreate]
        constructor
        · exact fun hall => hall i s' rfl
        · intro hstack p t he
          rw [Prod.mk.injEq, Option.some.injEq] at he
          rw [← he.1, ← he.2]
          exact hstack
      rw [hcreated, hphys]
      cases m with
      | zero =>
          refine iff_of_false (htaken.no_stack hs₃ hdir huser) ?_
          omega
      | succ m =>
          have hused : a ≠ 0 ↔ FrameUsed s.phys 0 := by
            rw [ne_eq, hzero, not_not]
          rw [htaken.stack_iff hs₃ hused.mp hdir hkernel huser hesp, hused]
          constructor
          · exact fun hu => Or.inr ⟨by omega, hu⟩
          · rintro (hlt | ⟨-, hu⟩)
            · omega
            · exact hu

/-- Theorem `processCreate_stack_iff` for the first process. -/
theorem processCreate_stack_boot : ∃ p s',
    processCreate 0x110000 [97] 2 (processInit (pmmInit ⟨fun _ => 0⟩)) = (some p, s') ∧
      HasStack (s'.processTable p) s'.phys := by
  obtain ⟨hinv, hused, hcard⟩ := pmmInit_free
  generalize pmmInit ⟨fun _ => 0⟩ = phys at *
  have hi : findFreeSlot (processInit phys) 1 (maxProcesses - 1) = some 1 := rfl
  have hstock : PmmStock (processInit phys).phys 7679 := hcard ▸ hinv.stock
  have hstack := (processCreate_stack_iff (s := processInit phys) hinv 0x110000 [97] 2).mpr
    (Or.inr (Or.inr ⟨by rw [processInit, hcard]; decide, hused⟩))
  cases he : processCreate 0x110000 [97] 2 (processInit phys) with
  | mk r s' =>
      cases r with
      | none =>
          have hfew := (processCreate_none_iff hstock hi).mp (congrArg Prod.fst he)
          omega
      | some p => exact ⟨p, s', rfl, hstack p s' he⟩

/-- The allocator with three free frames. -/
def threeFrames : Phys where
  mem := ⟨fun x => if x = 0x200000 then 0xF1 else 255⟩
  pmm := { bitmap := memoryStart, bitmapSize := 240, totalFrames := 7680, freeFrames := 3,
           firstFreeFrame := 1 }

/-- With three free frames the process is created, and its stack page is not mapped. -/
theorem processCreate_no_stack : ∃ s',
    processCreate 0x110000 [97] 2 (processInit threeFrames) = (some 1, s') ∧
    ¬HasStack (s'.processTable 1) s'.phys := by
  have hstock : PmmStock (processInit threeFrames).phys 3 := by
    refine ⟨⟨rfl, rfl, by decide⟩, rfl, ?_⟩
    show ({1, 2, 3} : Finset Nat).card ≤ _
    apply Finset.card_le_card
    intro q hq
    rw [Finset.mem_filter, mem_freeFrameSet]
    have hq' : q = 1 ∨ q = 2 ∨ q = 3 := by simpa using hq
    rcases hq' with rfl | rfl | rfl <;> exact ⟨⟨by decide, by decide⟩, by decide⟩
  obtain ⟨a, phys₁, he₁, ha, hs₁⟩ := hstock.createDirectory 0x110000
  obtain ⟨b, phys₂, he₂, hb, hs₂⟩ := hs₁.taken
  obtain ⟨c, phys₃, he₃, hc, hs₃⟩ := hs₂.taken
  have hi : findFreeSlot (processInit threeFrames) 1 (maxProcesses - 1) = some 1 := rfl
  obtain ⟨s', hcreate, hdir, -, huser, -, hphys⟩ := processCreate_some [97] 2
    hi he₁ frameAddress_ne_zero he₂ frameAddress_ne_zero he₃ frameAddress_ne_zero
  refine ⟨s', hcreate, ?_⟩
  rw [hphys]
  exact (stacksTaken ha hb hc).no_stack hs₃ hdir huser

end Created

end AceOS.Kernel
