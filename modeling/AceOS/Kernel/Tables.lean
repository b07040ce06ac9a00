import AceOS.Kernel.Vmm
import Mathlib.Data.Finset.Max

/-!
# Who owns the page tables

A page table is a frame of the allocator, and `vmm_unmap_page` gives back whatever frame a
page was mapped to.  `TablesInv dir tables s` says that the tables of a directory are in
use.  A call keeps it if and only if it does not give back the frame of a table
(`TablesInv.unmap_iff`) nor take the frame of the bitmap for a new one.
-/

namespace AceOS.Kernel

open Memory Bitmap AceOS.Libc

variable {s : Phys} {dir i j a x virtualAddr physicalAddr flags : Nat} {tables : Nat → Option Nat}

/-! ### Memory -/

abbrev InBitmap (x : Nat) : Prop := memoryStart ≤ x ∧ x < memoryStart + 4096

theorem PmmInv.frameUsed_iff (h : PmmInv s) (hj : j < 7680) :
    FrameUsed s j ↔ j ∉ freeFrameSet s := by
  rw [mem_freeFrameSet, h.total]
  constructor
  · exact fun hu hfree => hfree.2 hu
  · intro hfree
    by_contra hu
    exact hfree ⟨hj, hu⟩

theorem PmmInv.frameUsed_mono {s' : Phys} (h : PmmInv s) (h' : PmmInv s') (hj : j < 7680)
    (hset : freeFrameSet s' ⊆ freeFrameSet s) (hu : FrameUsed s j) : FrameUsed s' j := by
  rw [h'.frameUsed_iff hj]
  exact fun hmem => (h.frameUsed_iff hj).mp hu (hset hmem)

theorem pmmAllocFrame_mem (h : PmmPlaced s) (hx : ¬InBitmap x) :
    (pmmAllocFrame s).2.mem x = s.mem x := by
  rcases pmmAllocFrame_cases h with he | ⟨j, hlt, -, -, hmem, -⟩
  · rw [he]
  · rw [hmem]
    exact setBit_of_outside hlt (by omega)

theorem pmmAllocFrame_subset (h : PmmInv s) :
    freeFrameSet (pmmAllocFrame s).2 ⊆ freeFrameSet s := by
  rcases pmmAllocFrame_spec h with ⟨-, he⟩ | ⟨j, -, -, -, -, hset⟩
  · rw [he]
  · rw [hset]
    exact Finset.erase_subset ..

theorem pmmFreeFrame_mem (h : PmmPlaced s) (hx : ¬InBitmap x) :
    (pmmFreeFrame a s).mem x = s.mem x := by
  have hb := h.bitmap
  have ht := h.total
  rw [pmmFreeFrame]
  split
  · rfl
  · dsimp only
    split
    · rfl
    · split
      · rfl
      · dsimp only
        rw [hb]
        exact clearBit_of_outside (n := 7680) (by omega) (by omega)

theorem pmmFreeFrame_frame (h : PmmInv s) (hj : j < 7680) :
    freeFrameSet (pmmFreeFrame (frameAddress j) s) = insert j (freeFrameSet s) := by
  have hspec := (pmmFreeFrame_spec h (frameAddress j)).2
  have hidx : (frameAddress j - memoryStart) / pageSize = j :=
    frameIndex_eq (Nat.le_refl _) (Nat.lt_add_of_pos_right (by decide))
  rwa [hidx, if_pos ⟨Nat.le_add_right .., hj⟩] at hspec

/-! ### The invariant -/

/-- A page directory below the frames, and the frames in use that hold its tables. -/
structure TablesInv (dir : Nat) (tables : Nat → Option Nat) (s : Phys) : Prop extends PmmInv s where
  below : dir + 4096 ≤ memoryStart
  entry : ∀ i < 1024, EntryIs s.mem dir i (tables i)
  used : ∀ i < 1024, ∀ j, tables i = some j → FrameUsed s j

theorem TablesInv.toVmmInv (h : TablesInv dir tables s) (h0 : FrameUsed s 0) :
    VmmInv dir tables s :=
  ⟨h.toPmmInv, h.below, h0, h.entry⟩

theorem VmmInv.toTablesInv (h : VmmInv dir tables s)
    (hu : ∀ i < 1024, ∀ j, tables i = some j → j ∉ freeFrameSet s) : TablesInv dir tables s := by
  refine ⟨h.toPmmInv, h.below, h.entry, ?_⟩
  intro i hi j hj
  have he := h.entry i hi
  rw [hj] at he
  exact (h.frameUsed_iff he.2.2.2).mpr (hu i hi j hj)

theorem TablesInv.lt (h : TablesInv dir tables s) (hi : i < 1024) (hj : tables i = some j) :
    0 < j ∧ j < 7680 := by
  have he := h.entry i hi
  rw [hj] at he
  exact he.2.2

theorem TablesInv.congr {s' : Phys} (h : TablesInv dir tables s) (hinv : PmmInv s')
    (hm : ∀ x < memoryStart, s'.mem x = s.mem x)
    (hu : ∀ i < 1024, ∀ j, tables i = some j → FrameUsed s' j) : TablesInv dir tables s' := by
  have hbelow := h.below
  refine ⟨hinv, hbelow, ?_, hu⟩
  intro i hi
  refine (h.entry i hi).congr ?_
  intro x h₁ h₂
  exact hm x (by omega)

/-! ### Allocation -/

theorem TablesInv.alloc (h : TablesInv dir tables s) :
    TablesInv dir tables (pmmAllocFrame s).2 := by
  have hinv := pmmAllocFrame_inv h.toPmmInv
  refine h.congr hinv ?_ ?_
  · intro x hx
    exact pmmAllocFrame_mem h.placed (by omega)
  · intro i hi j hj
    exact h.toPmmInv.frameUsed_mono hinv (h.lt hi hj).2 (pmmAllocFrame_subset h.toPmmInv)
      (h.used i hi j hj)

/-- The frame of a table is never handed out. -/
theorem TablesInv.alloc_ne (h : TablesInv dir tables s) (hi : i < 1024) (hj : tables i = some j) :
    (pmmAllocFrame s).1 ≠ frameAddress j := by
  rcases pmmAllocFrame_spec h.toPmmInv with ⟨-, he⟩ | ⟨k, hk, ha, -⟩
  · rw [he]
    simp only [frameAddress, memoryStart]
    omega
  · rw [ha]
    intro he
    rw [frameAddress_inj] at he
    rw [he] at hk
    exact (mem_freeFrameSet.mp (Finset.mem_coe.mp hk.1)).2 (h.used i hi j hj)

/-! ### Mapping -/

theorem getPtIndex_pageAlign (a : Nat) : getPtIndex (pageAlign a) = getPtIndex a := by
  simp only [getPtIndex, pageAlign, pageSize]
  omega

/-- The word `vmm_map_page` makes of the entry of a page. -/
def mappedEntry (m : Mem) (entry physicalAddr flags : Nat) : Mem :=
  setEntry m entry (flagBit flags pagePresent) (flagBit flags pageWritable) (flagBit flags pageUser)
    (pageAlign physicalAddr / 4096)

/-- The entry of a page in the table that its directory entry names. -/
def pageEntry (dir virtualAddr : Nat) (m : Mem) : Nat :=
  entryAddress m (dir + 4 * getPdIndex virtualAddr) * 4096 + 4 * getPtIndex virtualAddr

def pageFrame (dir virtualAddr : Nat) (m : Mem) : Nat :=
  entryAddress m (pageEntry dir virtualAddr m) * 4096

theorem vmmMapPage_of_present (physicalAddr flags : Nat)
    (hp : entryPresent s.mem (dir + 4 * getPdIndex virtualAddr) ≠ 0) :
    vmmMapPage dir virtualAddr physicalAddr flags s =
      { s with mem := mappedEntry s.mem (pageEntry dir virtualAddr s.mem) physicalAddr flags } := by
  rw [vmmMapPage]
  dsimp only
  rw [getPdIndex_pageAlign, getPtIndex_pageAlign, if_neg hp, vmmSetPage]
  rfl

theorem vmmMapPage_of_some (physicalAddr flags : Nat)
    (he : EntryIs s.mem dir (getPdIndex virtualAddr) (some j)) :
    vmmMapPage dir virtualAddr physicalAddr flags s =
      { s with mem :=
          mappedEntry s.mem (frameAddress j + 4 * getPtIndex virtualAddr) physicalAddr flags } := by
  rw [vmmMapPage_of_present _ _ (by rw [he.1]; decide), pageEntry, he.2.1]

theorem vmmMapPage_of_full (h : PmmInv s) (he : EntryIs s.mem dir (getPdIndex virtualAddr) none)
    (hfull : freeFrameSet s = ∅) : vmmMapPage dir virtualAddr physicalAddr flags s = s := by
  have halloc : pmmAllocFrame s = (0, s) := by
    rcases pmmAllocFrame_spec h with ⟨-, ha⟩ | ⟨k, hk, -⟩
    · exact ha
    · rw [hfull] at hk
      exact absurd (Finset.mem_coe.mp hk.1) (Finset.notMem_empty k)
  have he' : entryPresent s.mem (dir + 4 * getPdIndex virtualAddr) = 0 := he
  rw [vmmMapPage]
  dsimp only
  rw [getPdIndex_pageAlign, if_pos he', halloc]
  exact if_pos rfl

/-- The state in which `vmm_map_page` has a new table for directory entry `i`. -/
def takeTable (dir i flags : Nat) (s : Phys) : Phys :=
  { (pmmAllocFrame s).2 with
    mem := setEntry (memset (pmmAllocFrame s).2.mem (pmmAllocFrame s).1 0 4096) (dir + 4 * i) 1 1
      (flagBit flags pageUser) ((pmmAllocFrame s).1 / 4096) }

/-- Otherwise the least free frame becomes the table, and the page is mapped there. -/
theorem TablesInv.takeTable (h : TablesInv dir tables s) (flags : Nat) (h0 : FrameUsed s 0)
    (hi : i < 1024) (hj : IsLeast (freeFrameSet s : Set Nat) j) :
    TablesInv dir (Function.update tables i (some j)) (Kernel.takeTable dir i flags s) ∧
      freeFrameSet (Kernel.takeTable dir i flags s) = (freeFrameSet s).erase j := by
  have ha : (pmmAllocFrame s).1 = frameAddress j := by
    rcases pmmAllocFrame_spec h.toPmmInv with ⟨hempty, -⟩ | ⟨k, hk, ha, -⟩
    · exact absurd (hempty ▸ Finset.mem_coe.mp hj.1) (Finset.notMem_empty j)
    · rw [ha, hk.unique hj]
  have hadd := (h.toVmmInv h0).addTable (flagBit flags pageUser) hi hj ha
  rw [← ha] at hadd
  obtain ⟨hinv, hset⟩ := hadd
  refine ⟨hinv.toTablesInv ?_, hset⟩
  intro k hk l hl
  rw [hset, Finset.mem_erase]
  by_cases hki : k = i
  · rw [hki, Function.update_self, Option.some.injEq] at hl
    exact fun hmem => hmem.1 hl.symm
  · rw [Function.update_of_ne hki] at hl
    exact fun hmem => (h.toPmmInv.frameUsed_iff (h.lt hk hl).2).mp (h.used k hk l hl) hmem.2

theorem vmmMapPage_of_absent (hp : entryPresent s.mem (dir + 4 * getPdIndex virtualAddr) = 0)
    (ha : (pmmAllocFrame s).1 ≠ 0) : vmmMapPage dir virtualAddr physicalAddr flags s =
      vmmMapPage dir virtualAddr physicalAddr flags
        (takeTable dir (getPdIndex virtualAddr) flags s) := by
  have hpresent : entryPresent (takeTable dir (getPdIndex virtualAddr) flags s).mem
      (dir + 4 * getPdIndex virtualAddr) ≠ 0 := by
    rw [takeTable, entryPresent_setEntry]
    decide
  rw [vmmMapPage, vmmMapPage]
  dsimp only
  rw [getPdIndex_pageAlign, getPtIndex_pageAlign, if_pos hp, if_neg ha, if_neg hpresent]
  rfl

theorem vmmMapPage_of_none (h : PmmInv s) (he : EntryIs s.mem dir (getPdIndex virtualAddr) none)
    (hfree : freeFrameSet s ≠ ∅) : vmmMapPage dir virtualAddr physicalAddr flags s =
      vmmMapPage dir virtualAddr physicalAddr flags
        (takeTable dir (getPdIndex virtualAddr) flags s) := by
  apply vmmMapPage_of_absent he
  rcases pmmAllocFrame_spec h with ⟨hfull, -⟩ | ⟨k, -, ha, -⟩
  · exact absurd hfull hfree
  · rw [ha]
    simp only [frameAddress, memoryStart]
    omega

section Mapped

variable {m : Mem} {e : Nat}

theorem mappedEntry_of_disjoint (h : x < e ∨ e + 4 ≤ x) :
    mappedEntry m e physicalAddr flags x = m x := setEntry_of_disjoint h

theorem flagBit_le (flags flag : Nat) : flagBit flags flag ≤ 1 := by
  rw [flagBit]
  split <;> omega

theorem entryPresent_mappedEntry :
    entryPresent (mappedEntry m e physicalAddr flags) e = flagBit flags pagePresent := by
  have hle := flagBit_le flags pagePresent
  rw [mappedEntry, entryPresent_setEntry]
  omega

theorem entryAddress_mappedEntry (hp : physicalAddr < 4294967296) :
    entryAddress (mappedEntry m e physicalAddr flags) e = physicalAddr / 4096 := by
  rw [mappedEntry, entryAddress_setEntry]
  simp only [pageAlign, pageSize]
  omega

end Mapped

theorem TablesInv.map_of_table (h : TablesInv dir tables s) (physicalAddr flags : Nat)
    (hi : getPdIndex virtualAddr < 1024) (ht : tables (getPdIndex virtualAddr) = some j) :
    TablesInv dir tables (vmmMapPage dir virtualAddr physicalAddr flags s) ∧
      freeFrameSet (vmmMapPage dir virtualAddr physicalAddr flags s) = freeFrameSet s := by
  have he := h.entry _ hi
  rw [ht] at he
  obtain ⟨hj0, -⟩ := h.lt hi ht
  have hbelow : ∀ x, x < memoryStart + 4096 →
      mappedEntry s.mem (frameAddress j + 4 * getPtIndex virtualAddr) physicalAddr flags x
        = s.mem x := by
    intro x hx
    refine mappedEntry_of_disjoint (Or.inl ?_)
    simp only [frameAddress, memoryStart, pageSize] at hx ⊢
    omega
  rw [vmmMapPage_of_some _ _ he]
  obtain ⟨hinv, hset, hused⟩ := h.toPmmInv.congr
    { s with
      mem := mappedEntry s.mem (frameAddress j + 4 * getPtIndex virtualAddr) physicalAddr flags }
    rfl fun x _ hx => hbelow x hx
  refine ⟨h.congr hinv (fun x hx => hbelow x (by omega)) ?_, hset⟩
  intro k hk l hl
  exact (hused l (h.lt hk hl).2).mpr (h.used k hk l hl)

/-- **`vmm_map_page`** keeps the tables, whatever it maps, as long as it does not take the
frame of the bitmap for a new one. -/
theorem TablesInv.map (h : TablesInv dir tables s) (physicalAddr flags : Nat)
    (hi : getPdIndex virtualAddr < 1024)
    (h0 : entryPresent s.mem (dir + 4 * getPdIndex virtualAddr) = 0 → FrameUsed s 0) :
    ∃ tables', TablesInv dir tables' (vmmMapPage dir virtualAddr physicalAddr flags s) := by
  have he := h.entry _ hi
  cases ht : tables (getPdIndex virtualAddr) with
  | some j => exact ⟨tables, (h.map_of_table physicalAddr flags hi ht).1⟩
  | none =>
      rw [ht] at he
      by_cases hfull : freeFrameSet s = ∅
      · rw [vmmMapPage_of_full h.toPmmInv he hfull]
        exact ⟨tables, h⟩
      · have hne : (freeFrameSet s).Nonempty := Finset.nonempty_iff_ne_empty.mpr hfull
        have hleast : IsLeast (freeFrameSet s : Set Nat) ((freeFrameSet s).min' hne) :=
          Finset.isLeast_min' _ hne
        obtain ⟨hinv, -⟩ := h.takeTable flags (h0 he) hi hleast
        rw [vmmMapPage_of_none h.toPmmInv he hfull]
        exact ⟨_, (hinv.map_of_table physicalAddr flags hi (Function.update_self ..)).1⟩

/-! ### Unmapping -/

/-- The page is not mapped to a frame that holds a table of the directory. -/
def UnmapKeepsTables (dir virtualAddr : Nat) (s : Phys) : Prop :=
  entryPresent s.mem (dir + 4 * getPdIndex virtualAddr) ≠ 0 →
    ∀ i < 1024, entryPresent s.mem (dir + 4 * i) ≠ 0 →
      pageFrame dir virtualAddr s.mem ≠ entryAddress s.mem (dir + 4 * i) * 4096

/-- Every present entry of the directory names a frame in use. -/
def TablesUsed (dir : Nat) (s : Phys) : Prop :=
  ∀ i < 1024, entryPresent s.mem (dir + 4 * i) ≠ 0 →
    ∃ j < 7680, entryAddress s.mem (dir + 4 * i) * 4096 = frameAddress j ∧ FrameUsed s j

theorem TablesInv.present (h : TablesInv dir tables s) (hi : i < 1024)
    (hp : entryPresent s.mem (dir + 4 * i) ≠ 0) : ∃ j, tables i = some j ∧
      entryAddress s.mem (dir + 4 * i) * 4096 = frameAddress j := by
  have he := h.entry i hi
  cases ht : tables i with
  | none =>
      rw [ht] at he
      exact absurd he hp
  | some j =>
      rw [ht] at he
      exact ⟨j, rfl, he.2.1⟩

theorem TablesInv.tablesUsed (h : TablesInv dir tables s) : TablesUsed dir s := by
  intro i hi hp
  obtain ⟨j, ht, ha⟩ := h.present hi hp
  exact ⟨j, (h.lt hi ht).2, ha, h.used i hi j ht⟩

/-- The entry of the page is cleared, and the frame it named given back. -/
theorem vmmUnmapPage_of_present
    (hp : entryPresent s.mem (dir + 4 * getPdIndex virtualAddr) ≠ 0) :
    vmmUnmapPage dir virtualAddr s =
      if pageFrame dir virtualAddr s.mem ≠ 0 then
        pmmFreeFrame (pageFrame dir virtualAddr s.mem)
          { s with mem := memset s.mem (pageEntry dir virtualAddr s.mem) 0 4 }
      else { s with mem := memset s.mem (pageEntry dir virtualAddr s.mem) 0 4 } := by
  rw [vmmUnmapPage]
  dsimp only
  rw [getPdIndex_pageAlign, getPtIndex_pageAlign, if_neg hp]
  rfl

theorem vmmUnmapPage_of_some (he : EntryIs s.mem dir (getPdIndex virtualAddr) (some j)) :
    pageEntry dir virtualAddr s.mem = frameAddress j + 4 * getPtIndex virtualAddr ∧
    vmmUnmapPage dir virtualAddr s =
      if pageFrame dir virtualAddr s.mem ≠ 0 then
        pmmFreeFrame (pageFrame dir virtualAddr s.mem)
          { s with mem := memset s.mem (pageEntry dir virtualAddr s.mem) 0 4 }
      else { s with mem := memset s.mem (pageEntry dir virtualAddr s.mem) 0 4 } := by
  refine ⟨?_, vmmUnmapPage_of_present (by rw [he.1]; decide)⟩
  rw [pageEntry, he.2.1]

theorem vmmUnmapPage_of_none (he : entryPresent s.mem (dir + 4 * getPdIndex virtualAddr) = 0) :
    vmmUnmapPage dir virtualAddr s = s := by
  rw [vmmUnmapPage]
  dsimp only
  rw [getPdIndex_pageAlign, if_pos he]

section Unmap

variable (h : TablesInv dir tables s) (hi : getPdIndex virtualAddr < 1024)
include h hi

theorem TablesInv.clearEntry (ht : tables (getPdIndex virtualAddr) = some j) :
    TablesInv dir tables { s with mem := memset s.mem (pageEntry dir virtualAddr s.mem) 0 4 } ∧
      freeFrameSet { s with mem := memset s.mem (pageEntry dir virtualAddr s.mem) 0 4 }
        = freeFrameSet s := by
  have he := h.entry _ hi
  rw [ht] at he
  obtain ⟨hj0, -⟩ := h.lt hi ht
  have hbelow : ∀ x, x < memoryStart + 4096 →
      memset s.mem (pageEntry dir virtualAddr s.mem) 0 4 x = s.mem x := by
    intro x hx
    rw [(vmmUnmapPage_of_some he).1, memset_eq_fill, fill_of_disjoint]
    simp only [frameAddress, memoryStart, pageSize] at hx ⊢
    omega
  obtain ⟨hinv, hset, hused⟩ := h.toPmmInv.congr
    { s with mem := memset s.mem (pageEntry dir virtualAddr s.mem) 0 4 } rfl
    fun x _ hx => hbelow x hx
  refine ⟨h.congr hinv (fun x hx => hbelow x (by omega)) ?_, hset⟩
  intro k hk l hl
  exact (hused l (h.lt hk hl).2).mpr (h.used k hk l hl)

theorem vmmUnmapPage_mem (hx : x < memoryStart) :
    (vmmUnmapPage dir virtualAddr s).mem x = s.mem x := by
  have he := h.entry _ hi
  cases ht : tables (getPdIndex virtualAddr) with
  | none =>
      rw [ht] at he
      rw [vmmUnmapPage_of_none he]
  | some j =>
      rw [ht] at he
      obtain ⟨hinv, -⟩ := h.clearEntry hi ht
      have hclear : memset s.mem (pageEntry dir virtualAddr s.mem) 0 4 x = s.mem x := by
        rw [(vmmUnmapPage_of_some he).1, memset_eq_fill, fill_of_disjoint]
        simp only [frameAddress]
        omega
      rw [(vmmUnmapPage_of_some he).2]
      split
      · rw [pmmFreeFrame_mem hinv.placed (by omega), hclear]
      · exact hclear

/-- A frame in use stays in use, but for the one the page is mapped to. -/
theorem TablesInv.unmap_frameUsed {l : Nat} (hl : l < 7680) (hused : FrameUsed s l)
    (hne : pageFrame dir virtualAddr s.mem ≠ frameAddress l) :
    FrameUsed (vmmUnmapPage dir virtualAddr s) l := by
  have he := h.entry _ hi
  have hnot := (h.toPmmInv.frameUsed_iff hl).mp hused
  cases ht : tables (getPdIndex virtualAddr) with
  | none =>
      rw [ht] at he
      rw [vmmUnmapPage_of_none he]
      exact hused
  | some j =>
      rw [ht] at he
      obtain ⟨hinv, hset⟩ := h.clearEntry hi ht
      rw [(vmmUnmapPage_of_some he).2]
      split
      · obtain ⟨hfree, hset'⟩ := pmmFreeFrame_spec hinv.toPmmInv (pageFrame dir virtualAddr s.mem)
        rw [hfree.frameUsed_iff hl, hset', hset]
        split
        · rw [Finset.mem_insert, not_or]
          refine ⟨?_, hnot⟩
          intro hidx
          apply hne
          -- the frame given back is a whole page
          simp only [pageFrame, frameAddress, memoryStart, pageSize] at *
          omega
        · exact hnot
      · rw [hinv.toPmmInv.frameUsed_iff hl, hset]
        exact hnot

/-- **`vmm_unmap_page`** keeps the tables if the page is not mapped to one of them. -/
theorem TablesInv.unmap (hok : UnmapKeepsTables dir virtualAddr s) :
    TablesInv dir tables (vmmUnmapPage dir virtualAddr s) := by
  have he := h.entry _ hi
  cases ht : tables (getPdIndex virtualAddr) with
  | none =>
      rw [ht] at he
      rw [vmmUnmapPage_of_none he]
      exact h
  | some j =>
      rw [ht] at he
      obtain ⟨hinv, hset⟩ := h.clearEntry hi ht
      have hpmm : PmmInv (vmmUnmapPage dir virtualAddr s) := by
        rw [(vmmUnmapPage_of_some he).2]
        split
        · exact (pmmFreeFrame_spec hinv.toPmmInv _).1
        · exact hinv.toPmmInv
      refine h.congr hpmm (fun x hx => vmmUnmapPage_mem h hi hx) ?_
      intro k hk l hl
      have hek := h.entry k hk
      rw [hl] at hek
      have hne := hok (by rw [he.1]; decide) k hk (by rw [hek.1]; decide)
      rw [hek.2.1] at hne
      exact h.unmap_frameUsed hi hek.2.2.2 (h.used k hk l hl) hne

/-- **Otherwise it gives back a table that is still in use.** -/
theorem TablesInv.unmap_iff :
    TablesUsed dir (vmmUnmapPage dir virtualAddr s) ↔ UnmapKeepsTables dir virtualAddr s := by
  constructor
  · intro hused hp k hk hpk ha
    obtain ⟨j, ht, -⟩ := h.present hi hp
    obtain ⟨l, hl, hal⟩ := h.present hk hpk
    have he := h.entry _ hi
    rw [ht] at he
    obtain ⟨hinv, hset⟩ := h.clearEntry hi ht
    have hbelow := h.below
    have hw : load32 (vmmUnmapPage dir virtualAddr s).mem (dir + 4 * k)
        = load32 s.mem (dir + 4 * k) :=
      load32_congr fun x h₁ h₂ => vmmUnmapPage_mem h hi (by omega)
    rw [hal] at ha
    obtain ⟨j', hj', haj', huse⟩ := hused k hk (by rwa [entryPresent, hw])
    have hjl : j' = l := by
      rw [← frameAddress_inj, ← haj', ← hal, entryAddress, entryAddress, hw]
    have hne : pageFrame dir virtualAddr s.mem ≠ 0 := by
      rw [ha]
      simp only [frameAddress, memoryStart]
      omega
    rw [(vmmUnmapPage_of_some he).2, if_pos hne, ha,
      (pmmFreeFrame_spec hinv.toPmmInv _).1.frameUsed_iff hj', hjl,
      pmmFreeFrame_frame hinv.toPmmInv (h.lt hk hl).2] at huse
    exact huse (Finset.mem_insert_self ..)
  · exact fun hok => (h.unmap hi hok).tablesUsed

end Unmap

/-! ### Runs -/

/-- A call, with any 32-bit arguments. -/
inductive VmmOp
  | map (virtualAddr physicalAddr flags : UInt32)
  | unmap (virtualAddr : UInt32)
  | allocFrame
  deriving DecidableEq, Repr

/-- Every call returns; only an allocation has a result. -/
def vmmStep (kernelPageDirectory : Nat) : VmmOp → Phys → Option (Nat × Phys)
  | .map virtualAddr physicalAddr flags, s => some (0,
      vmmMapPage kernelPageDirectory virtualAddr.toNat physicalAddr.toNat flags.toNat s)
  | .unmap virtualAddr, s => some (0, vmmUnmapPage kernelPageDirectory virtualAddr.toNat s)
  | .allocFrame, s => some (pmmAllocFrame s)

/-- No table is given back, and the frame of the bitmap is not taken for a new one. -/
def KeepsTables (kernelPageDirectory : Nat) : VmmOp → Phys → Prop
  | .map virtualAddr _ _, s =>
      entryPresent s.mem (kernelPageDirectory + 4 * getPdIndex virtualAddr.toNat) = 0 →
        FrameUsed s 0
  | .unmap virtualAddr, s => UnmapKeepsTables kernelPageDirectory virtualAddr.toNat s
  | .allocFrame, _ => True

theorem getPdIndex_lt (a : UInt32) : getPdIndex a.toNat < 1024 := by
  have ha := a.toNat_lt
  rw [getPdIndex]
  omega

theorem vmmInit_tables (m : Mem) (hdir : dir + 4096 ≤ memoryStart) :
    TablesInv dir (Function.update (Function.update (fun _ => none) 0 (some 1)) 768 (some 2))
      (vmmInit dir (pmmInit m)) := by
  obtain ⟨hpmm, hset⟩ := pmmInit_spec m
  obtain ⟨hinv, hset'⟩ := vmmInit_spec hpmm hdir hset
  refine hinv.toTablesInv ?_
  intro i _ j hj
  rw [hset', Finset.mem_erase, Finset.mem_erase]
  by_cases h768 : i = 768
  · rw [h768, Function.update_self, Option.some.injEq] at hj
    exact fun hmem => hmem.1 hj.symm
  · rw [Function.update_of_ne h768] at hj
    by_cases h0 : i = 0
    · rw [h0, Function.update_self, Option.some.injEq] at hj
      exact fun hmem => hmem.2.1 hj.symm
    · rw [Function.update_of_ne h0] at hj
      exact absurd hj (by simp)

/-- **One step** keeps the tables in use. -/
theorem vmmStep_inv {op : VmmOp} (h : TablesInv dir tables s) (hok : KeepsTables dir op s) :
    ∃ o s', vmmStep dir op s = some (o, s') ∧ ∃ tables', TablesInv dir tables' s' := by
  cases op with
  | map virtualAddr physicalAddr flags =>
      exact ⟨0, _, rfl, h.map physicalAddr.toNat flags.toNat (getPdIndex_lt virtualAddr) hok⟩
  | unmap virtualAddr => exact ⟨0, _, rfl, tables, h.unmap (getPdIndex_lt virtualAddr) hok⟩
  | allocFrame => exact ⟨_, _, rfl, tables, h.alloc⟩

/-- **Page tables stay owned** along every run that gives none of them back. -/
theorem vmmRun_tables (m : Mem) {kernelPageDirectory : Nat}
    (hk : kernelPageDirectory + 4096 ≤ memoryStart) {ops : List VmmOp}
    (hok : Machine.Meets (vmmStep kernelPageDirectory) (KeepsTables kernelPageDirectory) ops
      (vmmInit kernelPageDirectory (pmmInit m))) :
    ∃ os s, Machine.run (vmmStep kernelPageDirectory) ops (vmmInit kernelPageDirectory (pmmInit m))
        = some (os, s) ∧
      TablesUsed kernelPageDirectory s ∧
      (∀ i < 1024, entryPresent s.mem (kernelPageDirectory + 4 * i) ≠ 0 →
        (pmmAllocFrame s).1 ≠ entryAddress s.mem (kernelPageDirectory + 4 * i) * 4096) ∧
      ∀ virtualAddr : UInt32,
        TablesUsed kernelPageDirectory (vmmUnmapPage kernelPageDirectory virtualAddr.toNat s) ↔
          UnmapKeepsTables kernelPageDirectory virtualAddr.toNat s := by
  obtain ⟨os, s, hrun, tables, h⟩ := Machine.run_total
    (I := fun s => ∃ tables, TablesInv kernelPageDirectory tables s)
    (fun op s hs hg => by
      obtain ⟨tables, hs⟩ := hs
      exact vmmStep_inv hs hg) ⟨_, vmmInit_tables m hk⟩ hok
  refine ⟨os, s, hrun, h.tablesUsed, ?_, ?_⟩
  · intro i hi hp
    obtain ⟨j, ht, ha⟩ := h.present hi hp
    rw [ha]
    exact h.alloc_ne hi ht
  · exact fun virtualAddr => h.unmap_iff (getPdIndex_lt virtualAddr)

/-- Theorem `vmmRun_tables` for a mapping that takes a new table. -/
theorem vmmRun_tables_map : ∃ os s,
    Machine.run (vmmStep 0x110000) [.map 0x400000 0x300000 3, .allocFrame]
      (vmmInit 0x110000 (pmmInit ⟨fun _ => 0⟩)) = some (os, s) ∧ TablesUsed 0x110000 s := by
  obtain ⟨hpmm, hset⟩ := pmmInit_spec ⟨fun _ => 0⟩
  obtain ⟨hinv, -⟩ := vmmInit_spec hpmm (show 0x110000 + 4096 ≤ memoryStart by decide) hset
  have hok : Machine.Meets (vmmStep 0x110000) (KeepsTables 0x110000)
      [.map 0x400000 0x300000 3, .allocFrame] (vmmInit 0x110000 (pmmInit ⟨fun _ => 0⟩)) :=
    ⟨fun _ => hinv.used, fun _ _ _ => ⟨trivial, fun _ _ _ => trivial⟩⟩
  obtain ⟨os, s, hrun, hused, -⟩ := vmmRun_tables ⟨fun _ => 0⟩ (by decide) hok
  exact ⟨os, s, hrun, hused⟩

/-! ### The mappings of the boot code -/

section Loop

variable {n : Nat} {f g : Nat → Nat}

theorem TablesInv.map_range (h : TablesInv dir tables s) (flags : Nat) (hi : i < 1024)
    (ht : tables i = some j) (hn : n ≤ 1024)
    (hf : ∀ k < n, getPdIndex (f k) = i ∧ getPtIndex (f k) = k ∧ g k < 4294967296) :
    TablesInv dir tables
        ((List.range n).foldl (fun s k => vmmMapPage dir (f k) (g k) flags s) s) ∧
      freeFrameSet ((List.range n).foldl (fun s k => vmmMapPage dir (f k) (g k) flags s) s)
        = freeFrameSet s ∧
      (∀ x, x < frameAddress j ∨ frameAddress j + 4096 ≤ x →
        ((List.range n).foldl (fun s k => vmmMapPage dir (f k) (g k) flags s) s).mem x = s.mem x) ∧
      ∀ k < n, entryAddress
        ((List.range n).foldl (fun s k => vmmMapPage dir (f k) (g k) flags s) s).mem
          (frameAddress j + 4 * k) = g k / 4096 := by
  induction n with
  | zero => exact ⟨h, rfl, fun _ _ => rfl, fun k hk => absurd hk (Nat.not_lt_zero k)⟩
  | succ n ih =>
      obtain ⟨hinv, hset, hmem, hpages⟩ := ih (by omega) fun k hk => hf k (by omega)
      rw [List.range_succ, List.foldl_append, List.foldl_cons, List.foldl_nil]
      generalize (List.range n).foldl (fun s k => vmmMapPage dir (f k) (g k) flags s) s = t
        at hinv hset hmem hpages ⊢
      obtain ⟨hpd, hpt, hg⟩ := hf n (Nat.lt_succ_self n)
      have hi' : getPdIndex (f n) < 1024 := by rwa [hpd]
      have ht' : tables (getPdIndex (f n)) = some j := by rwa [hpd]
      obtain ⟨hinv', hset'⟩ := hinv.map_of_table (g n) flags hi' ht'
      have he := hinv.entry _ hi'
      rw [ht'] at he
      have hstep := vmmMapPage_of_some (g n) flags he
      rw [hpt] at hstep
      rw [hstep] at hinv' hset' ⊢
      refine ⟨hinv', hset'.trans hset, ?_, ?_⟩
      · intro x hx
        rw [← hmem x hx]
        exact mappedEntry_of_disjoint (by omega)
      · intro k hk
        by_cases hkn : k = n
        · rw [hkn]
          exact entryAddress_mappedEntry hg
        · rw [← hpages k (by omega), entryAddress, entryAddress]
          congr 1
          apply load32_congr
          intro x h₁ h₂
          exact mappedEntry_of_disjoint (by omega)

theorem vmmMapPage_takeTable (h : PmmInv s) (flags : Nat) (he : EntryIs s.mem dir i none)
    (hfree : freeFrameSet s ≠ ∅) (hf : getPdIndex (f 0) = i) :
    (List.range (n + 1)).foldl (fun s k => vmmMapPage dir (f k) (g k) flags s) s
      = (List.range (n + 1)).foldl (fun s k => vmmMapPage dir (f k) (g k) flags s)
          (takeTable dir i flags s) := by
  subst hf
  rw [List.range_succ_eq_map, List.foldl_cons, List.foldl_cons, vmmMapPage_of_none h he hfree]

/-- Outside the new table and its entry only the allocator has written. -/
theorem takeTable_of_outside (dir i flags : Nat) (hj : (pmmAllocFrame s).1 = frameAddress j)
    (hframe : x < frameAddress j ∨ frameAddress j + 4096 ≤ x)
    (hentry : x < dir + 4 * i ∨ dir + 4 * i + 4 ≤ x) :
    (takeTable dir i flags s).mem x = (pmmAllocFrame s).2.mem x := by
  rw [takeTable, hj]
  dsimp only
  rw [setEntry_of_disjoint hentry, memset_eq_fill, fill_of_disjoint hframe]

theorem takeTable_mem (dir i flags : Nat) (h : PmmPlaced s)
    (hj : (pmmAllocFrame s).1 = frameAddress j) (hx : ¬InBitmap x)
    (hframe : x < frameAddress j ∨ frameAddress j + 4096 ≤ x)
    (hentry : x < dir + 4 * i ∨ dir + 4 * i + 4 ≤ x) :
    (takeTable dir i flags s).mem x = s.mem x := by
  rw [takeTable_of_outside dir i flags hj hframe hentry]
  exact pmmAllocFrame_mem h hx

theorem TablesInv.map_region (h : TablesInv dir tables s) (flags : Nat) (h0 : FrameUsed s 0)
    (hi : i < 1024) (ht : tables i = none) (hj : IsLeast (freeFrameSet s : Set Nat) j)
    (hf : ∀ k < 1024, getPdIndex (f k) = i ∧ getPtIndex (f k) = k ∧ g k < 4294967296) :
    TablesInv dir (Function.update tables i (some j))
        ((List.range 1024).foldl (fun s k => vmmMapPage dir (f k) (g k) flags s) s) ∧
      freeFrameSet ((List.range 1024).foldl (fun s k => vmmMapPage dir (f k) (g k) flags s) s)
        = (freeFrameSet s).erase j ∧
      (∀ x, ¬InBitmap x → (x < frameAddress j ∨ frameAddress j + 4096 ≤ x) →
        (x < dir + 4 * i ∨ dir + 4 * i + 4 ≤ x) →
        ((List.range 1024).foldl (fun s k => vmmMapPage dir (f k) (g k) flags s) s).mem x
          = s.mem x) ∧
      ∀ k < 1024, entryAddress
        ((List.range 1024).foldl (fun s k => vmmMapPage dir (f k) (g k) flags s) s).mem
          (frameAddress j + 4 * k) = g k / 4096 := by
  have he := h.entry i hi
  rw [ht] at he
  have hne : freeFrameSet s ≠ ∅ := fun he => Finset.notMem_empty j (he ▸ Finset.mem_coe.mp hj.1)
  have ha : (pmmAllocFrame s).1 = frameAddress j := by
    rcases pmmAllocFrame_spec h.toPmmInv with ⟨hempty, -⟩ | ⟨k, hk, ha, -⟩
    · exact absurd hempty hne
    · rw [ha, hk.unique hj]
  obtain ⟨hinv, hset⟩ := h.takeTable flags h0 hi hj
  obtain ⟨hinv', hset', hmem', hpages⟩ :=
    hinv.map_range flags hi (Function.update_self ..) (Nat.le_refl 1024) hf
  rw [vmmMapPage_takeTable (n := 1023) h.toPmmInv flags he hne (hf 0 (by decide)).1]
  refine ⟨hinv', hset'.trans hset, ?_, hpages⟩
  intro x hx hframe hentry
  rw [hmem' x hframe]
  exact takeTable_mem _ _ _ h.placed ha hx hframe hentry

end Loop

/-- **After `vmm_init` the first 4 MB are mapped to themselves**, the page tables included. -/
theorem vmmInit_identity (m : Mem) (hdir : dir + 4096 ≤ memoryStart) (ha : a < 0x400000) :
    pageFrame dir a (vmmInit dir (pmmInit m)).mem = pageAlign a := by
  obtain ⟨hpmm, hset⟩ := pmmInit_spec m
  obtain ⟨hclear, hset₀⟩ := vmmInit_clear hpmm hdir hset
  have hinv₀ := hclear.toTablesInv fun i _ j hj => absurd hj (by simp)
  have hleast₁ : IsLeast (((Finset.range 7680).erase 0 : Finset Nat) : Set Nat) 1 := by
    refine ⟨by simp, ?_⟩
    intro x hx
    have hne := Finset.ne_of_mem_erase (Finset.mem_coe.mp hx)
    omega
  rw [← hset₀] at hleast₁
  obtain ⟨hinv₁, hset₁, -, hpages₁⟩ := hinv₀.map_region (i := 0) (j := 1)
    (f := fun i => i * pageSize) (g := fun i => i * pageSize) (pagePresent ||| pageWritable)
    hclear.used (by decide) rfl hleast₁ (by
      intro k hk
      simp only [getPdIndex, getPtIndex, pageSize]
      omega)
  have h0₁ := (hinv₁.toPmmInv.frameUsed_iff (j := 0) (by decide)).mpr (by
    rw [hset₁, hset₀]
    simp)
  have hleast₂ : IsLeast ((((Finset.range 7680).erase 0).erase 1 : Finset Nat) : Set Nat) 2 := by
    refine ⟨by simp, ?_⟩
    intro x hx
    simp only [Finset.coe_erase, Set.mem_sdiff, Set.mem_singleton_iff] at hx
    omega
  rw [← hset₀, ← hset₁] at hleast₂
  obtain ⟨hinv₂, -, hmem₂, -⟩ := hinv₁.map_region (i := 768) (j := 2)
    (f := fun i => kernelVirtualBase + i * pageSize) (g := fun i => i * pageSize)
    (pagePresent ||| pageWritable) h0₁ (by decide) rfl hleast₂ (by
      intro k hk
      simp only [getPdIndex, getPtIndex, pageSize, kernelVirtualBase]
      omega)
  have he := hinv₂.entry 0 (by decide)
  rw [Function.update_of_ne (by decide), Function.update_self] at he
  have hpd : getPdIndex a = 0 := by
    rw [getPdIndex]
    omega
  have hpt : getPtIndex a = a / 4096 := by
    rw [getPtIndex]
    omega
  rw [vmmInit, pageFrame, pageEntry, hpd, hpt, he.2.1, entryAddress,
    load32_congr (fun x h₁ h₂ => hmem₂ x
    (by simp only [InBitmap, frameAddress, memoryStart, pageSize] at *; omega)
    (by simp only [frameAddress, memoryStart, pageSize] at *; omega)
    (by simp only [frameAddress, memoryStart, pageSize] at *; omega))]
  have hpage := hpages₁ (a / 4096) (by omega)
  rw [entryAddress] at hpage
  rw [hpage]
  simp only [pageAlign, pageSize]
  omega

/-- The boot code has mapped the page table of the first 4 MB.  When that page is unmapped,
its frame is free, and is handed out next. -/
theorem vmmRun_freed : ∃ os s, Machine.run (vmmStep 0x110000) [.unmap 0x201000]
      (vmmInit 0x110000 (pmmInit ⟨fun _ => 0⟩)) = some (os, s) ∧ ¬TablesUsed 0x110000 s ∧
    entryPresent s.mem 0x110000 = 1 ∧ entryAddress s.mem 0x110000 * 4096 = 0x201000 ∧
    (pmmAllocFrame s).1 = 0x201000 := by
  refine ⟨[0], _, rfl, ?_⟩
  have hdir : 0x110000 + 4096 ≤ memoryStart := by decide
  have h := vmmInit_tables ⟨fun _ => 0⟩ hdir
  obtain ⟨hpmm, hset⟩ := pmmInit_spec ⟨fun _ => 0⟩
  obtain ⟨-, hset'⟩ := vmmInit_spec hpmm hdir hset
  have hpage : pageFrame 0x110000 0x201000 (vmmInit 0x110000 (pmmInit ⟨fun _ => 0⟩)).mem
      = frameAddress 1 := (vmmInit_identity ⟨fun _ => 0⟩ hdir (by decide)).trans (by decide)
  have he := h.entry 0 (by decide)
  rw [Function.update_of_ne (by decide), Function.update_self] at he
  generalize vmmInit 0x110000 (pmmInit ⟨fun _ => 0⟩) = s at *
  have hpd : getPdIndex 0x201000 = 0 := by decide
  have hpresent : entryPresent s.mem (0x110000 + 4 * 0) ≠ 0 := by
    rw [he.1]
    decide
  have hload : load32 (vmmUnmapPage 0x110000 0x201000 s).mem 0x110000 = load32 s.mem 0x110000 :=
    load32_congr fun x h₁ h₂ => vmmUnmapPage_mem h (getPdIndex_lt 0x201000) (by
      simp only [memoryStart]
      omega)
  refine ⟨?_, ?_, ?_, ?_⟩
  · intro hused
    refine (h.unmap_iff (getPdIndex_lt 0x201000)).mp hused ?_ 0 (by decide) hpresent ?_
    · exact hpresent
    · rw [he.2.1]
      exact hpage
  · rw [← he.1, entryPresent, entryPresent]
    exact congrArg (fun w => getBits w 0 1) hload
  · have hframe : frameAddress 1 = 0x201000 := by decide
    have haddr : entryAddress (vmmUnmapPage 0x110000 0x201000 s).mem 0x110000
        = entryAddress s.mem (0x110000 + 4 * 0) := by
      rw [entryAddress, entryAddress]
      exact congrArg (fun w => getBits w 12 20) hload
    rw [← hframe, ← he.2.1, ← haddr]
    rfl
  · -- frame 1 is the least free frame
    have he' : EntryIs s.mem 0x110000 (getPdIndex 0x201000) (some 1) := hpd.symm ▸ he
    obtain ⟨hclear, hset₁⟩ := h.clearEntry (show getPdIndex 0x201000 < 1024 by decide) (by
      rw [hpd, Function.update_of_ne (by decide), Function.update_self])
    have hfree := (pmmFreeFrame_spec hclear.toPmmInv (frameAddress 1)).1
    have hset₂ := pmmFreeFrame_frame hclear.toPmmInv (show 1 < 7680 by decide)
    rw [hset₁, hset'] at hset₂
    have hunmap := (vmmUnmapPage_of_some he').2
    rw [hpage, if_pos (by decide)] at hunmap
    have haddr : (0x201000 : UInt32).toNat = 0x201000 := by decide
    rw [haddr, hunmap]
    rcases pmmAllocFrame_spec hfree with ⟨hempty, -⟩ | ⟨j, hj, ha, -⟩
    · rw [hset₂] at hempty
      exact absurd hempty (Finset.insert_nonempty ..).ne_empty
    · rw [ha]
      rw [hset₂] at hj
      have h₁ := hj.2 (Finset.mem_coe.mpr (Finset.mem_insert_self ..))
      have h₂ := Finset.mem_coe.mp hj.1
      have h0 : j ≠ 0 := by
        rintro rfl
        simp at h₂
      obtain rfl : j = 1 := by omega
      rfl

end AceOS.Kernel
