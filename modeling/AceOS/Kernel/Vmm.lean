import AceOS.Kernel.Pmm
import Mathlib.Logic.Function.Basic

/-!
# Page tables (`src/kernel/vmm.c`)

A page directory and its page tables lie in physical memory, 1024 words each;
the fields of an entry are bit fields of its word.  The table a directory entry
names is a frame of the allocator, taken when the first page behind that entry
is mapped.

`VmmInv dir tables s` says which frame holds the table of each directory entry.
A mapping does nothing to it (`vmmMapPage_of_table`), or takes the least free frame
for a table that was missing (`vmmMapPage_of_free`).
-/

namespace AceOS.Kernel

open Memory Bitmap AceOS.Libc

/-! ### The code -/

abbrev kernelVirtualBase : Nat := 0xC0000000

abbrev pagePresent : Nat := 0x001
abbrev pageWritable : Nat := 0x002
abbrev pageUser : Nat := 0x004

/-- `GET_PD_INDEX`. -/
def getPdIndex (addr : Nat) : Nat := addr / 4194304

/-- `GET_PT_INDEX`. -/
def getPtIndex (addr : Nat) : Nat := addr / 4096 % 1024

/-- `PAGE_ALIGN`. -/
def pageAlign (addr : Nat) : Nat := addr - addr % pageSize

/-- `(flags & flag) ? 1 : 0`. -/
def flagBit (flags flag : Nat) : Nat := if flags &&& flag ≠ 0 then 1 else 0

/-- The field `present` of an entry of either kind. -/
def entryPresent (m : Mem) (entry : Nat) : Nat := getBits (load32 m entry) 0 1

/-- The field `address` of an entry of either kind. -/
def entryAddress (m : Mem) (entry : Nat) : Nat := getBits (load32 m entry) 12 20

/-- The four fields `vmm_map_page` sets, in an entry of either kind. -/
def setEntry (m : Mem) (entry present writable user address : Nat) : Mem :=
  let m := setField m entry 0 1 present
  let m := setField m entry 1 1 writable
  let m := setField m entry 2 1 user
  setField m entry 12 20 address

/-- The end of `vmm_map_page`: the entry in the page table that `entry` names. -/
def vmmSetPage (entry ptIndex physicalAddr flags : Nat) (s : Phys) : Phys :=
  let pageTable := entryAddress s.mem entry * 4096
  { s with
    mem := setEntry s.mem (pageTable + 4 * ptIndex) (flagBit flags pagePresent)
      (flagBit flags pageWritable) (flagBit flags pageUser) (physicalAddr / 4096) }

def vmmMapPage (dir virtualAddr physicalAddr flags : Nat) (s : Phys) : Phys :=
  let virtualAddr := pageAlign virtualAddr
  let physicalAddr := pageAlign physicalAddr
  let entry := dir + 4 * getPdIndex virtualAddr
  let ptIndex := getPtIndex virtualAddr
  if entryPresent s.mem entry = 0 then
    let (pageTablePhys, s) := pmmAllocFrame s
    if pageTablePhys = 0 then s
    else
      let m := memset s.mem pageTablePhys 0 4096
      let m := setEntry m entry 1 1 (flagBit flags pageUser) (pageTablePhys / 4096)
      vmmSetPage entry ptIndex physicalAddr flags { s with mem := m }
  else vmmSetPage entry ptIndex physicalAddr flags s

/-- `vmm_init`: the first 4 MB mapped at `0` and at `KERNEL_VIRTUAL_BASE`. -/
def vmmInit (kernelPageDirectory : Nat) (s : Phys) : Phys :=
  let s := { s with mem := memset s.mem kernelPageDirectory 0 4096 }
  let s := (List.range 1024).foldl (fun s i =>
    vmmMapPage kernelPageDirectory (i * pageSize) (i * pageSize)
      (pagePresent ||| pageWritable) s) s
  (List.range 1024).foldl (fun s i =>
    vmmMapPage kernelPageDirectory (kernelVirtualBase + i * pageSize) (i * pageSize)
      (pagePresent ||| pageWritable) s) s

/-- `vmm_create_page_directory`: the address of a frame with the kernel's upper entries,
`0` if there is none. -/
def vmmCreatePageDirectory (kernelPageDirectory : Nat) (s : Phys) : Nat × Phys :=
  let (pageDirPhys, s) := pmmAllocFrame s
  if pageDirPhys = 0 then (0, s)
  else
    let m := memset s.mem pageDirPhys 0 4096
    let first := getPdIndex kernelVirtualBase
    let m := (List.range' first (1024 - first)).foldl (fun m i =>
      store32 m (pageDirPhys + 4 * i) (load32 m (kernelPageDirectory + 4 * i))) m
    (pageDirPhys, { s with mem := m })

def vmmUnmapPage (dir virtualAddr : Nat) (s : Phys) : Phys :=
  let virtualAddr := pageAlign virtualAddr
  let entry := dir + 4 * getPdIndex virtualAddr
  if entryPresent s.mem entry = 0 then s
  else
    let pageEntry := entryAddress s.mem entry * 4096 + 4 * getPtIndex virtualAddr
    let physicalAddr := entryAddress s.mem pageEntry * 4096
    let s := { s with mem := memset s.mem pageEntry 0 4 }
    -- whatever frame the page was mapped to
    if physicalAddr ≠ 0 then pmmFreeFrame physicalAddr s else s

def vmmGetPhysicalAddress (dir virtualAddr : Nat) (s : Phys) : Nat :=
  let entry := dir + 4 * getPdIndex virtualAddr
  let offset := virtualAddr % 4096
  if entryPresent s.mem entry = 0 then 0
  else
    let pageEntry := entryAddress s.mem entry * 4096 + 4 * getPtIndex virtualAddr
    if entryPresent s.mem pageEntry = 0 then 0
    else entryAddress s.mem pageEntry * 4096 ||| offset

/-! ### Entries -/

section Entries

variable {m : Mem} {e x p w u a : Nat}

theorem setEntry_of_disjoint (h : x < e ∨ e + 4 ≤ x) : setEntry m e p w u a x = m x := by
  simp only [setEntry]
  rw [setField_of_disjoint h, setField_of_disjoint h, setField_of_disjoint h,
    setField_of_disjoint h]

theorem load32_setEntry : load32 (setEntry m e p w u a) e =
    setBits (setBits (setBits (setBits (load32 m e) 0 1 p) 1 1 w) 2 1 u) 12 20 a := by
  simp only [setEntry]
  rw [load32_setField (by decide), load32_setField (by decide), load32_setField (by decide),
    load32_setField (by decide)]

theorem entryPresent_setEntry : entryPresent (setEntry m e p w u a) e = p % 2 := by
  rw [entryPresent, load32_setEntry, getBits_setBits_of_ge (by decide),
    getBits_setBits_of_ge (by decide), getBits_setBits_of_ge (by decide), getBits_setBits_self]
  rfl

theorem entryAddress_setEntry : entryAddress (setEntry m e p w u a) e = a % 1048576 := by
  rw [entryAddress, load32_setEntry, getBits_setBits_self]
  rfl

end Entries

/-! ### The tables of a directory -/

/-- Directory entry `i` has no table, or its table is in frame `j`. -/
def EntryIs (m : Mem) (dir i : Nat) : Option Nat → Prop
  | none => entryPresent m (dir + 4 * i) = 0
  | some j => entryPresent m (dir + 4 * i) = 1 ∧
      entryAddress m (dir + 4 * i) * 4096 = frameAddress j ∧ 0 < j ∧ j < 7680

theorem EntryIs.congr {m m' : Mem} {dir i : Nat} {t : Option Nat} (h : EntryIs m dir i t)
    (hm : ∀ x, dir + 4 * i ≤ x → x < dir + 4 * i + 4 → m' x = m x) : EntryIs m' dir i t := by
  have hw := load32_congr hm
  cases t with
  | none => rwa [EntryIs, entryPresent, hw]
  | some j => rwa [EntryIs, entryPresent, entryAddress, hw]

/-- A page directory below the frames, and the frames that hold its tables. -/
structure VmmInv (dir : Nat) (tables : Nat → Option Nat) (s : Phys) : Prop extends PmmInv s where
  below : dir + 4096 ≤ memoryStart
  used : FrameUsed s 0
  entry : ∀ i < 1024, EntryIs s.mem dir i (tables i)

theorem PmmInv.congr {s : Phys} (h : PmmInv s) (s' : Phys) (hp : s'.pmm = s.pmm)
    (hm : ∀ x, memoryStart ≤ x → x < memoryStart + 4096 → s'.mem x = s.mem x) :
    PmmInv s' ∧ freeFrameSet s' = freeFrameSet s ∧ ∀ i < 7680, FrameUsed s' i ↔ FrameUsed s i := by
  have hb := h.bitmap
  have ht := h.total
  simp only [memoryStart] at hm hb
  have hset : freeFrameSet s' = freeFrameSet s := by
    rw [freeFrameSet, freeFrameSet, hp, hb, ht]
    apply clearSet_congr
    intro x h₁ h₂
    exact hm x (by omega) (by omega)
  have hused : ∀ i < 7680, FrameUsed s' i ↔ FrameUsed s i := by
    intro i hi
    rw [FrameUsed, FrameUsed, hp, hb, bit_congr]
    intro x h₁ h₂
    exact hm x (by omega) (by omega)
  refine ⟨⟨by rw [hp, h.bitmap], by rw [hp, ht], by rw [hset, hp, h.count],
    by rw [hp]; exact h.hint_le, ?_⟩, hset, hused⟩
  intro i hi
  rw [hp] at hi
  have hle := h.hint_le
  exact (hused i (by omega)).mpr (h.hint i hi)

section Map

variable {s : Phys} {dir i j ptIndex : Nat} {tables : Nat → Option Nat}

/-- Writing an entry of a table leaves everything outside the table's frame alone. -/
theorem vmmSetPage_of_outside {x physicalAddr flags : Nat} (hi : EntryIs s.mem dir i (some j))
    (hp : ptIndex < 1024) (hx : x < frameAddress j ∨ frameAddress j + 4096 ≤ x) :
    (vmmSetPage (dir + 4 * i) ptIndex physicalAddr flags s).mem x = s.mem x := by
  simp only [vmmSetPage]
  rw [hi.2.1]
  exact setEntry_of_disjoint (by omega)

/-- A change that keeps the bitmap and the directory keeps the tables. -/
theorem VmmInv.congr (h : VmmInv dir tables s) (s' : Phys) (hp : s'.pmm = s.pmm)
    (hm : ∀ x, x < memoryStart + 4096 → s'.mem x = s.mem x) :
    VmmInv dir tables s' ∧ freeFrameSet s' = freeFrameSet s := by
  obtain ⟨hinv, hset, hused⟩ := h.toPmmInv.congr s' hp fun x _ hx => hm x hx
  have hbelow := h.below
  refine ⟨⟨hinv, hbelow, (hused 0 (by decide)).mpr h.used, ?_⟩, hset⟩
  intro i hi
  refine (h.entry i hi).congr ?_
  intro x h₁ h₂
  exact hm x (by omega)

theorem VmmInv.setPage (h : VmmInv dir tables s) (physicalAddr flags : Nat) (hi : i < 1024)
    (ht : tables i = some j) (hp : ptIndex < 1024) :
    VmmInv dir tables (vmmSetPage (dir + 4 * i) ptIndex physicalAddr flags s) ∧
      freeFrameSet (vmmSetPage (dir + 4 * i) ptIndex physicalAddr flags s) = freeFrameSet s := by
  have he := h.entry i hi
  rw [ht] at he
  refine h.congr (vmmSetPage (dir + 4 * i) ptIndex physicalAddr flags s) rfl ?_
  intro x hx
  have hj := he.2.2.1
  refine vmmSetPage_of_outside he hp ?_
  simp only [frameAddress, memoryStart, pageSize] at hx ⊢
  omega

/-- The least free frame becomes the table of an entry that had none. -/
theorem VmmInv.addTable (h : VmmInv dir tables s) (u : Nat) (hi : i < 1024)
    (hj : IsLeast (freeFrameSet s : Set Nat) j) (ha : (pmmAllocFrame s).1 = frameAddress j) :
    VmmInv dir (Function.update tables i (some j))
        { (pmmAllocFrame s).2 with
          mem := setEntry (memset (pmmAllocFrame s).2.mem (frameAddress j) 0 4096) (dir + 4 * i)
            1 1 u (frameAddress j / 4096) } ∧
      freeFrameSet { (pmmAllocFrame s).2 with
          mem := setEntry (memset (pmmAllocFrame s).2.mem (frameAddress j) 0 4096) (dir + 4 * i)
            1 1 u (frameAddress j / 4096) } = (freeFrameSet s).erase j := by
  have hjmem := mem_freeFrameSet.mp (Finset.mem_coe.mp hj.1)
  rw [h.total] at hjmem
  have hj0 : 0 < j := by
    by_contra hj0
    have he : j = 0 := by omega
    exact hjmem.2 (he ▸ h.used)
  have hbelow := h.below
  have hstart : memoryStart = 2097152 := rfl
  rcases pmmAllocFrame_spec h.toPmmInv with ⟨he, -⟩ | ⟨j', hj', ha', hinv, hmem, hset⟩
  · exact absurd (he ▸ Finset.mem_coe.mp hj.1) (Finset.notMem_empty j)
  obtain rfl : j' = j := hj'.unique hj
  have hout : ∀ x, (x < dir + 4 * i ∨ dir + 4 * i + 4 ≤ x) → x < frameAddress j' →
      setEntry (memset (pmmAllocFrame s).2.mem (frameAddress j') 0 4096) (dir + 4 * i)
        1 1 u (frameAddress j' / 4096) x = (pmmAllocFrame s).2.mem x := by
    intro x hx hx'
    rw [setEntry_of_disjoint hx, memset_eq_fill, fill_of_disjoint (by omega)]
  have hframe : memoryStart + 4096 ≤ frameAddress j' := by
    simp only [frameAddress, memoryStart, pageSize]
    omega
  obtain ⟨hinv', hset', hused'⟩ := hinv.congr { (pmmAllocFrame s).2 with
      mem := setEntry (memset (pmmAllocFrame s).2.mem (frameAddress j') 0 4096) (dir + 4 * i)
        1 1 u (frameAddress j' / 4096) } rfl
    fun x h₁ h₂ => hout x (by omega) (by omega)
  refine ⟨⟨hinv', h.below, ?_, ?_⟩, hset'.trans hset⟩
  · rw [hused' 0 (by decide), frameUsed_setBit (s := s) (by rw [hmem, h.bitmap])
      (hinv.bitmap.trans h.bitmap.symm)]
    exact Or.inr h.used
  · intro k hk
    by_cases hki : k = i
    · subst hki
      rw [Function.update_self]
      refine ⟨entryPresent_setEntry, ?_, hj0, hjmem.1⟩
      rw [entryAddress_setEntry]
      simp only [frameAddress, memoryStart, pageSize]
      omega
    · rw [Function.update_of_ne hki]
      refine (h.entry k hk).congr ?_
      intro x h₁ h₂
      have hx : x < frameAddress j' := by omega
      rw [hout x (by omega) hx, hmem]
      exact setBit_of_outside hjmem.1 (by omega)

theorem getPdIndex_pageAlign (a : Nat) : getPdIndex (pageAlign a) = getPdIndex a := by
  simp only [getPdIndex, pageAlign, pageSize]
  omega

theorem getPtIndex_lt (a : Nat) : getPtIndex a < 1024 := Nat.mod_lt _ (by decide)

theorem vmmMapPage_of_table (h : VmmInv dir tables s) (virtualAddr physicalAddr flags : Nat)
    (hi : getPdIndex virtualAddr < 1024)
    (ht : tables (getPdIndex virtualAddr) = some j) :
    VmmInv dir tables (vmmMapPage dir virtualAddr physicalAddr flags s) ∧
      freeFrameSet (vmmMapPage dir virtualAddr physicalAddr flags s) = freeFrameSet s := by
  have he := h.entry _ hi
  rw [ht] at he
  simp only [vmmMapPage, getPdIndex_pageAlign]
  rw [if_neg (by rw [he.1]; decide)]
  exact h.setPage (pageAlign physicalAddr) flags hi ht (getPtIndex_lt _)

/-- A mapping behind an entry without a table takes the least free frame for it. -/
theorem vmmMapPage_of_free (h : VmmInv dir tables s) (virtualAddr physicalAddr flags : Nat)
    (hi : getPdIndex virtualAddr < 1024)
    (ht : tables (getPdIndex virtualAddr) = none) (hj : IsLeast (freeFrameSet s : Set Nat) j) :
    VmmInv dir (Function.update tables (getPdIndex virtualAddr) (some j))
        (vmmMapPage dir virtualAddr physicalAddr flags s) ∧
      freeFrameSet (vmmMapPage dir virtualAddr physicalAddr flags s)
        = (freeFrameSet s).erase j := by
  have he := h.entry _ hi
  rw [ht] at he
  have ha : (pmmAllocFrame s).1 = frameAddress j := by
    rcases pmmAllocFrame_spec h.toPmmInv with ⟨hempty, -⟩ | ⟨j', hj', ha, -⟩
    · exact absurd (hempty ▸ Finset.mem_coe.mp hj.1) (Finset.notMem_empty j)
    · rw [ha, hj'.unique hj]
  obtain ⟨hinv, hset⟩ := h.addTable (flagBit flags pageUser) hi hj ha
  obtain ⟨hinv', hset'⟩ := hinv.setPage (pageAlign physicalAddr) flags hi
    (Function.update_self ..) (getPtIndex_lt (pageAlign virtualAddr))
  have hne : frameAddress j ≠ 0 := by
    simp only [frameAddress, memoryStart]
    omega
  simp only [vmmMapPage, getPdIndex_pageAlign, ha]
  rw [if_pos (show entryPresent s.mem (dir + 4 * getPdIndex virtualAddr) = 0 from he), if_neg hne]
  exact ⟨hinv', hset'.trans hset⟩

theorem vmmMapPage_range (flags : Nat) (f g : Nat → Nat) (n : Nat)
    (hf : ∀ k < n + 1, getPdIndex (f k) = i) (h : VmmInv dir tables s) (hi : i < 1024)
    (ht : tables i = none) (hj : IsLeast (freeFrameSet s : Set Nat) j) :
    VmmInv dir (Function.update tables i (some j))
        ((List.range (n + 1)).foldl (fun s k => vmmMapPage dir (f k) (g k) flags s) s) ∧
      freeFrameSet ((List.range (n + 1)).foldl (fun s k => vmmMapPage dir (f k) (g k) flags s) s)
        = (freeFrameSet s).erase j := by
  induction n with
  | zero =>
      have h0 := hf 0 (by decide)
      rw [← h0] at hi ht ⊢
      exact vmmMapPage_of_free h (f 0) (g 0) flags hi ht hj
  | succ n ih =>
      obtain ⟨hinv, hset⟩ := ih fun k hk => hf k (by omega)
      have hn := hf (n + 1) (by omega)
      rw [List.range_succ, List.foldl_append, List.foldl_cons, List.foldl_nil]
      rw [← hn] at hi hinv ⊢
      obtain ⟨hinv', hset'⟩ := vmmMapPage_of_table hinv (f (n + 1)) (g (n + 1)) flags hi
        (Function.update_self ..)
      exact ⟨hinv', hset'.trans hset⟩

theorem vmmInit_clear (h : PmmInv s) (hdir : dir + 4096 ≤ memoryStart)
    (hset : freeFrameSet s = (Finset.range 7680).erase 0) :
    VmmInv dir (fun _ => none) { s with mem := memset s.mem dir 0 4096 } ∧
      freeFrameSet { s with mem := memset s.mem dir 0 4096 } = (Finset.range 7680).erase 0 := by
  obtain ⟨hinv, hset', hused⟩ := h.congr { s with mem := memset s.mem dir 0 4096 } rfl (by
    intro x h₁ h₂
    rw [memset_eq_fill, fill_of_disjoint (by omega)])
  refine ⟨⟨hinv, hdir, ?_, ?_⟩, hset'.trans hset⟩
  · rw [hused 0 (by decide)]
    by_contra h0
    have hm := mem_freeFrameSet.mpr ⟨by rw [h.total]; decide, h0⟩
    rw [hset] at hm
    exact Finset.notMem_erase 0 _ hm
  · intro i hi
    have hzero : UInt8.ofNat 0 = 0 := rfl
    rw [EntryIs, entryPresent, memset_eq_fill, hzero, load32_fill_zero (by omega) (by omega)]
    rfl

/-- **What `vmm_init` takes**: two frames, for the tables of entries `0` and `768`. -/
theorem vmmInit_spec (h : PmmInv s) (hdir : dir + 4096 ≤ memoryStart)
    (hset : freeFrameSet s = (Finset.range 7680).erase 0) :
    VmmInv dir (Function.update (Function.update (fun _ => none) 0 (some 1)) 768 (some 2))
        (vmmInit dir s) ∧
      freeFrameSet (vmmInit dir s) = (((Finset.range 7680).erase 0).erase 1).erase 2 := by
  have hclear := vmmInit_clear h hdir hset
  obtain ⟨hinv₁, hset₁⟩ := vmmMapPage_range (i := 0) (j := 1) (pagePresent ||| pageWritable)
    (fun i => i * pageSize) (fun i => i * pageSize) 1023
    (by intro k hk; simp only [getPdIndex, pageSize]; omega) hclear.1 (by decide) rfl
    (by
      rw [hclear.2]
      refine ⟨by simp, ?_⟩
      intro x hx
      have := Finset.ne_of_mem_erase (Finset.mem_coe.mp hx)
      omega)
  obtain ⟨hinv₂, hset₂⟩ := vmmMapPage_range (i := 768) (j := 2) (pagePresent ||| pageWritable)
    (fun i => kernelVirtualBase + i * pageSize) (fun i => i * pageSize) 1023
    (by
      intro k hk
      simp only [getPdIndex, kernelVirtualBase, pageSize]
      omega) hinv₁ (by decide) rfl
    (by
      rw [hset₁, hclear.2]
      refine ⟨by simp, ?_⟩
      intro x hx
      simp only [Finset.coe_erase, Set.mem_sdiff, Set.mem_singleton_iff] at hx
      omega)
  exact ⟨hinv₂, by rw [vmmInit, hset₂, hset₁, hclear.2]⟩

end Map

end AceOS.Kernel
