import AceOS.Kernel.Spaces

/-!
# The translation function of a page directory

Through `vmm_get_physical_address` a directory is a function on addresses.
`vmm_map_page` and `vmm_unmap_page` change that function on one page, and they do so
through two levels of tables that are found in memory.  What makes this right is where the
tables lie: apart from each other and from the directory (`TablesApart`), and outside the
bitmap that taking and giving back a frame writes to (`OutsideBitmap`).
-/

namespace AceOS.Kernel

open Memory Bitmap AceOS.Libc

/-! ### The function -/

def SamePage (a b : UInt32) : Prop := a.toNat / pageSize = b.toNat / pageSize

instance (a b : UInt32) : Decidable (SamePage a b) := inferInstanceAs (Decidable (_ = _))

/-- A directory as a function on addresses. -/
def translation (dir : Nat) (s : Phys) : UInt32 → Nat :=
  fun a => vmmGetPhysicalAddress dir a.toNat s

/-- The page of `v` is sent to the page of `p`. -/
def mapTo (t : UInt32 → Nat) (v p : UInt32) : UInt32 → Nat :=
  fun a => if SamePage a v then pageAlign p.toNat + a.toNat % pageSize else t a

/-- The page of `v` is sent nowhere. -/
def mapNowhere (t : UInt32 → Nat) (v : UInt32) : UInt32 → Nat :=
  fun a => if SamePage a v then 0 else t a

/-! ### Where the tables lie -/

/-- The table of directory entry `i`. -/
def pageTable (dir i : Nat) (m : Mem) : Nat := entryAddress m (dir + 4 * i) * 4096

/-- Present entries refer to pairwise distinct tables. -/
def TablesDistinct (dir : Nat) (m : Mem) : Prop :=
  ∀ i < 1024, ∀ i' < 1024, entryPresent m (dir + 4 * i) ≠ 0 → entryPresent m (dir + 4 * i') ≠ 0 →
    pageTable dir i m = pageTable dir i' m → i = i'

/-- They are distinct, and none overlaps the directory. -/
structure TablesApart (dir : Nat) (m : Mem) : Prop where
  distinct : TablesDistinct dir m
  directory : ∀ i < 1024, entryPresent m (dir + 4 * i) ≠ 0 →
    pageTable dir i m + 4096 ≤ dir ∨ dir + 4096 ≤ pageTable dir i m

/-- Neither the directory nor one of its tables lies in the frame of the bitmap. -/
structure OutsideBitmap (dir : Nat) (m : Mem) : Prop where
  directory : dir + 4096 ≤ memoryStart ∨ memoryStart + 4096 ≤ dir
  table : ∀ i < 1024, entryPresent m (dir + 4 * i) ≠ 0 → pageTable dir i m ≠ memoryStart

/-- `pmm_alloc_frame` returns a frame that is no table of the directory, nor overlaps the
directory. -/
structure GetsTable (dir : Nat) (s : Phys) : Prop where
  some : (pmmAllocFrame s).1 ≠ 0
  fresh : ∀ i < 1024, entryPresent s.mem (dir + 4 * i) ≠ 0 →
    (pmmAllocFrame s).1 ≠ pageTable dir i s.mem
  directory : (pmmAllocFrame s).1 + 4096 ≤ dir ∨ dir + 4096 ≤ (pmmAllocFrame s).1

section Words

variable {m m' : Mem} {s : Phys} {dir i j a v x : Nat}

theorem pageEntry_eq : pageEntry dir a m = pageTable dir (getPdIndex a) m + 4 * getPtIndex a := rfl

theorem pageTable_congr (h : load32 m' (dir + 4 * i) = load32 m (dir + 4 * i)) :
    pageTable dir i m' = pageTable dir i m := by
  rw [pageTable, entryAddress, h]
  rfl

theorem vmmGetPhysicalAddress_eq : vmmGetPhysicalAddress dir a s =
    if entryPresent s.mem (dir + 4 * getPdIndex a) = 0 then 0
    else if entryPresent s.mem (pageEntry dir a s.mem) = 0 then 0
    else pageFrame dir a s.mem + a % pageSize := by
  have hor : pageFrame dir a s.mem ||| a % 4096 = pageFrame dir a s.mem + a % 4096 := by
    have h := Nat.two_pow_add_eq_or_of_lt (i := 12) (b := a % 4096) (Nat.mod_lt a (by decide))
      (entryAddress s.mem (pageEntry dir a s.mem))
    rw [Nat.mul_comm] at h
    exact h.symm
  rw [pageSize, ← hor]
  rfl

theorem vmmGetPhysicalAddress_of_words {s' : Phys}
    (hdir : load32 s'.mem (dir + 4 * getPdIndex a) = load32 s.mem (dir + 4 * getPdIndex a))
    (hpage : entryPresent s.mem (dir + 4 * getPdIndex a) ≠ 0 →
      load32 s'.mem (pageEntry dir a s.mem) = load32 s.mem (pageEntry dir a s.mem)) :
    vmmGetPhysicalAddress dir a s' = vmmGetPhysicalAddress dir a s := by
  have hentry : pageEntry dir a s'.mem = pageEntry dir a s.mem := by
    rw [pageEntry_eq, pageEntry_eq, pageTable_congr hdir]
  rw [vmmGetPhysicalAddress_eq, vmmGetPhysicalAddress_eq]
  by_cases hp : entryPresent s.mem (dir + 4 * getPdIndex a) = 0
  · rw [if_pos hp, entryPresent, hdir]
    exact if_pos hp
  · rw [pageFrame, pageFrame, hentry, entryPresent, hdir, entryPresent, entryAddress, hpage hp]
    rfl

/-- Only the entries of the directory matter to where its tables lie. -/
theorem TablesApart.congr (h : TablesApart dir m)
    (hdir : ∀ i < 1024, load32 m' (dir + 4 * i) = load32 m (dir + 4 * i)) : TablesApart dir m' := by
  have hpresent : ∀ i < 1024, entryPresent m' (dir + 4 * i) = entryPresent m (dir + 4 * i) := by
    intro i hi
    rw [entryPresent, hdir i hi]
    rfl
  constructor
  · intro i hi i' hi' hp hp' he
    rw [hpresent i hi] at hp
    rw [hpresent i' hi'] at hp'
    rw [pageTable_congr (hdir i hi), pageTable_congr (hdir i' hi')] at he
    exact h.distinct i hi i' hi' hp hp' he
  · intro i hi hp
    rw [hpresent i hi] at hp
    rw [pageTable_congr (hdir i hi)]
    exact h.directory i hi hp

theorem pageEntry_bounds (dir a : Nat) (m : Mem) :
    pageTable dir (getPdIndex a) m ≤ pageEntry dir a m ∧
      pageEntry dir a m + 4 ≤ pageTable dir (getPdIndex a) m + 4096 := by
  have hpt := getPtIndex_lt a
  rw [pageEntry_eq]
  omega

theorem TablesApart.pageEntry_ne (h : TablesApart dir m) (hi : getPdIndex a < 1024)
    (hi' : getPdIndex v < 1024) (hp : entryPresent m (dir + 4 * getPdIndex a) ≠ 0)
    (hp' : entryPresent m (dir + 4 * getPdIndex v) ≠ 0) (hne : a / pageSize ≠ v / pageSize) :
    pageEntry dir a m + 4 ≤ pageEntry dir v m ∨ pageEntry dir v m + 4 ≤ pageEntry dir a m := by
  by_cases he : getPdIndex a = getPdIndex v
  · -- one table, two indices
    have hpt : getPtIndex a ≠ getPtIndex v := by
      simp only [getPdIndex, getPtIndex, pageSize] at *
      omega
    rw [pageEntry_eq, pageEntry_eq, he]
    omega
  · have htables : pageTable dir (getPdIndex a) m ≠ pageTable dir (getPdIndex v) m :=
      fun heq => he (h.distinct _ hi _ hi' hp hp' heq)
    have hb := pageEntry_bounds dir a m
    have hb' := pageEntry_bounds dir v m
    simp only [pageTable] at htables hb hb'
    omega

end Words

variable {s : Phys} {dir i j x : Nat} {v p flags : UInt32}

/-- A call writes the entry of one page: every other page keeps its translation. -/
theorem TablesApart.translation_of_ne (h : TablesApart dir s.mem) {s' : Phys} {a : UInt32}
    (hp : entryPresent s.mem (dir + 4 * getPdIndex v.toNat) ≠ 0)
    (hdir : ∀ i < 1024, load32 s'.mem (dir + 4 * i) = load32 s.mem (dir + 4 * i))
    (hpages : ∀ i < 1024, ∀ k < 1024, entryPresent s.mem (dir + 4 * i) ≠ 0 →
      (pageTable dir i s.mem + 4 * k + 4 ≤ pageEntry dir v.toNat s.mem ∨
        pageEntry dir v.toNat s.mem + 4 ≤ pageTable dir i s.mem + 4 * k) →
      load32 s'.mem (pageTable dir i s.mem + 4 * k) = load32 s.mem (pageTable dir i s.mem + 4 * k))
    (hne : ¬SamePage a v) : translation dir s' a = translation dir s a := by
  apply vmmGetPhysicalAddress_of_words (hdir _ (getPdIndex_lt a))
  intro hpa
  exact hpages _ (getPdIndex_lt a) _ (getPtIndex_lt a.toNat) hpa
    (h.pageEntry_ne (getPdIndex_lt a) (getPdIndex_lt v) hpa hp hne)

theorem SamePage.index {a : UInt32} (h : SamePage a v) :
    getPdIndex a.toNat = getPdIndex v.toNat ∧ getPtIndex a.toNat = getPtIndex v.toNat := by
  simp only [SamePage, getPdIndex, getPtIndex, pageSize] at *
  omega

theorem SamePage.pageEntry_eq {a : UInt32} {m : Mem} (h : SamePage a v) :
    pageEntry dir a.toNat m = pageEntry dir v.toNat m := by
  rw [pageEntry, pageEntry, h.index.1, h.index.2]

/-! ### Mapping -/

theorem TablesApart.load32_dir (h : TablesApart dir s.mem) {m' : Mem}
    (hp : entryPresent s.mem (dir + 4 * getPdIndex v.toNat) ≠ 0)
    (hm : ∀ x, (x < pageEntry dir v.toNat s.mem ∨ pageEntry dir v.toNat s.mem + 4 ≤ x) →
      dir ≤ x → x < dir + 4096 → m' x = s.mem x) (hi : i < 1024) :
    load32 m' (dir + 4 * i) = load32 s.mem (dir + 4 * i) := by
  have hout := h.directory _ (getPdIndex_lt v) hp
  have hb := pageEntry_bounds dir v.toNat s.mem
  apply load32_congr
  intro x h₁ h₂
  exact hm x (by omega) (by omega) (by omega)

/-- **With a table**, the page is mapped and nothing else changes. -/
theorem TablesApart.map_of_present (h : TablesApart dir s.mem)
    (hp : entryPresent s.mem (dir + 4 * getPdIndex v.toNat) ≠ 0)
    (hflags : flags.toNat &&& pagePresent ≠ 0) :
    translation dir (vmmMapPage dir v.toNat p.toNat flags.toNat s) = mapTo (translation dir s) v p ∧
      TablesApart dir (vmmMapPage dir v.toNat p.toNat flags.toNat s).mem := by
  rw [vmmMapPage_of_present p.toNat flags.toNat hp]
  have hdir : ∀ i < 1024,
      load32 (mappedEntry s.mem (pageEntry dir v.toNat s.mem) p.toNat flags.toNat) (dir + 4 * i)
        = load32 s.mem (dir + 4 * i) := by
    intro i hi
    exact h.load32_dir hp (fun x hx _ _ => mappedEntry_of_disjoint hx) hi
  refine ⟨?_, h.congr hdir⟩
  funext a
  rw [mapTo]
  by_cases ha : SamePage a v
  · rw [if_pos ha, translation, vmmGetPhysicalAddress_eq]
    dsimp only
    have hentry : pageEntry dir a.toNat
        (mappedEntry s.mem (pageEntry dir v.toNat s.mem) p.toNat flags.toNat)
        = pageEntry dir v.toNat s.mem := by
      rw [pageEntry_eq, pageTable_congr (hdir _ (getPdIndex_lt a)), ← pageEntry_eq,
        ha.pageEntry_eq]
    rw [entryPresent, hdir _ (getPdIndex_lt a), ha.index.1]
    rw [if_neg (show getBits (load32 s.mem (dir + 4 * getPdIndex v.toNat)) 0 1 ≠ 0 from hp),
      pageFrame, hentry, entryPresent_mappedEntry, entryAddress_mappedEntry p.toNat_lt,
      if_neg fun hzero => hflags (flagBit_eq_zero.mp hzero)]
    simp only [pageAlign, pageSize]
    omega
  · rw [if_neg ha]
    refine h.translation_of_ne hp hdir ?_ ha
    intro i hi k hk _ hout
    apply load32_congr
    intro x h₁ h₂
    exact mappedEntry_of_disjoint (by omega)

/-- What becomes of the words of the tables when the entry of `v` gets its own. -/
structure TableTaken (dir : Nat) (v : UInt32) (s s' : Phys) : Prop where
  present : entryPresent s'.mem (dir + 4 * getPdIndex v.toNat) ≠ 0
  table : pageTable dir (getPdIndex v.toNat) s'.mem = (pmmAllocFrame s).1
  empty : ∀ k < 1024, entryPresent s'.mem ((pmmAllocFrame s).1 + 4 * k) = 0
  entries : ∀ i < 1024, i ≠ getPdIndex v.toNat →
    load32 s'.mem (dir + 4 * i) = load32 s.mem (dir + 4 * i)
  tables : ∀ i < 1024, entryPresent s.mem (dir + 4 * i) ≠ 0 → ∀ k < 1024,
    load32 s'.mem (pageTable dir i s.mem + 4 * k) = load32 s.mem (pageTable dir i s.mem + 4 * k)

theorem takeTable_taken (hs : PmmPlaced s) (h : TablesApart dir s.mem)
    (hout : OutsideBitmap dir s.mem) (hg : GetsTable dir s) (flags : Nat) :
    TableTaken dir v s (takeTable dir (getPdIndex v.toNat) flags s) := by
  have hi := getPdIndex_lt v
  have hbitmap := hout.directory
  have hframe := hg.directory
  rcases pmmAllocFrame_cases hs with he | ⟨j, hj, -, ha, -, -⟩
  · exact absurd (by rw [he]) hg.some
  have hmem := fun x => takeTable_mem (x := x) dir (getPdIndex v.toNat) flags hs ha
  rw [ha] at hframe
  refine ⟨?_, ?_, ?_, ?_, ?_⟩
  · rw [takeTable, entryPresent_setEntry]
    decide
  · rw [pageTable, takeTable, entryAddress_setEntry, ha]
    simp only [frameAddress, memoryStart, pageSize]
    omega
  · intro k hk
    rw [ha]
    exact takeTable_absent hi hk ha (by omega)
  · intro i hi' hne
    apply load32_congr
    intro x h₁ h₂
    exact hmem x (by omega) (by omega) (by omega)
  · intro i hi' hp k hk
    have hdir := h.directory i hi' hp
    have hstart := hout.table i hi' hp
    have hfresh := hg.fresh i hi' hp
    rw [ha] at hfresh
    apply load32_congr
    intro x h₁ h₂
    apply hmem x
    · simp only [InBitmap, pageTable, memoryStart] at *
      omega
    · simp only [pageTable, frameAddress, memoryStart, pageSize] at *
      omega
    · omega

theorem TableTaken.old {s' : Phys} (ht : TableTaken dir v s s') (hi : i < 1024)
    (hne : i ≠ getPdIndex v.toNat) (hp : entryPresent s'.mem (dir + 4 * i) ≠ 0) :
    entryPresent s.mem (dir + 4 * i) ≠ 0 ∧ pageTable dir i s'.mem = pageTable dir i s.mem := by
  rw [entryPresent, ht.entries i hi hne] at hp
  exact ⟨hp, pageTable_congr (ht.entries i hi hne)⟩

theorem TableTaken.apart {s' : Phys} (ht : TableTaken dir v s s') (h : TablesApart dir s.mem)
    (hg : GetsTable dir s) : TablesApart dir s'.mem := by
  constructor
  · intro i hi i' hi' hp hp' heq
    by_cases he : i = getPdIndex v.toNat
    · by_cases he' : i' = getPdIndex v.toNat
      · rw [he, he']
      · obtain ⟨hp', hpt'⟩ := ht.old hi' he' hp'
        rw [he, ht.table, hpt'] at heq
        exact absurd heq (hg.fresh i' hi' hp')
    · obtain ⟨hp, hpt⟩ := ht.old hi he hp
      by_cases he' : i' = getPdIndex v.toNat
      · rw [he', ht.table, hpt] at heq
        exact absurd heq.symm (hg.fresh i hi hp)
      · obtain ⟨hp', hpt'⟩ := ht.old hi' he' hp'
        rw [hpt, hpt'] at heq
        exact h.distinct i hi i' hi' hp hp' heq
  · intro i hi hp
    by_cases he : i = getPdIndex v.toNat
    · rw [he, ht.table]
      exact hg.directory
    · obtain ⟨hp, hpt⟩ := ht.old hi he hp
      rw [hpt]
      exact h.directory i hi hp

/-- An empty table translates as a missing one. -/
theorem TableTaken.translation {s' : Phys} (ht : TableTaken dir v s s')
    (hp : entryPresent s.mem (dir + 4 * getPdIndex v.toNat) = 0) :
    translation dir s' = translation dir s := by
  funext a
  by_cases he : getPdIndex a.toNat = getPdIndex v.toNat
  · have habsent : vmmGetPhysicalAddress dir a.toNat s = 0 :=
      vmmGetPhysicalAddress_of_absent (by rw [he]; exact hp)
    rw [Kernel.translation, Kernel.translation, habsent, vmmGetPhysicalAddress_eq, he,
      if_neg ht.present, if_pos]
    rw [pageEntry_eq, he, ht.table]
    exact ht.empty _ (getPtIndex_lt a.toNat)
  · apply vmmGetPhysicalAddress_of_words (ht.entries _ (getPdIndex_lt a) he)
    intro hpa
    exact ht.tables _ (getPdIndex_lt a) hpa _ (getPtIndex_lt a.toNat)

/-- **Without a table**, one is taken first. -/
theorem TablesApart.map_of_absent (h : TablesApart dir s.mem) (hs : PmmPlaced s)
    (hout : OutsideBitmap dir s.mem)
    (hp : entryPresent s.mem (dir + 4 * getPdIndex v.toNat) = 0) (hg : GetsTable dir s)
    (hflags : flags.toNat &&& pagePresent ≠ 0) :
    translation dir (vmmMapPage dir v.toNat p.toNat flags.toNat s) = mapTo (translation dir s) v p ∧
      TablesApart dir (vmmMapPage dir v.toNat p.toNat flags.toNat s).mem := by
  have ht := takeTable_taken (v := v) hs h hout hg flags.toNat
  rw [vmmMapPage_of_absent hp hg.some, ← ht.translation hp]
  exact (ht.apart h hg).map_of_present ht.present hflags

theorem vmmMapPage_of_no_frame {virtualAddr physicalAddr flags : Nat} (hs : PmmPlaced s)
    (hp : entryPresent s.mem (dir + 4 * getPdIndex virtualAddr) = 0)
    (ha : (pmmAllocFrame s).1 = 0) : vmmMapPage dir virtualAddr physicalAddr flags s = s := by
  have halloc : pmmAllocFrame s = (0, s) := by
    rcases pmmAllocFrame_cases hs with he | ⟨j, -, -, ha', -⟩
    · exact he
    · rw [ha'] at ha
      simp only [frameAddress, memoryStart] at ha
      omega
  rw [vmmMapPage]
  dsimp only
  rw [getPdIndex_pageAlign, if_pos hp, halloc]
  exact if_pos rfl

/-! ### Unmapping -/

/-- Outside the bitmap only the entry of the page changes, and it is cleared. -/
theorem vmmUnmapPage_mem_of_present (hs : PmmPlaced s)
    (hp : entryPresent s.mem (dir + 4 * getPdIndex v.toNat) ≠ 0) (hx : ¬InBitmap x) :
    (vmmUnmapPage dir v.toNat s).mem x = fill s.mem (pageEntry dir v.toNat s.mem) 4 0 x := by
  have hfill : memset s.mem (pageEntry dir v.toNat s.mem) 0 4
      = fill s.mem (pageEntry dir v.toNat s.mem) 4 0 := memset_eq_fill ..
  rw [vmmUnmapPage_of_present hp, hfill]
  split
  · exact pmmFreeFrame_mem ⟨hs.bitmap, hs.total, hs.hint_le⟩ hx
  · rfl

theorem OutsideBitmap.entry (hout : OutsideBitmap dir s.mem)
    (hp : entryPresent s.mem (dir + 4 * getPdIndex v.toNat) ≠ 0)
    (h₁ : pageEntry dir v.toNat s.mem ≤ x) (h₂ : x < pageEntry dir v.toNat s.mem + 4) :
    ¬InBitmap x := by
  have hstart := hout.table _ (getPdIndex_lt v) hp
  have hb := pageEntry_bounds dir v.toNat s.mem
  simp only [InBitmap, pageTable, memoryStart] at *
  omega

theorem OutsideBitmap.unmap_entry (hs : PmmPlaced s) (hout : OutsideBitmap dir s.mem)
    (hp : entryPresent s.mem (dir + 4 * getPdIndex v.toNat) ≠ 0) :
    load32 (vmmUnmapPage dir v.toNat s).mem (pageEntry dir v.toNat s.mem) = 0 := by
  rw [← load32_fill_zero (m := s.mem) (a := pageEntry dir v.toNat s.mem) (n := 4) (le_refl _)
    (le_refl _)]
  apply load32_congr
  intro x h₁ h₂
  exact vmmUnmapPage_mem_of_present hs hp (hout.entry hp h₁ h₂)

section Unmap

variable (h : TablesApart dir s.mem) (hs : PmmPlaced s) (hout : OutsideBitmap dir s.mem)
  (hp : entryPresent s.mem (dir + 4 * getPdIndex v.toNat) ≠ 0)
include h hs hout hp

theorem TablesApart.unmap_dir (hi : i < 1024) :
    load32 (vmmUnmapPage dir v.toNat s).mem (dir + 4 * i) = load32 s.mem (dir + 4 * i) := by
  have hbitmap := hout.directory
  refine h.load32_dir hp ?_ hi
  intro x hx h₁ h₂
  rw [vmmUnmapPage_mem_of_present hs hp (by omega), fill_of_disjoint hx]

theorem TablesApart.unmap_pageEntry {a : UInt32} :
    pageEntry dir a.toNat (vmmUnmapPage dir v.toNat s).mem = pageEntry dir a.toNat s.mem := by
  rw [pageEntry_eq, pageTable_congr (h.unmap_dir hs hout hp (getPdIndex_lt a)), ← pageEntry_eq]

/-- **The page is gone**, and nothing else changes. -/
theorem TablesApart.unmap_of_present :
    translation dir (vmmUnmapPage dir v.toNat s) = mapNowhere (translation dir s) v := by
  funext a
  rw [mapNowhere]
  by_cases ha : SamePage a v
  · rw [if_pos ha, translation, vmmGetPhysicalAddress_eq, h.unmap_pageEntry hs hout hp,
      ha.pageEntry_eq, entryPresent, entryPresent, hout.unmap_entry hs hp,
      if_pos (show getBits 0 0 1 = 0 from rfl)]
    exact ite_self 0
  · rw [if_neg ha]
    refine h.translation_of_ne hp (fun i hi => h.unmap_dir hs hout hp hi) ?_ ha
    intro i hi k hk hpi hne
    have hstart := hout.table i hi hpi
    apply load32_congr
    intro x h₁ h₂
    rw [vmmUnmapPage_mem_of_present hs hp, fill_of_disjoint (by omega)]
    simp only [InBitmap, pageTable, memoryStart] at *
    omega

/-- A second time nothing changes. -/
theorem TablesApart.unmap_unmap :
    vmmUnmapPage dir v.toNat (vmmUnmapPage dir v.toNat s) = vmmUnmapPage dir v.toNat s := by
  have hentry := hout.unmap_entry hs hp
  have hp' : entryPresent (vmmUnmapPage dir v.toNat s).mem (dir + 4 * getPdIndex v.toNat) ≠ 0 := by
    rw [entryPresent, h.unmap_dir hs hout hp (getPdIndex_lt v)]
    exact hp
  have hframe : pageFrame dir v.toNat (vmmUnmapPage dir v.toNat s).mem = 0 := by
    rw [pageFrame, h.unmap_pageEntry hs hout hp, entryAddress, hentry]
    rfl
  rw [vmmUnmapPage_of_present hp', hframe, if_neg (by decide), h.unmap_pageEntry hs hout hp,
    memset_eq_fill]
  have hmem : fill (vmmUnmapPage dir v.toNat s).mem (pageEntry dir v.toNat s.mem) 4 0
      = (vmmUnmapPage dir v.toNat s).mem := by
    ext x
    by_cases hx : pageEntry dir v.toNat s.mem ≤ x ∧ x < pageEntry dir v.toNat s.mem + 4
    · rw [vmmUnmapPage_mem_of_present hs hp (hout.entry hp hx.1 hx.2),
        fill_of_mem hx.1 hx.2, fill_of_mem hx.1 hx.2]
    · rw [fill_of_disjoint (by omega)]
  exact congrArg (fun m => Phys.mk m (vmmUnmapPage dir v.toNat s).pmm) hmem

end Unmap

/-! ### Both calls -/

/-- **Mapping and unmapping are updates of the translation function** of a directory whose
tables lie apart and outside the bitmap. -/
theorem vmm_translation (hs : PmmPlaced s) (h : TablesApart dir s.mem)
    (hout : OutsideBitmap dir s.mem) (v p flags : UInt32)
    (hflags : flags.toNat &&& pagePresent ≠ 0) :
    (entryPresent s.mem (dir + 4 * getPdIndex v.toNat) ≠ 0 ∨ GetsTable dir s →
      translation dir (vmmMapPage dir v.toNat p.toNat flags.toNat s)
          = mapTo (translation dir s) v p ∧
        TablesDistinct dir (vmmMapPage dir v.toNat p.toNat flags.toNat s).mem) ∧
    (entryPresent s.mem (dir + 4 * getPdIndex v.toNat) = 0 → (pmmAllocFrame s).1 = 0 →
      vmmMapPage dir v.toNat p.toNat flags.toNat s = s) ∧
    translation dir (vmmUnmapPage dir v.toNat s) = mapNowhere (translation dir s) v ∧
    vmmUnmapPage dir v.toNat (vmmUnmapPage dir v.toNat s) = vmmUnmapPage dir v.toNat s := by
  refine ⟨?_, fun hp ha => vmmMapPage_of_no_frame hs hp ha, ?_⟩
  · intro hok
    by_cases hp : entryPresent s.mem (dir + 4 * getPdIndex v.toNat) = 0
    · obtain ⟨ht, hapart⟩ := h.map_of_absent (p := p) hs hout hp
        (hok.resolve_left fun hne => hne hp) hflags
      exact ⟨ht, hapart.distinct⟩
    · obtain ⟨ht, hapart⟩ := h.map_of_present (p := p) hp hflags
      exact ⟨ht, hapart.distinct⟩
  · by_cases hp : entryPresent s.mem (dir + 4 * getPdIndex v.toNat) = 0
    · have hstay : vmmUnmapPage dir v.toNat s = s := vmmUnmapPage_of_none hp
      refine ⟨?_, by rw [hstay, hstay]⟩
      rw [hstay]
      funext a
      rw [mapNowhere]
      split
      · rename_i ha
        rw [translation]
        exact vmmGetPhysicalAddress_of_absent (by rw [ha.index.1]; exact hp)
      · rfl
    · exact ⟨h.unmap_of_present hs hout hp, h.unmap_unmap hs hout hp⟩

/-- Distinct tables and a table for the entry, and yet the mapping goes wrong. -/
def MapMisses (dir : Nat) (v p flags : UInt32) (s : Phys) : Prop :=
  TablesDistinct dir s.mem ∧
  (entryPresent s.mem (dir + 4 * getPdIndex v.toNat) ≠ 0 ∨
    (pmmAllocFrame s).1 ≠ 0 ∧ ∀ i < 1024, entryPresent s.mem (dir + 4 * i) ≠ 0 →
      (pmmAllocFrame s).1 ≠ pageTable dir i s.mem) ∧
  translation dir (vmmMapPage dir v.toNat p.toNat flags.toNat s) ≠ mapTo (translation dir s) v p

/-- A memory that is zero but for some words, behind the allocator. -/
def physOf (words : List (Nat × Nat)) (freeFrames : Nat) : Phys where
  mem := words.foldl (fun m w => store32 m w.1 w.2) ⟨fun _ => 0⟩
  pmm := { bitmap := memoryStart, bitmapSize := 240, totalFrames := 7680, freeFrames := freeFrames,
           firstFreeFrame := 0 }

theorem load32_physOf {words : List (Nat × Nat)} {n : Nat}
    (h : ∀ w ∈ words, x + 4 ≤ w.1 ∨ w.1 + 4 ≤ x) : load32 (physOf words n).mem x = 0 := by
  have hzero : ∀ m : Mem, load32 m x = 0 →
      load32 (words.foldl (fun m w => store32 m w.1 w.2) m) x = 0 := by
    intro m hm
    induction words generalizing m with
    | nil => exact hm
    | cons w ws ih =>
        rw [List.forall_mem_cons] at h
        rw [List.foldl_cons]
        apply ih h.2
        rw [load32_store32_of_disjoint h.1]
        exact hm
  exact hzero ⟨fun _ => 0⟩ rfl

/-- When entry `0` is the only one, it is distinct from the others. -/
theorem mapMisses_of_single (h : ∀ i < 1024, i ≠ 0 → load32 s.mem (dir + 4 * i) = 0)
    (ha : entryPresent s.mem (dir + 4 * getPdIndex v.toNat) ≠ 0 ∨
      (pmmAllocFrame s).1 ≠ 0 ∧ (pmmAllocFrame s).1 ≠ pageTable dir 0 s.mem)
    (hne : translation dir (vmmMapPage dir v.toNat p.toNat flags.toNat s) 0
      ≠ mapTo (translation dir s) v p 0) : MapMisses dir v p flags s := by
  have hzero : ∀ i < 1024, entryPresent s.mem (dir + 4 * i) ≠ 0 → i = 0 := by
    intro i hi hp
    by_contra he
    rw [entryPresent, h i hi he] at hp
    exact hp rfl
  refine ⟨?_, ha.imp_right fun ha => ⟨ha.1, ?_⟩, fun he => hne (congrFun he 0)⟩
  · intro i hi i' hi' hp hp' _
    rw [hzero i hi hp, hzero i' hi' hp']
  · intro i hi hp
    rw [hzero i hi hp]
    exact ha.2

/-- Theorem `vmm_translation` for a page behind a new table. -/
theorem vmm_translation_boot :
    translation 0x110000 (vmmMapPage 0x110000 0x400000 0x300000 1 (physOf [(0x200000, 1)] 7679))
      = mapTo (translation 0x110000 (physOf [(0x200000, 1)] 7679)) 0x400000 0x300000 := by
  have habsent : ∀ i < 1024,
      ¬entryPresent (physOf [(0x200000, 1)] 7679).mem (0x110000 + 4 * i) ≠ 0 := by
    intro i hi hp
    rw [entryPresent, load32_physOf (by simp; omega)] at hp
    exact hp rfl
  have halloc : (pmmAllocFrame (physOf [(0x200000, 1)] 7679)).1 = 0x201000 := by decide +kernel
  refine ((vmm_translation (s := physOf [(0x200000, 1)] 7679)
    ⟨rfl, rfl, by decide⟩ ⟨?_, ?_⟩ ⟨by decide, ?_⟩ 0x400000 0x300000 1 (by decide)).1
    (Or.inr ⟨?_, ?_, ?_⟩)).1
  · exact fun i hi _ _ hp => absurd hp (habsent i hi)
  · exact fun i hi hp => absurd hp (habsent i hi)
  · exact fun i hi hp => absurd hp (habsent i hi)
  · rw [halloc]
    decide
  · exact fun i hi hp => absurd hp (habsent i hi)
  · rw [halloc]
    decide

/-- Where a table or the directory may not lie: the directory is its own table, a table lies
in the frame of the bitmap, the directory lies there, the directory is in the frame that is
taken. -/
theorem vmmMapPage_overlap :
    MapMisses 0x110000 0 0x300000 1 (physOf [(0x200000, 1), (0x110000, 0x110001)] 7679) ∧
    MapMisses 0x110000 0x400000 0x300000 1
      (physOf [(0x200000, 0xFFF), (0x110000, 0x200001)] 7668) ∧
    MapMisses 0x200000 0x400000 0x300000 1 (physOf [(0x200000, 0xFFF), (0x1000, 0x5001)] 7668) ∧
    MapMisses 0x201000 0x400000 0x300000 1
      (physOf [(0x200000, 1), (0x201000, 0x1001), (0x1000, 0x5001)] 7679) := by
  refine ⟨mapMisses_of_single ?_ (by decide +kernel) (by decide +kernel),
    mapMisses_of_single ?_ (by decide +kernel) (by decide +kernel),
    mapMisses_of_single ?_ (by decide +kernel) (by decide +kernel),
    mapMisses_of_single ?_ (by decide +kernel) (by decide +kernel)⟩
  all_goals
    intro i hi hne
    apply load32_physOf
    simp
    omega

end AceOS.Kernel
