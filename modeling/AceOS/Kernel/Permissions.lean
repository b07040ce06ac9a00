import AceOS.Kernel.Translation

/-!
# Who may touch a page

The processor grants an access to a page if the directory entry and the table entry both
allow it.  `vmm_map_page` sets the bits of the table entry at every call, but those of the
directory entry only when it takes the table, and that entry is shared by 1024 pages.
`DirectoryInv` is what a mapping keeps of a directory; `mapRun_permissions` says along which
runs every page has the permissions of its last mapping.
-/

namespace AceOS.Kernel

open Memory Bitmap AceOS.Libc

/-! ### Permissions -/

/-- The field `writable` of an entry of either kind. -/
def entryWritable (m : Mem) (entry : Nat) : Nat := getBits (load32 m entry) 1 1

def entryUser (m : Mem) (entry : Nat) : Nat := getBits (load32 m entry) 2 1

def UserAccess (dir virtualAddr : Nat) (m : Mem) : Prop :=
  entryUser m (dir + 4 * getPdIndex virtualAddr) ≠ 0 ∧ entryUser m (pageEntry dir virtualAddr m) ≠ 0

def WriteAccess (dir virtualAddr : Nat) (m : Mem) : Prop :=
  entryWritable m (dir + 4 * getPdIndex virtualAddr) ≠ 0 ∧
    entryWritable m (pageEntry dir virtualAddr m) ≠ 0

section Entries

variable {m : Mem} {e p w u a : Nat}

theorem entryUser_setEntry : entryUser (setEntry m e p w u a) e = u % 2 := by
  rw [entryUser, load32_setEntry, getBits_setBits_of_ge (by decide), getBits_setBits_self]
  rfl

theorem entryWritable_setEntry : entryWritable (setEntry m e p w u a) e = w % 2 := by
  rw [entryWritable, load32_setEntry, getBits_setBits_of_ge (by decide),
    getBits_setBits_of_ge (by decide), getBits_setBits_self]
  rfl

theorem takeTable_entryUser {s : Phys} {dir i flags : Nat} :
    entryUser (takeTable dir i flags s).mem (dir + 4 * i) = flagBit flags pageUser := by
  have hle := flagBit_le flags pageUser
  rw [takeTable, entryUser_setEntry]
  omega

theorem entryUser_mappedEntry {physicalAddr flags : Nat} :
    entryUser (mappedEntry m e physicalAddr flags) e = flagBit flags pageUser := by
  have hle := flagBit_le flags pageUser
  rw [mappedEntry, entryUser_setEntry]
  omega

theorem entryWritable_mappedEntry {physicalAddr flags : Nat} :
    entryWritable (mappedEntry m e physicalAddr flags) e = flagBit flags pageWritable := by
  have hle := flagBit_le flags pageWritable
  rw [mappedEntry, entryWritable_setEntry]
  omega

end Entries

/-! ### A directory in use -/

/-- The tables lie apart and outside the bitmap, they and the directory are not free, and
present entries are writable. -/
structure DirectoryInv (dir : Nat) (s : Phys) : Prop extends PmmInv s where
  used : FrameUsed s 0
  apart : TablesApart dir s.mem
  outside : OutsideBitmap dir s.mem
  directory : ∀ j ∈ freeFrameSet s, frameAddress j + 4096 ≤ dir ∨ dir + 4096 ≤ frameAddress j
  tables : ∀ j ∈ freeFrameSet s, ∀ i < 1024, entryPresent s.mem (dir + 4 * i) ≠ 0 →
    frameAddress j ≠ pageTable dir i s.mem
  writable : ∀ i < 1024, entryPresent s.mem (dir + 4 * i) ≠ 0 →
    entryWritable s.mem (dir + 4 * i) = 1

/-- A directory without a present entry, in memory that is not free. -/
structure EmptyDirectory (dir : Nat) (s : Phys) : Prop extends PmmInv s where
  used : FrameUsed s 0
  outside : dir + 4096 ≤ memoryStart ∨ memoryStart + 4096 ≤ dir
  directory : ∀ j ∈ freeFrameSet s, frameAddress j + 4096 ≤ dir ∨ dir + 4096 ≤ frameAddress j
  empty : ∀ i < 1024, entryPresent s.mem (dir + 4 * i) = 0

variable {s : Phys} {dir i j x : Nat} {v p flags : UInt32}

theorem EmptyDirectory.inv (h : EmptyDirectory dir s) : DirectoryInv dir s where
  toPmmInv := h.toPmmInv
  used := h.used
  apart := ⟨fun i hi _ _ hp => absurd (h.empty i hi) hp, fun i hi hp => absurd (h.empty i hi) hp⟩
  outside := ⟨h.outside, fun i hi hp => absurd (h.empty i hi) hp⟩
  directory := h.directory
  tables := fun _ _ i hi hp => absurd (h.empty i hi) hp
  writable := fun i hi hp => absurd (h.empty i hi) hp

theorem DirectoryInv.alloc (h : DirectoryInv dir s) (hfree : freeFrameSet s ≠ ∅) :
    ∃ j ∈ freeFrameSet s, 0 < j ∧ j < 7680 ∧ (pmmAllocFrame s).1 = frameAddress j ∧
      PmmInv (pmmAllocFrame s).2 ∧ (pmmAllocFrame s).2.mem = setBit s.mem memoryStart j ∧
      freeFrameSet (pmmAllocFrame s).2 = (freeFrameSet s).erase j := by
  rcases pmmAllocFrame_spec h.toPmmInv with ⟨he, -⟩ | ⟨j, hj, ha, hinv, hmem, hset⟩
  · exact absurd he hfree
  have hj' := Finset.mem_coe.mp hj.1
  obtain ⟨hlt, hnot⟩ := mem_freeFrameSet.mp hj'
  rw [h.total] at hlt
  refine ⟨j, hj', ?_, hlt, ha, hinv, hmem, hset⟩
  apply Nat.pos_of_ne_zero
  intro h0
  exact hnot (h0 ▸ h.used)

theorem DirectoryInv.getsTable (h : DirectoryInv dir s) (hfree : freeFrameSet s ≠ ∅) :
    GetsTable dir s := by
  obtain ⟨j, hj, -, -, ha, -⟩ := h.alloc hfree
  refine ⟨?_, ?_, ?_⟩
  · rw [ha]
    simp only [frameAddress, memoryStart]
    omega
  · rw [ha]
    exact h.tables j hj
  · rw [ha]
    exact h.directory j hj

theorem DirectoryInv.congr (h : DirectoryInv dir s) (s' : Phys) (hpmm : s'.pmm = s.pmm)
    (hmem : ∀ x, InBitmap x → s'.mem x = s.mem x)
    (hdir : ∀ i < 1024, load32 s'.mem (dir + 4 * i) = load32 s.mem (dir + 4 * i)) :
    DirectoryInv dir s' := by
  obtain ⟨hinv, hset, hused⟩ := h.toPmmInv.congr s' hpmm fun x h₁ h₂ => hmem x ⟨h₁, h₂⟩
  have hpresent : ∀ i < 1024,
      entryPresent s'.mem (dir + 4 * i) = entryPresent s.mem (dir + 4 * i) := by
    intro i hi
    rw [entryPresent, hdir i hi]
    rfl
  refine ⟨hinv, (hused 0 (by decide)).mpr h.used, h.apart.congr hdir, ⟨h.outside.directory, ?_⟩,
    ?_, ?_, ?_⟩
  · intro i hi hp
    rw [hpresent i hi] at hp
    rw [pageTable_congr (hdir i hi)]
    exact h.outside.table i hi hp
  · rw [hset]
    exact h.directory
  · rw [hset]
    intro j hj i hi hp
    rw [hpresent i hi] at hp
    rw [pageTable_congr (hdir i hi)]
    exact h.tables j hj i hi hp
  · intro i hi hp
    rw [hpresent i hi] at hp
    rw [entryWritable, hdir i hi]
    exact h.writable i hi hp

/-- **With a table**: the directory stays, and the entry of the page gets the flags. -/
theorem DirectoryInv.map_of_present (h : DirectoryInv dir s) (p flags : Nat)
    (hp : entryPresent s.mem (dir + 4 * getPdIndex v.toNat) ≠ 0) :
    DirectoryInv dir (vmmMapPage dir v.toNat p flags s) ∧
      ∀ i < 1024, load32 (vmmMapPage dir v.toNat p flags s).mem (dir + 4 * i)
        = load32 s.mem (dir + 4 * i) := by
  have hdir : ∀ i < 1024, load32 (vmmMapPage dir v.toNat p flags s).mem (dir + 4 * i)
      = load32 s.mem (dir + 4 * i) := by
    intro i hi
    rw [vmmMapPage_of_present p flags hp]
    exact h.apart.load32_dir hp (fun x hx _ _ => mappedEntry_of_disjoint hx) hi
  refine ⟨h.congr _ (by rw [vmmMapPage_of_present p flags hp]) ?_ hdir, hdir⟩
  intro x hx
  rw [vmmMapPage_of_present p flags hp]
  apply mappedEntry_of_disjoint
  by_contra hin
  exact h.outside.entry hp (by omega) (by omega) hx

theorem DirectoryInv.takeTable (h : DirectoryInv dir s) (flags : Nat) (hfree : freeFrameSet s ≠ ∅) :
    DirectoryInv dir (takeTable dir (getPdIndex v.toNat) flags s) := by
  have hi := getPdIndex_lt v
  have hg := h.getsTable hfree
  have ht := takeTable_taken (v := v) h.placed h.apart h.outside hg flags
  have hwritable : entryWritable (Kernel.takeTable dir (getPdIndex v.toNat) flags s).mem
      (dir + 4 * getPdIndex v.toNat) = 1 := by
    rw [Kernel.takeTable]
    exact entryWritable_setEntry
  have hapart := ht.apart h.apart hg
  obtain ⟨j, hj, hj0, hlt, ha, hinv, hmem, hset⟩ := h.alloc hfree
  have hbitmap := h.outside.directory
  obtain ⟨hinv', hset', hused⟩ := hinv.congr (Kernel.takeTable dir (getPdIndex v.toNat) flags s) rfl
    (by
      intro x h₁ h₂
      refine takeTable_of_outside _ _ _ ha ?_ (by omega)
      simp only [frameAddress, memoryStart, pageSize] at *
      omega)
  rw [hset] at hset'
  generalize Kernel.takeTable dir (getPdIndex v.toNat) flags s = s' at *
  refine ⟨hinv', ?_, hapart, ⟨hbitmap, ?_⟩, ?_, ?_, ?_⟩
  · refine h.toPmmInv.frameUsed_mono hinv' (by decide) ?_ h.used
    rw [hset']
    exact Finset.erase_subset ..
  · intro i hi hp
    by_cases he : i = getPdIndex v.toNat
    · rw [he, ht.table, ha]
      simp only [frameAddress, memoryStart, pageSize]
      omega
    · obtain ⟨hp, hpt⟩ := ht.old hi he hp
      rw [hpt]
      exact h.outside.table i hi hp
  · intro k hk
    rw [hset'] at hk
    exact h.directory k (Finset.mem_of_mem_erase hk)
  · intro k hk i hi hp
    rw [hset'] at hk
    by_cases he : i = getPdIndex v.toNat
    · rw [he, ht.table, ha]
      exact fun heq => Finset.ne_of_mem_erase hk (frameAddress_inj.mp heq)
    · obtain ⟨hp, hpt⟩ := ht.old hi he hp
      rw [hpt]
      exact h.tables k (Finset.mem_of_mem_erase hk) i hi hp
  · intro i hi hp
    by_cases he : i = getPdIndex v.toNat
    · rw [he]
      exact hwritable
    · obtain ⟨hp, -⟩ := ht.old hi he hp
      rw [entryWritable, ht.entries i hi he]
      exact h.writable i hi hp

/-! ### Runs -/

/-- A call of `vmm_map_page`, with any 32-bit arguments. -/
structure MapCall where
  virtualAddr : UInt32
  physicalAddr : UInt32
  flags : UInt32
  deriving DecidableEq, Repr

/-- The memory, and the flags of the last mapping of every page. -/
structure Mapped where
  phys : Phys
  latest : Nat → Option UInt32

def mapStep (dir : Nat) (c : MapCall) (s : Mapped) : Option (Unit × Mapped) :=
  some ((),
    { phys := vmmMapPage dir c.virtualAddr.toNat c.physicalAddr.toNat c.flags.toNat s.phys
      latest := Function.update s.latest (c.virtualAddr.toNat / pageSize) (some c.flags) })

/-- The call has `PAGE_PRESENT`, and a frame is there if it needs a table. -/
def MapIssued (dir : Nat) (c : MapCall) (s : Mapped) : Prop :=
  c.flags.toNat &&& pagePresent ≠ 0 ∧
  (entryPresent s.phys.mem (dir + 4 * getPdIndex c.virtualAddr.toNat) = 0 →
    freeFrameSet s.phys ≠ ∅)

def PermissionsFollow (dir : Nat) (s : Mapped) : Prop :=
  ∀ v flags : UInt32, s.latest (v.toNat / pageSize) = some flags →
    (UserAccess dir v.toNat s.phys.mem ↔ flags.toNat &&& pageUser ≠ 0) ∧
    (WriteAccess dir v.toNat s.phys.mem ↔ flags.toNat &&& pageWritable ≠ 0)

/-- A user page is not mapped behind an entry that was taken for a kernel page. -/
def UserShared (dir : Nat) (c : MapCall) (s : Mapped) : Prop :=
  c.flags.toNat &&& pageUser ≠ 0 →
    entryPresent s.phys.mem (dir + 4 * getPdIndex c.virtualAddr.toNat) = 0 ∨
    entryUser s.phys.mem (dir + 4 * getPdIndex c.virtualAddr.toNat) ≠ 0

/-- The directory, and in the table entries the flags of the last mapping of every page. -/
structure MappedInv (dir : Nat) (s : Mapped) : Prop extends DirectoryInv dir s.phys where
  latest : ∀ v flags : UInt32, s.latest (v.toNat / pageSize) = some flags →
    entryPresent s.phys.mem (dir + 4 * getPdIndex v.toNat) ≠ 0 ∧
    entryUser s.phys.mem (pageEntry dir v.toNat s.phys.mem) = flagBit flags.toNat pageUser ∧
    entryWritable s.phys.mem (pageEntry dir v.toNat s.phys.mem) = flagBit flags.toNat pageWritable

section Step

variable {s : Mapped} {c : MapCall}

/-- What is left to the directory entries: the user bit, where the last mapping has it. -/
theorem MappedInv.permissions_iff (h : MappedInv dir s) : PermissionsFollow dir s ↔
    ∀ v flags : UInt32, s.latest (v.toNat / pageSize) = some flags →
      flags.toNat &&& pageUser ≠ 0 → entryUser s.phys.mem (dir + 4 * getPdIndex v.toNat) ≠ 0 := by
  constructor
  · intro hall v flags hl hu
    exact (((hall v flags hl).1).mpr hu).1
  · intro hall v flags hl
    obtain ⟨hp, huser, hwrite⟩ := h.latest v flags hl
    have hw := h.writable _ (getPdIndex_lt v) hp
    rw [UserAccess, WriteAccess, huser, hwrite, hw]
    simp only [ne_eq, flagBit_eq_zero]
    refine ⟨⟨fun hboth => hboth.2, fun hu => ⟨hall v flags hl hu, hu⟩⟩, ?_⟩
    exact ⟨fun hboth => hboth.2, fun hw => ⟨by decide, hw⟩⟩

/-- **With a table**, the entry of one page is set. -/
theorem MappedInv.map_of_present (h : MappedInv dir s) {phys : Phys}
    (hphys : phys = vmmMapPage dir c.virtualAddr.toNat c.physicalAddr.toNat c.flags.toNat s.phys)
    (hp : entryPresent s.phys.mem (dir + 4 * getPdIndex c.virtualAddr.toNat) ≠ 0) :
    MappedInv dir
      ⟨phys, Function.update s.latest (c.virtualAddr.toNat / pageSize) (some c.flags)⟩ := by
  obtain ⟨hinv, hdir⟩ := h.toDirectoryInv.map_of_present c.physicalAddr.toNat c.flags.toNat hp
  have hmem := congrArg Phys.mem
    (vmmMapPage_of_present (s := s.phys) c.physicalAddr.toNat c.flags.toNat hp)
  rw [← hphys] at hinv hdir hmem
  refine ⟨hinv, ?_⟩
  intro v flags hl
  dsimp only at hl ⊢
  have hi := getPdIndex_lt v
  have hentry : pageEntry dir v.toNat phys.mem = pageEntry dir v.toNat s.phys.mem := by
    rw [pageEntry_eq, pageTable_congr (hdir _ hi), ← pageEntry_eq]
  rw [entryPresent, hdir _ hi, hentry]
  by_cases hv : SamePage v c.virtualAddr
  · rw [SamePage] at hv
    rw [hv, Function.update_self, Option.some.injEq] at hl
    rw [(show SamePage v c.virtualAddr from hv).pageEntry_eq,
      (show SamePage v c.virtualAddr from hv).index.1, hmem, ← hl]
    exact ⟨hp, entryUser_mappedEntry, entryWritable_mappedEntry⟩
  · rw [Function.update_of_ne hv] at hl
    obtain ⟨hpv, huser, hwrite⟩ := h.latest v flags hl
    have hne := h.apart.pageEntry_ne hi (getPdIndex_lt c.virtualAddr) hpv hp hv
    have hword : load32 phys.mem (pageEntry dir v.toNat s.phys.mem)
        = load32 s.phys.mem (pageEntry dir v.toNat s.phys.mem) := by
      rw [hmem]
      apply load32_congr
      intro x h₁ h₂
      exact mappedEntry_of_disjoint (by omega)
    rw [entryUser, entryWritable, hword]
    exact ⟨hpv, huser, hwrite⟩

theorem MappedInv.takeTable (h : MappedInv dir s) (flags : Nat) (hfree : freeFrameSet s.phys ≠ ∅)
    (hp : entryPresent s.phys.mem (dir + 4 * getPdIndex v.toNat) = 0) :
    MappedInv dir ⟨takeTable dir (getPdIndex v.toNat) flags s.phys, s.latest⟩ ∧
      ∀ a flags' : UInt32, s.latest (a.toNat / pageSize) = some flags' →
        getPdIndex a.toNat ≠ getPdIndex v.toNat := by
  have hne : ∀ a flags' : UInt32, s.latest (a.toNat / pageSize) = some flags' →
      getPdIndex a.toNat ≠ getPdIndex v.toNat := by
    intro a flags' hl he
    rw [← he] at hp
    exact (h.latest a flags' hl).1 hp
  refine ⟨⟨h.toDirectoryInv.takeTable flags hfree, ?_⟩, hne⟩
  intro a flags' hl
  have ht := takeTable_taken (v := v) h.placed h.apart h.outside
    (h.toDirectoryInv.getsTable hfree) flags
  have hi := getPdIndex_lt a
  have hword := ht.entries _ hi (hne a flags' hl)
  obtain ⟨hpa, huser, hwrite⟩ := h.latest a flags' hl
  have hentry : pageEntry dir a.toNat (Kernel.takeTable dir (getPdIndex v.toNat) flags s.phys).mem
      = pageEntry dir a.toNat s.phys.mem := by
    rw [pageEntry_eq, pageTable_congr hword, ← pageEntry_eq]
  have hpage := ht.tables _ hi hpa _ (getPtIndex_lt a.toNat)
  rw [← pageEntry_eq] at hpage
  dsimp only
  rw [entryPresent, hword, hentry, entryUser, entryWritable, hpage]
  exact ⟨hpa, huser, hwrite⟩

theorem MappedInv.permissions_of_present (h : MappedInv dir s) {phys : Phys}
    (hphys : phys = vmmMapPage dir c.virtualAddr.toNat c.physicalAddr.toNat c.flags.toNat s.phys)
    (hp : entryPresent s.phys.mem (dir + 4 * getPdIndex c.virtualAddr.toNat) ≠ 0)
    (hfollow : PermissionsFollow dir s) :
    PermissionsFollow dir
        ⟨phys, Function.update s.latest (c.virtualAddr.toNat / pageSize) (some c.flags)⟩ ↔
      (c.flags.toNat &&& pageUser ≠ 0 →
        entryUser s.phys.mem (dir + 4 * getPdIndex c.virtualAddr.toNat) ≠ 0) := by
  obtain ⟨-, hdir⟩ := h.toDirectoryInv.map_of_present c.physicalAddr.toNat c.flags.toNat hp
  rw [← hphys] at hdir
  have huser : ∀ v : UInt32, entryUser phys.mem (dir + 4 * getPdIndex v.toNat)
      = entryUser s.phys.mem (dir + 4 * getPdIndex v.toNat) := by
    intro v
    rw [entryUser, hdir _ (getPdIndex_lt v)]
    rfl
  rw [(h.map_of_present hphys hp).permissions_iff]
  dsimp only
  constructor
  · intro hall hu
    rw [← huser]
    exact hall c.virtualAddr c.flags (Function.update_self ..) hu
  · intro hok v flags hl hu
    rw [huser]
    by_cases hv : SamePage v c.virtualAddr
    · rw [hv.index.1]
      rw [SamePage] at hv
      rw [hv, Function.update_self, Option.some.injEq] at hl
      exact hok (hl ▸ hu)
    · rw [Function.update_of_ne hv] at hl
      exact h.permissions_iff.mp hfollow v flags hl hu

/-- **One step** keeps the permissions right if and only if a user page finds a user entry. -/
theorem mapStep_inv (h : MappedInv dir s) (hc : MapIssued dir c s) :
    ∃ o s', mapStep dir c s = some (o, s') ∧ MappedInv dir s' ∧
      (PermissionsFollow dir s → (PermissionsFollow dir s' ↔ UserShared dir c s)) := by
  refine ⟨(), _, rfl, ?_⟩
  obtain ⟨-, hframe⟩ := hc
  by_cases hp : entryPresent s.phys.mem (dir + 4 * getPdIndex c.virtualAddr.toNat) = 0
  · -- the table is taken first, with the flags of the call
    have hfree := hframe hp
    obtain ⟨htake, hne⟩ := h.takeTable c.flags.toNat hfree hp
    have hg := h.toDirectoryInv.getsTable hfree
    have ht := takeTable_taken (v := c.virtualAddr) h.placed h.apart h.outside hg c.flags.toNat
    have hmap : vmmMapPage dir c.virtualAddr.toNat c.physicalAddr.toNat c.flags.toNat s.phys = _ :=
      vmmMapPage_of_absent hp hg.some
    refine ⟨htake.map_of_present hmap ht.present, ?_⟩
    intro hfollow
    refine iff_of_true ?_ fun _ => Or.inl hp
    refine (htake.permissions_of_present hmap ht.present ?_).mpr ?_
    · rw [htake.permissions_iff]
      intro v flags hl hu
      dsimp only at hl ⊢
      rw [entryUser, ht.entries _ (getPdIndex_lt v) (hne v flags hl)]
      exact h.permissions_iff.mp hfollow v flags hl hu
    · intro hu
      dsimp only
      rw [takeTable_entryUser]
      exact fun hzero => hu (flagBit_eq_zero.mp hzero)
  · refine ⟨h.map_of_present rfl hp, ?_⟩
    intro hfollow
    rw [h.permissions_of_present rfl hp hfollow]
    exact imp_congr_right fun _ => (or_iff_right hp).symm

end Step

/-- **Every page has the permissions of its last mapping, all along a run, if and only if no
user page is mapped behind an entry that was taken for a kernel page.** -/
theorem mapRun_permissions (h : EmptyDirectory dir s) {calls : List MapCall}
    (hcalls : Machine.Meets (mapStep dir) (MapIssued dir) calls ⟨s, fun _ => none⟩) :
    (∀ n os t, Machine.run (mapStep dir) (calls.take n) ⟨s, fun _ => none⟩ = some (os, t) →
      PermissionsFollow dir t) ↔
    Machine.Meets (mapStep dir) (UserShared dir) calls ⟨s, fun _ => none⟩ := by
  have hinv : MappedInv dir ⟨s, fun _ => none⟩ := ⟨h.inv, fun v flags hl => by cases hl⟩
  refine Machine.meets_iff_inv (J := MappedInv dir) (A := MapIssued dir)
    (fun c s hs hc => mapStep_inv hs hc) hinv hcalls ?_
  intro v flags hl
  cases hl

theorem emptyDirectory_boot (m : Mem) (hdir : dir + 4096 ≤ memoryStart) :
    EmptyDirectory dir { pmmInit m with mem := memset (pmmInit m).mem dir 0 4096 } ∧
      freeFrameSet { pmmInit m with mem := memset (pmmInit m).mem dir 0 4096 } ≠ ∅ := by
  obtain ⟨hpmm, hset⟩ := pmmInit_spec m
  obtain ⟨hinv, hset'⟩ := vmmInit_clear hpmm hdir hset
  refine ⟨⟨hinv.toPmmInv, hinv.used, Or.inl hdir, ?_, hinv.entry⟩, ?_⟩
  · intro j _
    right
    simp only [frameAddress]
    omega
  · rw [hset']
    exact Finset.Nonempty.ne_empty ⟨1, by simp⟩

theorem mapStep_boot (m : Mem) (hdir : dir + 4096 ≤ memoryStart) (c : MapCall)
    (hc : c.flags.toNat &&& pagePresent ≠ 0) :
    ∃ o s', mapStep dir c
        ⟨{ pmmInit m with mem := memset (pmmInit m).mem dir 0 4096 }, fun _ => none⟩
          = some (o, s') ∧
      MapIssued dir c
        ⟨{ pmmInit m with mem := memset (pmmInit m).mem dir 0 4096 }, fun _ => none⟩ ∧
      MappedInv dir s' ∧ PermissionsFollow dir s' ∧
      entryPresent s'.phys.mem (dir + 4 * getPdIndex c.virtualAddr.toNat) ≠ 0 ∧
      entryUser s'.phys.mem (dir + 4 * getPdIndex c.virtualAddr.toNat)
        = flagBit c.flags.toNat pageUser := by
  obtain ⟨h, hfree⟩ := emptyDirectory_boot m hdir
  generalize { pmmInit m with mem := memset (pmmInit m).mem dir 0 4096 } = s at *
  have hinv : MappedInv dir ⟨s, fun _ => none⟩ := ⟨h.inv, fun v flags hl => by cases hl⟩
  have hp := h.empty _ (getPdIndex_lt c.virtualAddr)
  have hissued : MapIssued dir c ⟨s, fun _ => none⟩ := ⟨hc, fun _ => hfree⟩
  obtain ⟨o, s', hs', hinv', hfollow⟩ := mapStep_inv hinv hissued
  have hok := (hfollow fun v flags hl => by cases hl).mpr fun _ => Or.inl hp
  refine ⟨o, s', hs', hissued, hinv', hok, ?_, ?_⟩
  · refine (hinv'.latest c.virtualAddr c.flags ?_).1
    rw [mapStep, Option.some.injEq, Prod.mk.injEq] at hs'
    rw [← hs'.2]
    exact Function.update_self ..
  · have hg := h.inv.getsTable hfree
    have ht := takeTable_taken (v := c.virtualAddr) h.placed h.inv.apart h.inv.outside hg
      c.flags.toNat
    obtain ⟨-, hdir⟩ := (h.inv.takeTable (v := c.virtualAddr) c.flags.toNat hfree).map_of_present
      c.physicalAddr.toNat c.flags.toNat ht.present
    rw [mapStep, Option.some.injEq, Prod.mk.injEq] at hs'
    rw [← hs'.2]
    dsimp only
    rw [vmmMapPage_of_absent hp hg.some, entryUser, hdir _ (getPdIndex_lt c.virtualAddr)]
    exact takeTable_entryUser

theorem mapRun_permissions_user : ∃ os t, Machine.run (mapStep 0x110000)
      [⟨0x400000, 0x300000, 7⟩, ⟨0x401000, 0x301000, 5⟩]
      ⟨{ pmmInit ⟨fun _ => 0⟩ with mem := memset (pmmInit ⟨fun _ => 0⟩).mem 0x110000 0 4096 },
        fun _ => none⟩ = some (os, t) ∧
    PermissionsFollow 0x110000 t := by
  have hdir : 0x110000 + 4096 ≤ memoryStart := by decide
  obtain ⟨o, s, hs, hissued, -, -, hp, hu⟩ :=
    mapStep_boot ⟨fun _ => 0⟩ hdir ⟨0x400000, 0x300000, 7⟩ (by decide)
  have hcalls : Machine.Meets (mapStep 0x110000) (MapIssued 0x110000)
      [⟨0x400000, 0x300000, 7⟩, ⟨0x401000, 0x301000, 5⟩]
      ⟨{ pmmInit ⟨fun _ => 0⟩ with mem := memset (pmmInit ⟨fun _ => 0⟩).mem 0x110000 0 4096 },
        fun _ => none⟩ := by
    rw [Machine.meets_cons_of_step hs]
    exact ⟨hissued, ⟨by decide, fun hzero => absurd hzero hp⟩, fun _ _ _ => trivial⟩
  have hempty := (emptyDirectory_boot ⟨fun _ => 0⟩ hdir).1
  refine ⟨_, _, rfl, (mapRun_permissions hempty hcalls).mpr ?_ 2 _ _ rfl⟩
  rw [Machine.meets_cons_of_step hs]
  refine ⟨fun _ => Or.inl ?_, fun _ => Or.inr ?_, fun _ _ _ => trivial⟩
  · exact hempty.empty _ (getPdIndex_lt _)
  · exact fun hzero => absurd (hu.symm.trans hzero) (by decide)

/-- A kernel page first, then a user page of the same region: the user has no access. -/
theorem mapRun_denied : ∃ os t, Machine.run (mapStep 0x110000)
      [⟨0x400000, 0x300000, 3⟩, ⟨0x401000, 0x301000, 7⟩]
      ⟨{ pmmInit ⟨fun _ => 0⟩ with mem := memset (pmmInit ⟨fun _ => 0⟩).mem 0x110000 0 4096 },
        fun _ => none⟩ = some (os, t) ∧
    ¬PermissionsFollow 0x110000 t := by
  have hdir : 0x110000 + 4096 ≤ memoryStart := by decide
  obtain ⟨o, s, hs, -, hinv, hfollow, hp, hu⟩ :=
    mapStep_boot ⟨fun _ => 0⟩ hdir ⟨0x400000, 0x300000, 3⟩ (by decide)
  obtain ⟨o', t, ht, -, hiff⟩ := mapStep_inv (c := ⟨0x401000, 0x301000, 7⟩) hinv
    ⟨by decide, fun hzero => absurd hzero hp⟩
  refine ⟨[o, o'], t, Machine.run_cons_some.mpr ⟨o, s, [o'], hs, ?_, rfl⟩, ?_⟩
  · exact Machine.run_cons_some.mpr ⟨o', t, [], ht, rfl, rfl⟩
  · intro hafter
    rcases (hiff hfollow).mp hafter (by decide) with hzero | hne
    · exact hp hzero
    · exact hne hu

end AceOS.Kernel
