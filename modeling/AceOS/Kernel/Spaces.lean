import AceOS.Kernel.Tables

/-!
# The kernel half of the address spaces

`vmm_create_page_directory` copies the upper entries of the kernel's directory.  The tables
behind them are then shared, the entries are not: a table that the kernel takes later is
missing from the directories that exist.  `SpacesInv` says that an entry of a directory is
the kernel's, or is missing while the kernel has no page behind its own, and
`SpacesInv.map_iff` when a mapping keeps the translations equal.
-/

namespace AceOS.Kernel

open Memory Bitmap AceOS.Libc

structure Spaces where
  phys : Phys
  directories : List Nat

def KernelHalfShared (kernelPageDirectory : Nat) (s : Spaces) : Prop :=
  ∀ d ∈ s.directories, ∀ virtualAddr : UInt32, kernelVirtualBase ≤ virtualAddr.toNat →
    vmmGetPhysicalAddress d virtualAddr.toNat s.phys
      = vmmGetPhysicalAddress kernelPageDirectory virtualAddr.toNat s.phys

/-- Entry `i` of a directory is the kernel's, or it is missing and the kernel has no page
behind its own. -/
def EntryShared (kernelPageDirectory d i : Nat) (table : Option Nat) (m : Mem) : Prop :=
  load32 m (d + 4 * i) = load32 m (kernelPageDirectory + 4 * i) ∨
    (entryPresent m (d + 4 * i) = 0 ∧
      ∀ j, table = some j → ∀ p < 1024, entryPresent m (frameAddress j + 4 * p) = 0)

/-- The tables of the kernel's directory are apart, the created directories lie in other
frames in use, and their upper entries are shared. -/
structure SpacesInv (kernelPageDirectory : Nat) (tables : Nat → Option Nat) (s : Spaces) : Prop
    extends TablesInv kernelPageDirectory tables s.phys where
  apart : ∀ i < 1024, ∀ i' < 1024, ∀ j, tables i = some j → tables i' = some j → i = i'
  frame : ∀ d ∈ s.directories, ∃ j, 0 < j ∧ j < 7680 ∧ d = frameAddress j ∧ FrameUsed s.phys j ∧
    ∀ i < 1024, tables i ≠ some j
  shared : ∀ d ∈ s.directories, ∀ i, 768 ≤ i → i < 1024 →
    EntryShared kernelPageDirectory d i (tables i) s.phys.mem

variable {s : Spaces} {phys phys' : Phys} {k d i j p x : Nat} {tables : Nat → Option Nat}
  {virtualAddr physicalAddr flags : Nat}

/-! ### Translation -/

theorem vmmGetPhysicalAddress_congr {d' : Nat}
    (h : load32 phys.mem (d + 4 * getPdIndex virtualAddr)
      = load32 phys.mem (d' + 4 * getPdIndex virtualAddr)) :
    vmmGetPhysicalAddress d virtualAddr phys = vmmGetPhysicalAddress d' virtualAddr phys := by
  have hp : entryPresent phys.mem (d + 4 * getPdIndex virtualAddr)
      = entryPresent phys.mem (d' + 4 * getPdIndex virtualAddr) :=
    congrArg (fun w => getBits w 0 1) h
  have ha : entryAddress phys.mem (d + 4 * getPdIndex virtualAddr)
      = entryAddress phys.mem (d' + 4 * getPdIndex virtualAddr) :=
    congrArg (fun w => getBits w 12 20) h
  rw [vmmGetPhysicalAddress, vmmGetPhysicalAddress]
  dsimp only
  rw [hp, ha]

theorem vmmGetPhysicalAddress_of_absent
    (h : entryPresent phys.mem (d + 4 * getPdIndex virtualAddr) = 0) :
    vmmGetPhysicalAddress d virtualAddr phys = 0 := by
  rw [vmmGetPhysicalAddress]
  exact if_pos h

theorem vmmGetPhysicalAddress_of_some
    (he : EntryIs phys.mem d (getPdIndex virtualAddr) (some j)) :
    vmmGetPhysicalAddress d virtualAddr phys =
      if entryPresent phys.mem (frameAddress j + 4 * getPtIndex virtualAddr) = 0 then 0
      else entryAddress phys.mem (frameAddress j + 4 * getPtIndex virtualAddr) * 4096
        ||| virtualAddr % 4096 := by
  rw [vmmGetPhysicalAddress]
  dsimp only
  rw [if_neg (by rw [he.1]; decide), he.2.1]

theorem getPdIndex_ge (hv : kernelVirtualBase ≤ virtualAddr) : 768 ≤ getPdIndex virtualAddr := by
  simp only [kernelVirtualBase, getPdIndex] at *
  omega

/-- **The invariant gives the shared half.** -/
theorem SpacesInv.kernelHalf (h : SpacesInv k tables s) : KernelHalfShared k s := by
  intro d hd virtualAddr hv
  have hi := getPdIndex_lt virtualAddr
  rcases h.shared d hd _ (getPdIndex_ge hv) hi with heq | ⟨habsent, hpages⟩
  · exact vmmGetPhysicalAddress_congr heq
  · rw [vmmGetPhysicalAddress_of_absent habsent]
    have he := h.entry _ hi
    cases ht : tables (getPdIndex virtualAddr.toNat) with
    | none =>
        rw [ht] at he
        rw [vmmGetPhysicalAddress_of_absent he]
    | some j =>
        rw [ht] at he
        rw [vmmGetPhysicalAddress_of_some he, if_pos (hpages j ht _ (getPtIndex_lt _))]

/-! ### Writing in one frame -/

section Frame

variable {m m' : Mem} {l : Nat}

theorem load32_frame (hl : 0 < l) (hlj : l ≠ j) (hp : p < 1024)
    (hmem : ∀ x, memoryStart + 4096 ≤ x → (x < frameAddress j ∨ frameAddress j + 4096 ≤ x) →
      m' x = m x) :
    load32 m' (frameAddress l + 4 * p) = load32 m (frameAddress l + 4 * p) := by
  apply load32_congr
  intro x h₁ h₂
  apply hmem x
  · simp only [frameAddress, memoryStart, pageSize] at *
    omega
  · simp only [frameAddress, memoryStart, pageSize] at *
    omega

theorem EntryShared.frame {table : Option Nat} (h : EntryShared k (frameAddress l) i table m)
    (hl : 0 < l) (hlj : l ≠ j) (hi : i < 1024)
    (hk : load32 m' (k + 4 * i) = load32 m (k + 4 * i))
    (htable : ∀ t, table = some t → 0 < t ∧ t ≠ j)
    (hmem : ∀ x, memoryStart + 4096 ≤ x → (x < frameAddress j ∨ frameAddress j + 4096 ≤ x) →
      m' x = m x) : EntryShared k (frameAddress l) i table m' := by
  rw [EntryShared, entryPresent, hk, load32_frame hl hlj hi hmem]
  refine h.imp_right ?_
  rintro ⟨habsent, hpages⟩
  refine ⟨habsent, ?_⟩
  intro t ht p hp
  obtain ⟨ht0, htj⟩ := htable t ht
  rw [entryPresent, load32_frame ht0 htj hp hmem]
  exact hpages t ht p hp

end Frame

/-- Outside the bitmap only the entry of page `p` behind entry `i` changes; if it becomes
present then no directory lacks the table. -/
theorem SpacesInv.setPage (h : SpacesInv k tables s) (hi : i < 1024) (ht : tables i = some j)
    (hp : p < 1024) (htables : TablesInv k tables phys')
    (hused : ∀ d ∈ s.directories, ∀ j, d = frameAddress j → FrameUsed phys' j)
    (hmem : ∀ x, ¬InBitmap x → (x < frameAddress j + 4 * p ∨ frameAddress j + 4 * p + 4 ≤ x) →
      phys'.mem x = s.phys.mem x)
    (hpage : 768 ≤ i → entryPresent phys'.mem (frameAddress j + 4 * p) ≠ 0 →
      ∀ d ∈ s.directories, entryPresent s.phys.mem (d + 4 * i) ≠ 0) :
    SpacesInv k tables ⟨phys', s.directories⟩ := by
  have hbelow := h.below
  obtain ⟨hj0, hj⟩ := h.lt hi ht
  refine ⟨htables, h.apart, ?_, ?_⟩
  · intro d hd
    obtain ⟨l, hl0, hl, rfl, -, hne⟩ := h.frame d hd
    exact ⟨l, hl0, hl, rfl, hused _ hd l rfl, hne⟩
  · intro d hd i' hi₁ hi₂
    obtain ⟨l, hl0, hl, rfl, -, hne⟩ := h.frame d hd
    have hlj : l ≠ j := fun he => hne i hi (he ▸ ht)
    have hframe : ∀ x, memoryStart + 4096 ≤ x →
        (x < frameAddress j ∨ frameAddress j + 4096 ≤ x) → phys'.mem x = s.phys.mem x := by
      intro x hx hout
      exact hmem x (by omega) (by omega)
    have hk' : load32 phys'.mem (k + 4 * i') = load32 s.phys.mem (k + 4 * i') := by
      apply load32_congr
      intro x h₁ h₂
      apply hmem x
      · simp only [InBitmap, memoryStart] at *
        omega
      · simp only [frameAddress, memoryStart] at *
        omega
    by_cases hii : i' = i
    · subst hii
      rcases h.shared _ hd i' hi₁ hi₂ with heq | ⟨habsent, hpages⟩
      · left
        rw [hk', load32_frame hl0 hlj hi hframe, heq]
      · right
        rw [entryPresent, load32_frame hl0 hlj hi hframe]
        refine ⟨habsent, ?_⟩
        intro j' hj' p' hp'
        have hjj : j' = j := Option.some.inj (hj'.symm.trans ht)
        subst hjj
        by_cases hpp : p' = p
        · subst hpp
          by_contra hpresent
          exact hpage hi₁ hpresent _ hd habsent
        · rw [entryPresent, load32_congr]
          · exact hpages j' hj' p' hp'
          · intro x h₁ h₂
            apply hmem x
            · simp only [InBitmap, frameAddress, memoryStart, pageSize] at *
              omega
            · omega
    · refine (h.shared _ hd i' hi₁ hi₂).frame hl0 hlj hi₂ hk' ?_ hframe
      intro t ht'
      exact ⟨(h.lt hi₂ ht').1, fun he => hii (h.apart i' hi₂ i hi t ht' (he ▸ ht))⟩

/-! ### The calls -/

theorem flagBit_eq_zero {flag : Nat} : flagBit flags flag = 0 ↔ flags &&& flag = 0 := by
  rw [flagBit]
  split <;> omega

theorem SpacesInv.map_of_table (h : SpacesInv k tables s) (physicalAddr : Nat)
    (hi : getPdIndex virtualAddr < 1024) (ht : tables (getPdIndex virtualAddr) = some j)
    (hflag : 768 ≤ getPdIndex virtualAddr → flags &&& pagePresent ≠ 0 →
      ∀ d ∈ s.directories, entryPresent s.phys.mem (d + 4 * getPdIndex virtualAddr) ≠ 0) :
    SpacesInv k tables ⟨vmmMapPage k virtualAddr physicalAddr flags s.phys, s.directories⟩ := by
  obtain ⟨htables, hset⟩ := h.toTablesInv.map_of_table physicalAddr flags hi ht
  have he := h.entry _ hi
  rw [ht] at he
  have hmap := vmmMapPage_of_some physicalAddr flags he
  refine h.setPage hi ht (getPtIndex_lt virtualAddr) htables ?_ ?_ ?_
  · intro d hd l hl
    obtain ⟨l', -, hl', hd', hused, -⟩ := h.frame d hd
    have hll : l' = l := frameAddress_inj.mp (hd'.symm.trans hl)
    subst hll
    exact h.toPmmInv.frameUsed_mono htables.toPmmInv hl' (hset ▸ Finset.Subset.refl _) hused
  · intro x _ hx
    rw [hmap]
    exact mappedEntry_of_disjoint hx
  · intro hi' hpresent
    refine hflag hi' ?_
    rw [hmap] at hpresent
    dsimp only at hpresent
    rw [entryPresent_mappedEntry] at hpresent
    exact fun hzero => hpresent (flagBit_eq_zero.mpr hzero)

theorem SpacesInv.fresh (h : SpacesInv k tables s) (hj : j ∈ freeFrameSet s.phys) :
    (∀ i < 1024, tables i ≠ some j) ∧ ∀ d ∈ s.directories, d ≠ frameAddress j := by
  have hnot := (mem_freeFrameSet.mp hj).2
  refine ⟨fun i hi ht => hnot (h.used i hi j ht), ?_⟩
  rintro d hd rfl
  obtain ⟨l, -, -, hl, hused, -⟩ := h.frame _ hd
  rw [frameAddress_inj] at hl
  exact hnot (hl ▸ hused)

theorem tables_apart_update
    (h : ∀ i < 1024, ∀ i' < 1024, ∀ j, tables i = some j → tables i' = some j → i = i')
    (hfresh : ∀ i' < 1024, tables i' ≠ some j) :
    ∀ i₁ < 1024, ∀ i₂ < 1024, ∀ l, Function.update tables i (some j) i₁ = some l →
      Function.update tables i (some j) i₂ = some l → i₁ = i₂ := by
  intro i₁ hi₁ i₂ hi₂ l h₁ h₂
  by_cases he₁ : i₁ = i
  · by_cases he₂ : i₂ = i
    · rw [he₁, he₂]
    · rw [he₁, Function.update_self] at h₁
      rw [Function.update_of_ne he₂, ← h₁] at h₂
      exact absurd h₂ (hfresh i₂ hi₂)
  · rw [Function.update_of_ne he₁] at h₁
    by_cases he₂ : i₂ = i
    · rw [he₂, Function.update_self] at h₂
      rw [← h₂] at h₁
      exact absurd h₁ (hfresh i₁ hi₁)
    · rw [Function.update_of_ne he₂] at h₂
      exact h i₁ hi₁ i₂ hi₂ l h₁ h₂

theorem takeTable_absent (hi : i < 1024) (hp : p < 1024)
    (ha : (pmmAllocFrame phys).1 = frameAddress j)
    (hk : k + 4096 ≤ frameAddress j ∨ frameAddress j + 4096 ≤ k) :
    entryPresent (takeTable k i flags phys).mem (frameAddress j + 4 * p) = 0 := by
  have hzero : load32 (Kernel.takeTable k i flags phys).mem (frameAddress j + 4 * p)
      = load32 (fill (pmmAllocFrame phys).2.mem (frameAddress j) 4096 0)
        (frameAddress j + 4 * p) := by
    apply load32_congr
    intro x h₁ h₂
    rw [Kernel.takeTable, ha]
    dsimp only
    rw [setEntry_of_disjoint (by omega), memset_eq_fill]
    rfl
  rw [entryPresent, hzero, load32_fill_zero (by omega) (by omega)]
  rfl

theorem SpacesInv.takeTable (h : SpacesInv k tables s) (flags : Nat) (h0 : FrameUsed s.phys 0)
    (hi : i < 1024) (ht : tables i = none) (hj : IsLeast (freeFrameSet s.phys : Set Nat) j) :
    SpacesInv k (Function.update tables i (some j)) ⟨takeTable k i flags s.phys, s.directories⟩ ∧
      ∀ d ∈ s.directories, ∀ i' < 1024, load32 (Kernel.takeTable k i flags s.phys).mem (d + 4 * i')
        = load32 s.phys.mem (d + 4 * i') := by
  have hbelow := h.below
  obtain ⟨htables, hset⟩ := h.toTablesInv.takeTable flags h0 hi hj
  have hjmem := Finset.mem_coe.mp hj.1
  obtain ⟨hfresh, hdirs⟩ := h.fresh hjmem
  have ha : (pmmAllocFrame s.phys).1 = frameAddress j := by
    rcases pmmAllocFrame_spec h.toPmmInv with ⟨hempty, -⟩ | ⟨l, hl, ha, -⟩
    · exact absurd (hempty ▸ hjmem) (Finset.notMem_empty j)
    · rw [ha, hl.unique hj]
  have hmem := fun x => takeTable_mem (x := x) k i flags h.placed ha
  have hj0 : 0 < j := by
    obtain ⟨hj0, -⟩ := htables.lt hi (Function.update_self ..)
    exact hj0
  have hframe : ∀ x, memoryStart + 4096 ≤ x →
      (x < frameAddress j ∨ frameAddress j + 4096 ≤ x) →
      (Kernel.takeTable k i flags s.phys).mem x = s.phys.mem x := by
    intro x hx hout
    exact hmem x (by omega) hout (by omega)
  have hword : ∀ d ∈ s.directories, ∀ i' < 1024,
      load32 (Kernel.takeTable k i flags s.phys).mem (d + 4 * i')
        = load32 s.phys.mem (d + 4 * i') := by
    intro d hd i' hi'
    obtain ⟨l, hl0, hl, rfl, -, -⟩ := h.frame d hd
    exact load32_frame hl0 (fun he => hdirs _ hd (he ▸ rfl)) hi' hframe
  refine ⟨⟨htables, ?_, ?_, ?_⟩, hword⟩
  · exact tables_apart_update h.apart hfresh
  · intro d hd
    obtain ⟨l, hl0, hl, rfl, hused, hne⟩ := h.frame d hd
    refine ⟨l, hl0, hl, rfl, ?_, ?_⟩
    · exact h.toPmmInv.frameUsed_mono htables.toPmmInv hl
        (hset ▸ Finset.erase_subset ..) hused
    · intro i' hi'
      by_cases he : i' = i
      · rw [he, Function.update_self]
        exact fun heq => hdirs _ hd (by rw [Option.some.inj heq])
      · rw [Function.update_of_ne he]
        exact hne i' hi'
  · intro d hd i' hi₁ hi₂
    by_cases he : i' = i
    · -- the entry was missing in both
      subst he
      right
      have hmiss : entryPresent s.phys.mem (d + 4 * i') = 0 := by
        rcases h.shared d hd i' hi₁ hi₂ with heq | ⟨habsent, -⟩
        · have hk := h.entry i' hi
          rw [ht] at hk
          rw [entryPresent, heq]
          exact hk
        · exact habsent
      refine ⟨?_, ?_⟩
      · rw [entryPresent, hword d hd i' hi]
        exact hmiss
      · intro l hl p hp
        rw [Function.update_self, Option.some.injEq] at hl
        subst hl
        exact takeTable_absent hi hp ha (Or.inl (by
          simp only [frameAddress, memoryStart] at *
          omega))
    · obtain ⟨l, hl0, hl, rfl, -, -⟩ := h.frame d hd
      rw [Function.update_of_ne he]
      refine (h.shared _ hd i' hi₁ hi₂).frame hl0 (fun he => hdirs _ hd (he ▸ rfl)) hi₂ ?_ ?_ hframe
      · apply load32_congr
        intro x h₁ h₂
        apply hmem x
        · simp only [InBitmap, memoryStart] at *
          omega
        · simp only [frameAddress, memoryStart] at *
          omega
        · omega
      · intro t ht'
        exact ⟨(h.lt hi₂ ht').1, fun he => hfresh i' hi₂ (he ▸ ht')⟩

theorem copyEntries_of_outside {first n : Nat} (m : Mem)
    (hx : x < d + 4 * first ∨ d + 4 * (first + n) ≤ x) :
    ((List.range' first n).foldl (fun m i =>
      store32 m (d + 4 * i) (load32 m (k + 4 * i))) m) x = m x := by
  induction n with
  | zero => rfl
  | succ n ih =>
      rw [List.range'_1_concat, List.foldl_append, List.foldl_cons, List.foldl_nil,
        store32_of_disjoint (by omega), ih (by omega)]

theorem copyEntries_spec (first n : Nat) (m : Mem) (hk : k + 4096 ≤ d) (hn : first + n ≤ 1024) :
    ∀ i, first ≤ i → i < first + n → load32 ((List.range' first n).foldl (fun m i =>
      store32 m (d + 4 * i) (load32 m (k + 4 * i))) m) (d + 4 * i) = load32 m (k + 4 * i) := by
  induction n with
  | zero => exact fun i h₁ h₂ => absurd h₂ (by omega)
  | succ n ih =>
      have hin := ih (by omega)
      have hout : ∀ x < d, ((List.range' first n).foldl (fun m i =>
          store32 m (d + 4 * i) (load32 m (k + 4 * i))) m) x = m x :=
        fun x hx => copyEntries_of_outside m (by omega)
      rw [List.range'_1_concat, List.foldl_append, List.foldl_cons, List.foldl_nil]
      generalize (List.range' first n).foldl (fun m i =>
        store32 m (d + 4 * i) (load32 m (k + 4 * i))) m = t at hout hin ⊢
      intro i h₁ h₂
      by_cases hi : i = first + n
      · subst hi
        rw [load32_store32 (load32_lt ..)]
        exact load32_congr fun x _ _ => hout x (by omega)
      · rw [load32_store32_of_disjoint (by omega)]
        exact hin i h₁ (by omega)

/-- A frame becomes a directory: cleared, and then the upper entries are copied. -/
theorem vmmCreatePageDirectory_of_alloc (k : Nat)
    (ha : (pmmAllocFrame phys).1 = frameAddress j) :
    ∃ m, vmmCreatePageDirectory k phys
        = (frameAddress j, { (pmmAllocFrame phys).2 with mem := m }) ∧
      (∀ x, x < frameAddress j + 3072 ∨ frameAddress j + 4096 ≤ x →
        m x = fill (pmmAllocFrame phys).2.mem (frameAddress j) 4096 0 x) ∧
      (k + 4096 ≤ frameAddress j → ∀ i, 768 ≤ i → i < 1024 →
        load32 m (frameAddress j + 4 * i) = load32 (pmmAllocFrame phys).2.mem (k + 4 * i)) := by
  have hne : frameAddress j ≠ 0 := by
    simp only [frameAddress, memoryStart]
    omega
  have hfill : memset (pmmAllocFrame phys).2.mem (frameAddress j) 0 4096
      = fill (pmmAllocFrame phys).2.mem (frameAddress j) 4096 0 := memset_eq_fill ..
  refine ⟨(List.range' 768 256).foldl (fun m i => store32 m (frameAddress j + 4 * i)
    (load32 m (k + 4 * i))) (memset (pmmAllocFrame phys).2.mem (frameAddress j) 0 4096),
    ?_, ?_, ?_⟩
  · rw [vmmCreatePageDirectory]
    dsimp only
    rw [ha, if_neg hne]
    rfl
  · intro x hx
    rw [copyEntries_of_outside _ (by omega), hfill]
  · intro hk i h₁ h₂
    rw [copyEntries_spec 768 256 _ hk (by decide) i h₁ h₂, hfill]
    apply load32_congr
    intro x h₃ h₄
    rw [fill_of_disjoint (by omega)]

/-- **`vmm_create_page_directory`** returns `0`, or a fresh frame with the kernel's entries. -/
theorem vmmCreatePageDirectory_spec (h : PmmInv phys) (h0 : FrameUsed phys 0)
    (hk : k + 4096 ≤ memoryStart) :
    (freeFrameSet phys = ∅ ∧ vmmCreatePageDirectory k phys = (0, phys)) ∨
      ∃ j, j ∈ freeFrameSet phys ∧ 0 < j ∧ j < 7680 ∧
      (vmmCreatePageDirectory k phys).1 = frameAddress j ∧
      PmmInv (vmmCreatePageDirectory k phys).2 ∧
      freeFrameSet (vmmCreatePageDirectory k phys).2 = (freeFrameSet phys).erase j ∧
      (∀ x, ¬InBitmap x → (x < frameAddress j ∨ frameAddress j + 4096 ≤ x) →
        (vmmCreatePageDirectory k phys).2.mem x = phys.mem x) ∧
      ∀ i, 768 ≤ i → i < 1024 →
        load32 (vmmCreatePageDirectory k phys).2.mem (frameAddress j + 4 * i)
          = load32 phys.mem (k + 4 * i) := by
  rcases pmmAllocFrame_spec h with ⟨hempty, he⟩ | ⟨j, hj, ha, hinv, hmem, hset⟩
  · left
    refine ⟨hempty, ?_⟩
    rw [vmmCreatePageDirectory, he]
    rfl
  · right
    have hjmem := Finset.mem_coe.mp hj.1
    obtain ⟨hlt, hnot⟩ := mem_freeFrameSet.mp hjmem
    rw [h.total] at hlt
    have hj0 : 0 < j := by
      by_contra hzero
      exact hnot ((show j = 0 by omega) ▸ h0)
    have hframe : memoryStart + 4096 ≤ frameAddress j := by
      simp only [frameAddress, memoryStart, pageSize]
      omega
    obtain ⟨m, hresult, hout, hin⟩ := vmmCreatePageDirectory_of_alloc k ha
    have houtside : ∀ x, (x < frameAddress j ∨ frameAddress j + 4096 ≤ x) →
        m x = (pmmAllocFrame phys).2.mem x := by
      intro x hx
      rw [hout x (by omega), fill_of_disjoint hx]
    obtain ⟨hinv', hset', -⟩ := hinv.congr { (pmmAllocFrame phys).2 with mem := m } rfl
      fun x h₁ h₂ => houtside x (by omega)
    rw [hresult]
    refine ⟨j, hjmem, hj0, hlt, rfl, hinv', hset'.trans hset, ?_, ?_⟩
    · intro x hx hx'
      exact (houtside x hx').trans (pmmAllocFrame_mem h.placed hx)
    · intro i h₁ h₂
      refine (hin (by omega) i h₁ h₂).trans ?_
      apply load32_congr
      intro x h₃ h₄
      exact pmmAllocFrame_mem h.placed (by omega)

theorem SpacesInv.create (h : SpacesInv k tables s) (h0 : FrameUsed s.phys 0) :
    SpacesInv k tables ⟨(vmmCreatePageDirectory k s.phys).2,
      if (vmmCreatePageDirectory k s.phys).1 = 0 then s.directories
      else (vmmCreatePageDirectory k s.phys).1 :: s.directories⟩ := by
  have hbelow := h.below
  rcases vmmCreatePageDirectory_spec h.toPmmInv h0 hbelow with ⟨-, he⟩ |
    ⟨j, hj, hj0, hlt, ha, hinv, hset, hmem, hcopy⟩
  · rw [he]
    exact h
  · obtain ⟨hfresh, hdirs⟩ := h.fresh hj
    have hne : frameAddress j ≠ 0 := by
      simp only [frameAddress, memoryStart]
      omega
    rw [ha, if_neg hne]
    generalize (vmmCreatePageDirectory k s.phys).2 = phys at *
    have hsub : freeFrameSet phys ⊆ freeFrameSet s.phys := hset ▸ Finset.erase_subset ..
    have htables : TablesInv k tables phys := by
      refine h.toTablesInv.congr hinv ?_ ?_
      · intro x hx
        refine hmem x (by omega) (Or.inl ?_)
        simp only [frameAddress]
        omega
      · intro i hi l hl
        exact h.toPmmInv.frameUsed_mono hinv (h.lt hi hl).2 hsub (h.used i hi l hl)
    have hk' : ∀ i < 1024, load32 phys.mem (k + 4 * i) = load32 s.phys.mem (k + 4 * i) := by
      intro i hi
      apply load32_congr
      intro x h₁ h₂
      apply hmem x
      · omega
      · simp only [frameAddress]
        omega
    have hframe : ∀ x, memoryStart + 4096 ≤ x →
        (x < frameAddress j ∨ frameAddress j + 4096 ≤ x) → phys.mem x = s.phys.mem x :=
      fun x hx hout => hmem x (by omega) hout
    refine ⟨htables, h.apart, ?_, ?_⟩
    · intro d hd
      rcases List.mem_cons.mp hd with rfl | hd
      · refine ⟨j, hj0, hlt, rfl, ?_, hfresh⟩
        rw [hinv.frameUsed_iff hlt, hset]
        exact Finset.notMem_erase j _
      · obtain ⟨l, hl0, hl, rfl, hused, hne⟩ := h.frame d hd
        exact ⟨l, hl0, hl, rfl, h.toPmmInv.frameUsed_mono hinv hl hsub hused, hne⟩
    · intro d hd i hi₁ hi₂
      rcases List.mem_cons.mp hd with rfl | hd
      · left
        rw [hcopy i hi₁ hi₂, hk' i hi₂]
      · obtain ⟨l, hl0, hl, rfl, -, -⟩ := h.frame d hd
        refine (h.shared _ hd i hi₁ hi₂).frame hl0 (fun he => hdirs _ hd (he ▸ rfl)) hi₂ (hk' i hi₂)
          ?_ hframe
        intro t ht
        exact ⟨(h.lt hi₂ ht).1, fun he => hfresh i hi₂ (he ▸ ht)⟩

/-- No present page is mapped in the kernel half behind an entry that some directory lacks. -/
def MapKeepsShared (kernelPageDirectory virtualAddr flags : Nat) (s : Spaces) : Prop :=
  kernelVirtualBase ≤ virtualAddr → flags &&& pagePresent ≠ 0 →
    (entryPresent s.phys.mem (kernelPageDirectory + 4 * getPdIndex virtualAddr) ≠ 0 ∨
      pmmGetFreeFrames s.phys ≠ 0) →
    ∀ d ∈ s.directories, entryPresent s.phys.mem (d + 4 * getPdIndex virtualAddr) ≠ 0

/-- What `vmm_map_page` does to the tables: with its table there, or without memory for it,
or with a new one. -/
theorem SpacesInv.map_cases (h : SpacesInv k tables s) (flags : Nat)
    (hi : getPdIndex virtualAddr < 1024)
    (h0 : entryPresent s.phys.mem (k + 4 * getPdIndex virtualAddr) = 0 → FrameUsed s.phys 0) :
    (entryPresent s.phys.mem (k + 4 * getPdIndex virtualAddr) = 0 ∧ pmmGetFreeFrames s.phys = 0 ∧
      ∀ physicalAddr, vmmMapPage k virtualAddr physicalAddr flags s.phys = s.phys) ∨
    ∃ j tables' phys', tables' (getPdIndex virtualAddr) = some j ∧
      SpacesInv k tables' ⟨phys', s.directories⟩ ∧
      (∀ physicalAddr, vmmMapPage k virtualAddr physicalAddr flags s.phys
        = vmmMapPage k virtualAddr physicalAddr flags phys') ∧
      (∀ d ∈ s.directories, entryPresent phys'.mem (d + 4 * getPdIndex virtualAddr)
        = entryPresent s.phys.mem (d + 4 * getPdIndex virtualAddr)) ∧
      (entryPresent s.phys.mem (k + 4 * getPdIndex virtualAddr) ≠ 0 ∨
        pmmGetFreeFrames s.phys ≠ 0) := by
  have he := h.entry _ hi
  cases ht : tables (getPdIndex virtualAddr) with
  | some j =>
      rw [ht] at he
      refine Or.inr ⟨j, tables, s.phys, ht, h, fun _ => rfl, fun _ _ => rfl, Or.inl ?_⟩
      rw [he.1]
      decide
  | none =>
      rw [ht] at he
      by_cases hfull : freeFrameSet s.phys = ∅
      · exact Or.inl ⟨he, h.toPmmInv.freeFrames_eq_zero_iff.mpr hfull,
          fun _ => vmmMapPage_of_full h.toPmmInv he hfull⟩
      · have hne : (freeFrameSet s.phys).Nonempty := Finset.nonempty_iff_ne_empty.mpr hfull
        obtain ⟨hinv, hword⟩ := h.takeTable flags (h0 he) hi ht (Finset.isLeast_min' _ hne)
        refine Or.inr ⟨_, _, _, Function.update_self .., hinv,
          fun _ => vmmMapPage_of_none h.toPmmInv he hfull, ?_,
          Or.inr fun hzero => hfull (h.toPmmInv.freeFrames_eq_zero_iff.mp hzero)⟩
        intro d hd
        rw [entryPresent, entryPresent, hword d hd _ hi]

theorem SpacesInv.map (h : SpacesInv k tables s) (physicalAddr : Nat)
    (hi : getPdIndex virtualAddr < 1024)
    (h0 : entryPresent s.phys.mem (k + 4 * getPdIndex virtualAddr) = 0 → FrameUsed s.phys 0)
    (hok : MapKeepsShared k virtualAddr flags s) : ∃ tables',
      SpacesInv k tables' ⟨vmmMapPage k virtualAddr physicalAddr flags s.phys, s.directories⟩ := by
  rcases h.map_cases flags hi h0 with ⟨-, -, he⟩ | ⟨j, tables', phys', ht, h', he, hword, heffect⟩
  · rw [he]
    exact ⟨tables, h⟩
  · rw [he]
    refine ⟨tables', h'.map_of_table physicalAddr hi ht ?_⟩
    intro hi' hflag d hd
    rw [hword d hd]
    refine hok ?_ hflag heffect d hd
    simp only [getPdIndex, kernelVirtualBase] at *
    omega

/-- **Otherwise the new page is missing in that directory.** -/
theorem SpacesInv.map_iff (h : SpacesInv k tables s) {virtualAddr : UInt32}
    (h0 : entryPresent s.phys.mem (k + 4 * getPdIndex virtualAddr.toNat) = 0 → FrameUsed s.phys 0) :
    KernelHalfShared k
        ⟨vmmMapPage k virtualAddr.toNat physicalAddr flags s.phys, s.directories⟩ ↔
      MapKeepsShared k virtualAddr.toNat flags s := by
  have hi := getPdIndex_lt virtualAddr
  constructor
  · intro hshared hv hflag heffect d hd habsent
    rcases h.map_cases flags hi h0 with ⟨hk, hfull, -⟩ | ⟨j, tables', phys', ht, h', he, hword, -⟩
    · exact heffect.elim (fun hne => hne hk) fun hne => hne hfull
    · rw [he] at hshared
      have htable := h'.entry _ hi
      rw [ht] at htable
      obtain ⟨hinv, -⟩ := h'.toTablesInv.map_of_table physicalAddr flags hi ht
      have htable' := hinv.entry _ hi
      rw [ht] at htable'
      -- the second byte of the page
      have hlt := virtualAddr.toNat_lt
      obtain ⟨v, hvdef⟩ : ∃ v : UInt32, v.toNat = virtualAddr.toNat / 4096 * 4096 + 1 :=
        ⟨UInt32.ofNat (virtualAddr.toNat / 4096 * 4096 + 1), UInt32.toNat_ofNat_of_lt (by
          simp only [UInt32.size]
          omega)⟩
      have hpd : getPdIndex v.toNat = getPdIndex virtualAddr.toNat := by
        rw [hvdef, getPdIndex, getPdIndex]
        omega
      have hpt : getPtIndex v.toNat = getPtIndex virtualAddr.toNat := by
        rw [hvdef, getPtIndex, getPtIndex]
        omega
      have hvmod : v.toNat % 4096 = 1 := by
        rw [hvdef]
        omega
      have hvb : kernelVirtualBase ≤ v.toNat := by
        simp only [kernelVirtualBase] at *
        omega
      have hmap := vmmMapPage_of_some physicalAddr flags htable
      have hpresent : entryPresent (vmmMapPage k virtualAddr.toNat physicalAddr flags phys').mem
          (frameAddress j + 4 * getPtIndex virtualAddr.toNat) ≠ 0 := by
        rw [hmap]
        dsimp only
        rw [entryPresent_mappedEntry]
        exact fun hzero => hflag (flagBit_eq_zero.mp hzero)
      have hd0 : vmmGetPhysicalAddress d v.toNat
          (vmmMapPage k virtualAddr.toNat physicalAddr flags phys') = 0 := by
        apply vmmGetPhysicalAddress_of_absent
        obtain ⟨l, hl0, -, rfl, -, hne⟩ := h'.frame d hd
        rw [hpd, entryPresent, load32_frame hl0 (fun he => hne _ hi (he ▸ ht)) hi]
        · exact (hword _ hd).trans habsent
        · intro x _ hx
          have hptlt := getPtIndex_lt virtualAddr.toNat
          rw [hmap]
          exact mappedEntry_of_disjoint (by omega)
      have heq := hshared d hd v hvb
      rw [hd0, vmmGetPhysicalAddress_of_some (hpd.symm ▸ htable'), hpt, if_neg hpresent,
        hvmod] at heq
      exact absurd (Nat.or_eq_zero_iff.mp heq.symm).2 (by decide)
  · intro hok
    obtain ⟨tables', h'⟩ := h.map physicalAddr hi h0 hok
    exact h'.kernelHalf

theorem SpacesInv.unmap (h : SpacesInv k tables s) (hi : getPdIndex virtualAddr < 1024)
    (htables : UnmapKeepsTables k virtualAddr s.phys)
    (hdirs : entryPresent s.phys.mem (k + 4 * getPdIndex virtualAddr) ≠ 0 →
      ∀ d ∈ s.directories, pageFrame k virtualAddr s.phys.mem ≠ d) :
    SpacesInv k tables ⟨vmmUnmapPage k virtualAddr s.phys, s.directories⟩ := by
  have hinv := h.toTablesInv.unmap hi htables
  have he := h.entry _ hi
  cases ht : tables (getPdIndex virtualAddr) with
  | none =>
      rw [ht] at he
      rw [vmmUnmapPage_of_none he]
      exact h
  | some j =>
      rw [ht] at he
      have hpresent : entryPresent s.phys.mem (k + 4 * getPdIndex virtualAddr) ≠ 0 := by
        rw [he.1]
        decide
      obtain ⟨hclear, hset⟩ := h.toTablesInv.clearEntry hi ht
      obtain ⟨hentry, hunmap⟩ := vmmUnmapPage_of_some he
      have hmem : ∀ x, ¬InBitmap x → (vmmUnmapPage k virtualAddr s.phys).mem x
          = memset s.phys.mem (pageEntry k virtualAddr s.phys.mem) 0 4 x := by
        intro x hx
        rw [hunmap]
        split
        · exact pmmFreeFrame_mem hclear.placed hx
        · rfl
      refine h.setPage hi ht (getPtIndex_lt virtualAddr) hinv ?_ ?_ ?_
      · rintro d hd l hl
        obtain ⟨l', -, hl', hd', hused, -⟩ := h.frame d hd
        have hll : l' = l := frameAddress_inj.mp (hd'.symm.trans hl)
        subst hll
        have hne := hdirs hpresent d hd
        rw [hl] at hne
        exact h.toTablesInv.unmap_frameUsed hi hl' hused hne
      · intro x hx hout
        rw [hmem x hx, hentry, memset_eq_fill, fill_of_disjoint hout]
      · intro _ hne
        exfalso
        apply hne
        have hzero : load32 (vmmUnmapPage k virtualAddr s.phys).mem
            (frameAddress j + 4 * getPtIndex virtualAddr)
            = load32 (fill s.phys.mem (frameAddress j + 4 * getPtIndex virtualAddr) 4 0)
              (frameAddress j + 4 * getPtIndex virtualAddr) := by
          obtain ⟨hj0, -⟩ := h.lt hi ht
          apply load32_congr
          intro x h₁ h₂
          rw [hmem x, hentry, memset_eq_fill]
          · rfl
          · simp only [InBitmap, frameAddress, memoryStart, pageSize] at *
            omega
        rw [entryPresent, hzero, load32_fill_zero (by omega) (by omega)]
        rfl

/-! ### Runs -/

inductive SpaceOp
  | create
  | map (virtualAddr physicalAddr flags : UInt32)
  | unmap (virtualAddr : UInt32)
  deriving DecidableEq, Repr

def spaceStep (kernelPageDirectory : Nat) : SpaceOp → Spaces → Option (Nat × Spaces)
  | .create, s =>
      let (pageDir, phys) := vmmCreatePageDirectory kernelPageDirectory s.phys
      some (pageDir,
        { phys := phys
          directories := if pageDir = 0 then s.directories else pageDir :: s.directories })
  | .map virtualAddr physicalAddr flags, s => some (0, { s with
      phys := vmmMapPage kernelPageDirectory virtualAddr.toNat physicalAddr.toNat flags.toNat
        s.phys })
  | .unmap virtualAddr, s =>
      some (0, { s with phys := vmmUnmapPage kernelPageDirectory virtualAddr.toNat s.phys })

/-- No present page is mapped behind an entry that some directory lacks, no table nor
directory is given back, and the frame of the bitmap is not taken. -/
def KeepsShared (kernelPageDirectory : Nat) : SpaceOp → Spaces → Prop
  | .create, s => FrameUsed s.phys 0
  | .map virtualAddr _ flags, s =>
      (entryPresent s.phys.mem (kernelPageDirectory + 4 * getPdIndex virtualAddr.toNat) = 0 →
        FrameUsed s.phys 0) ∧
      MapKeepsShared kernelPageDirectory virtualAddr.toNat flags.toNat s
  | .unmap virtualAddr, s => UnmapKeepsTables kernelPageDirectory virtualAddr.toNat s.phys ∧
      (entryPresent s.phys.mem (kernelPageDirectory + 4 * getPdIndex virtualAddr.toNat) ≠ 0 →
        ∀ d ∈ s.directories, pageFrame kernelPageDirectory virtualAddr.toNat s.phys.mem ≠ d)

/-- **One step** keeps the kernel half shared. -/
theorem spaceStep_inv {op : SpaceOp} (h : SpacesInv k tables s) (hok : KeepsShared k op s) :
    ∃ o s', spaceStep k op s = some (o, s') ∧ ∃ tables', SpacesInv k tables' s' := by
  cases op with
  | create => exact ⟨_, _, rfl, tables, h.create hok⟩
  | map virtualAddr physicalAddr flags =>
      exact ⟨0, _, rfl, h.map physicalAddr.toNat (getPdIndex_lt virtualAddr) hok.1 hok.2⟩
  | unmap virtualAddr =>
      exact ⟨0, _, rfl, tables, h.unmap (getPdIndex_lt virtualAddr) hok.1 hok.2⟩

def bootSpaces (kernelPageDirectory : Nat) (m : Mem) : Spaces where
  phys := vmmInit kernelPageDirectory (pmmInit m)
  directories := []

theorem bootSpaces_inv (m : Mem) (hk : k + 4096 ≤ memoryStart) :
    SpacesInv k (Function.update (Function.update (fun _ => none) 0 (some 1)) 768 (some 2))
      (bootSpaces k m) := by
  have htables := vmmInit_tables m hk
  rw [bootSpaces]
  generalize vmmInit k (pmmInit m) = phys at *
  refine ⟨htables, ?_, fun d hd => absurd hd List.not_mem_nil,
    fun d hd => absurd hd List.not_mem_nil⟩
  intro i _ i' _ j h h'
  rw [Function.update_apply, Function.update_apply] at h h'
  split at h <;> split at h' <;> grind

/-- **The kernel half stays shared** along every run in which a mapping finds its table in
every directory and no table, directory or bitmap is given back. -/
theorem spaceRun_shared (m : Mem) {kernelPageDirectory : Nat}
    (hk : kernelPageDirectory + 4096 ≤ memoryStart) {ops : List SpaceOp}
    (hok : Machine.Meets (spaceStep kernelPageDirectory) (KeepsShared kernelPageDirectory) ops
      (bootSpaces kernelPageDirectory m)) :
    ∃ os s, Machine.run (spaceStep kernelPageDirectory) ops (bootSpaces kernelPageDirectory m)
        = some (os, s) ∧
      KernelHalfShared kernelPageDirectory s ∧
      ∀ virtualAddr physicalAddr flags : UInt32,
        (entryPresent s.phys.mem (kernelPageDirectory + 4 * getPdIndex virtualAddr.toNat) = 0 →
          FrameUsed s.phys 0) →
        (KernelHalfShared kernelPageDirectory
            ⟨vmmMapPage kernelPageDirectory virtualAddr.toNat physicalAddr.toNat flags.toNat s.phys,
              s.directories⟩ ↔
          MapKeepsShared kernelPageDirectory virtualAddr.toNat flags.toNat s) := by
  obtain ⟨os, s, hrun, tables, h⟩ := Machine.run_total
    (I := fun s => ∃ tables, SpacesInv kernelPageDirectory tables s)
    (fun op s hs hg => by
      obtain ⟨tables, hs⟩ := hs
      exact spaceStep_inv hs hg) ⟨_, bootSpaces_inv m hk⟩ hok
  exact ⟨os, s, hrun, h.kernelHalf, fun virtualAddr physicalAddr flags h0 => h.map_iff h0⟩

theorem spaceStep_create (h : SpacesInv k tables s) (h0 : FrameUsed s.phys 0)
    (hfree : 1 < (freeFrameSet s.phys).card) : ∃ j s₁,
      spaceStep k .create s = some (frameAddress j, s₁) ∧ SpacesInv k tables s₁ ∧
      s₁.directories = frameAddress j :: s.directories ∧ FrameUsed s₁.phys 0 ∧
      pmmGetFreeFrames s₁.phys ≠ 0 ∧
      ∀ i, 768 ≤ i → i < 1024 →
        load32 s₁.phys.mem (frameAddress j + 4 * i) = load32 s₁.phys.mem (k + 4 * i) := by
  have hbelow := h.below
  have hcreate := h.create h0
  rcases vmmCreatePageDirectory_spec h.toPmmInv h0 hbelow with ⟨hempty, -⟩ |
    ⟨j, hj, -, -, ha, hinv₁, hset₁, hmem, hcopy⟩
  · rw [hempty, Finset.card_empty] at hfree
    omega
  · have hne : frameAddress j ≠ 0 := by
      simp only [frameAddress, memoryStart]
      omega
    have hstep : ∀ r : Nat × Phys, vmmCreatePageDirectory k s.phys = r → r.1 = frameAddress j →
        spaceStep k .create s = some (frameAddress j, ⟨r.2, frameAddress j :: s.directories⟩) := by
      intro r hr hr₁
      obtain ⟨d, phys₁⟩ := r
      rw [spaceStep, hr]
      dsimp only at hr₁ ⊢
      rw [hr₁, if_neg hne]
    rw [ha, if_neg hne] at hcreate
    refine ⟨j, _, hstep _ rfl ha, hcreate, rfl, ?_, ?_, ?_⟩
    · exact h.toPmmInv.frameUsed_mono hinv₁ (by decide) (hset₁ ▸ Finset.erase_subset ..) h0
    · intro hzero
      have hempty := hinv₁.freeFrames_eq_zero_iff.mp hzero
      have hcard := Finset.card_erase_of_mem hj
      rw [← hset₁, hempty, Finset.card_empty] at hcard
      omega
    · intro i h₁ h₂
      refine (hcopy i h₁ h₂).trans ?_
      apply load32_congr
      intro x h₃ h₄
      refine (hmem x (by omega) (Or.inl ?_)).symm
      simp only [frameAddress]
      omega

theorem bootSpaces_free (m : Mem) (hk : k + 4096 ≤ memoryStart) :
    FrameUsed (bootSpaces k m).phys 0 ∧ 1 < (freeFrameSet (bootSpaces k m).phys).card := by
  obtain ⟨hpmm, hset⟩ := pmmInit_spec m
  obtain ⟨hinv, hset'⟩ := vmmInit_spec hpmm hk hset
  rw [bootSpaces]
  dsimp only
  rw [hset']
  refine ⟨hinv.used, Finset.one_lt_card.mpr ⟨3, ?_, 4, ?_, by decide⟩⟩
  · simp
  · simp

theorem spaceRun_shared_map : ∃ os s, Machine.run (spaceStep 0x110000)
      [.create, .map 0xC0000000 0x300000 3] (bootSpaces 0x110000 ⟨fun _ => 0⟩) = some (os, s) ∧
    KernelHalfShared 0x110000 s := by
  have hk : 0x110000 + 4096 ≤ memoryStart := by decide
  obtain ⟨h0, hfree⟩ := bootSpaces_free ⟨fun _ => 0⟩ hk
  obtain ⟨j, s₁, hstep, h₁, hdirs, h0₁, -, hentries⟩ :=
    spaceStep_create (bootSpaces_inv ⟨fun _ => 0⟩ hk) h0 hfree
  have hpd : getPdIndex (0xC0000000 : UInt32).toNat = 768 := by decide
  have he := h₁.entry 768 (by decide)
  rw [Function.update_self] at he
  have hok : Machine.Meets (spaceStep 0x110000) (KeepsShared 0x110000)
      [.create, .map 0xC0000000 0x300000 3] (bootSpaces 0x110000 ⟨fun _ => 0⟩) := by
    rw [Machine.meets_cons_of_step hstep]
    refine ⟨h0, ⟨fun _ => h0₁, ?_⟩, fun _ _ _ => trivial⟩
    intro _ _ _ d hd
    rw [hdirs, bootSpaces, List.mem_singleton] at hd
    rw [hd, hpd, entryPresent, hentries 768 (by decide) (by decide)]
    exact fun hzero => absurd (he.1.symm.trans hzero) (by decide)
  obtain ⟨os, s, hrun, hshared, -⟩ := spaceRun_shared ⟨fun _ => 0⟩ hk hok
  exact ⟨os, s, hrun, hshared⟩

/-- A directory is created, then the kernel maps a page in a region that has no table yet:
the directory misses it. -/
theorem spaceRun_missing : ∃ os s, Machine.run (spaceStep 0x110000)
      [.create, .map 0xC0400000 0x400000 1] (bootSpaces 0x110000 ⟨fun _ => 0⟩) = some (os, s) ∧
    ¬KernelHalfShared 0x110000 s := by
  have hk : 0x110000 + 4096 ≤ memoryStart := by decide
  obtain ⟨h0, hfree⟩ := bootSpaces_free ⟨fun _ => 0⟩ hk
  obtain ⟨j, s₁, hstep, h₁, hdirs, h0₁, hfree₁, hshared⟩ :=
    spaceStep_create (bootSpaces_inv ⟨fun _ => 0⟩ hk) h0 hfree
  have hmem : frameAddress j ∈ s₁.directories := hdirs ▸ List.mem_cons_self ..
  have hpd : getPdIndex (0xC0400000 : UInt32).toNat = 769 := by decide
  have hmiss := h₁.entry 769 (by decide)
  rw [Function.update_of_ne (by decide), Function.update_of_ne (by decide)] at hmiss
  refine ⟨[frameAddress j, 0], _, Machine.run_cons_some.mpr ⟨_, s₁, [0], hstep, rfl, rfl⟩, ?_⟩
  intro hafter
  have hkeep := (h₁.map_iff (fun _ => h0₁)).mp hafter (by decide) (by decide) (Or.inr hfree₁) _ hmem
  rw [hpd, entryPresent, hshared 769 (by decide) (by decide)] at hkeep
  exact hkeep hmiss

end AceOS.Kernel
