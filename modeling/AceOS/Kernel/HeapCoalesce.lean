import AceOS.Kernel.HeapRun

/-!
# Releases of the kernel heap

`heap_free` makes of the block, and of the free blocks around it, one free block, and a second
`heap_free` of the pointer does nothing (`heapFree_coalesces`).  After a `heap_malloc` that has
split a block it puts the block together again (`heapFree_undoes_heapMalloc`).
-/

namespace AceOS.Kernel

open Memory Segments

variable {st st' : HeapState} {bs xs ys : List Seg} {b : Seg}

/-! ### Coalescing -/

theorem heapFree_of_stale {st : HeapState} {p : Nat}
    (h : blkMagic st.mem (sub32 p heapBlockSize) = heapMagicFree) : heapFree p st = st := by
  rw [heapFree]
  split
  · rfl
  · dsimp only
    rw [if_pos (by rw [h]; decide)]

/-- **`heap_free` coalesces.**  The block ends up in one free block, whose neighbours are in
use; the other blocks in use are kept; and to free the pointer again changes nothing. -/
theorem heapFree_coalesces (st : HeapState) (bs : List Seg) (h : HeapInv st bs) (b : Seg)
    (hb : b ∈ bs) (hbf : b.free = false) :
    ∃ xs f ys, HeapInv (heapFree (b.addr + 20) st) (xs ++ f :: ys) ∧
      (∀ c, c.free = false → (c ∈ xs ++ f :: ys ↔ c ∈ bs ∧ c ≠ b)) ∧
      f.free = true ∧ f.addr ≤ b.addr ∧ b.addr + 20 + b.size ≤ f.addr + 20 + f.size ∧
      (∀ x g, b.addr ≤ x → x < b.addr + 20 + b.size → g ∈ xs ++ f :: ys → g.addr ≤ x →
        x < g.addr + 20 + g.size → g = f) ∧
      (∀ a ∈ xs.getLast?, a.free = false) ∧ (∀ c ∈ ys.head?, c.free = false) ∧
      heapFree (b.addr + 20) (heapFree (b.addr + 20) st) = heapFree (b.addr + 20) st := by
  obtain ⟨xs, f, ys, hinv, -, -, ⟨hff, hle, hend⟩, hmem, hmagic, -⟩ := heapFree_spec h hb hbf
  have hmax := (coalesced_append_free hff).mp hinv.coalesced
  refine ⟨xs, f, ys, hinv, hmem, hff, hle, by omega, ?_, hmax.1.2, hmax.2.2, ?_⟩
  · intro x g hbx hxb hg hgx hxg
    by_contra hne
    rcases hinv.tiles.apart hg (show f ∈ xs ++ f :: ys by simp) hne with hd | hd <;> omega
  · apply heapFree_of_stale
    rw [h.sub32_payload hb]
    exact hmagic

/-- A block of 100 bytes in the kernel heap is freed, and freed again. -/
theorem heapFree_coalesces_kernel : ∃ b st', heapMalloc 100 (heapInit 0x800000 0x400000 heapBlank)
    = some (b + 20, st') ∧ heapFree (b + 20) (heapFree (b + 20) st') = heapFree (b + 20) st' := by
  rcases heapMalloc_spec heapInit_kernel (by decide) (Or.inr heapInit_kernel_roomy) with he |
    ⟨b, st', bs', he, hinv, -, -, hbf, -, -, hmem, -⟩
  · have hnull : (heapMalloc 100 (heapInit 0x800000 0x400000 heapBlank)).map Prod.fst ≠ some 0 := by
      decide +kernel
    rw [he] at hnull
    exact absurd rfl hnull
  · obtain ⟨xs, f, ys, -, -, -, -, -, -, -, -, htwice⟩ :=
      heapFree_coalesces st' bs' hinv b ((hmem b hbf).mpr (Or.inl rfl)) hbf
    exact ⟨b.addr, st', he, htwice⟩

/-! ### A split undone -/

theorem HeapRepr.header_unique (h : HeapRepr st bs) (h' : HeapRepr st' bs) (hb : b ∈ bs) :
    header st'.mem b.addr = header st.mem b.addr := by
  obtain ⟨xs, ys, rfl⟩ := List.append_of_mem hb
  have hh : header st.mem b.addr = _ := h.header_eq
  have hh' : header st'.mem b.addr = _ := h'.header_eq
  rw [hh, hh']

/-- A block that has been split and taken is released: the two parts are one block again. -/
theorem mergeFreeBlocks_takeBlock (h : HeapRepr st (xs ++ b :: ys)) (hbf : b.free = true)
    (hxs : ∀ a ∈ xs.getLast?, a.free = false) {size : Nat} (hsplit : size + 52 ≤ b.size) :
    HeapRepr (mergeFreeBlocks b.addr (releaseBlock b.addr (takeBlock b.addr size st)))
      (xs ++ b :: ys) := by
  have hbig : minAllocSize ≤ b.size - size - 20 := by
    rw [minAllocSize]
    omega
  have htake := takeBlock_repr h hbf (show size + 20 ≤ b.size by omega)
  rw [splitHead, splitRest, if_pos hbig, if_pos hbig] at htake
  have hrelease := releaseBlock_repr htake rfl
  have habsorb := absorbBlock_repr hrelease rfl rfl
  rw [← mergeNext_of_free hrelease rfl] at habsorb
  have hself : ({ addr := b.addr, size := size + (20 + (b.size - size - 20)), free := true } : Seg)
      = b := by
    rw [← hbf, show size + (20 + (b.size - size - 20)) = b.size by omega]
  dsimp only at habsorb
  rw [hself] at habsorb
  rw [mergeFreeBlocks, mergePrev_of_used habsorb hxs]
  exact habsorb

theorem mergeFreeBlocks_mgr (b : Nat) (st : HeapState) :
    (mergeFreeBlocks b st).mgr.totalSize = st.mgr.totalSize ∧
      (mergeFreeBlocks b st).mgr.freeSize = st.mgr.freeSize := by
  rw [mergeFreeBlocks, mergePrev, mergeNext]
  split <;> split <;> exact ⟨rfl, rfl⟩

theorem takeBlock_mgr (b size : Nat) (st : HeapState) :
    (takeBlock b size st).mgr.totalSize = st.mgr.totalSize ∧
      (takeBlock b size st).mgr.freeSize = sub32 st.mgr.freeSize (add32 size heapBlockSize) := by
  simp only [takeBlock, splitBlock]
  split <;> exact ⟨rfl, rfl⟩

theorem HeapRepr.mgr_unique (h : HeapRepr st bs) (h' : HeapRepr st' bs)
    (hstart : st'.mgr.heapStart = st.mgr.heapStart) (hend : st'.mgr.heapEnd = st.mgr.heapEnd)
    (htotal : st'.mgr.totalSize = st.mgr.totalSize) (hfree : st'.mgr.freeSize = st.mgr.freeSize) :
    st'.mgr = st.mgr := by
  have hfirst := h'.first.trans h.first.symm
  have hallocated := h'.allocated.trans h.allocated.symm
  have hblocks := h'.free.trans h.free.symm
  cases hm : st.mgr
  cases hm' : st'.mgr
  simp_all

/-- **`heap_free` undoes a `heap_malloc`** that has split the block: the list, with every word
of its headers, and the manager are as before. -/
theorem heapFree_undoes_heapMalloc (st : HeapState) (bs : List Seg) (h : HeapInv st bs)
    (hfree : st.mgr.freeSize < 2 ^ 32) (n : Nat) (b : Seg) (hb : b ∈ bs)
    (hfit : findBestFit (roundSize n) st = some b.addr) (hsplit : roundSize n + 52 ≤ b.size) :
    ∃ p st', heapMalloc n st = some (p, st') ∧ (n ≠ 0 → p = b.addr + 20) ∧
      HeapInv (heapFree p st') bs ∧
      (∀ c ∈ bs, header (heapFree p st').mem c.addr = header st.mem c.addr) ∧
      (heapFree p st').mgr = st.mgr := by
  by_cases hn0 : n = 0
  · refine ⟨0, st, heapMalloc_of_full h.toHeapRepr (Or.inl hn0), fun hne => absurd hn0 hne, h,
      fun _ _ => rfl, rfl⟩
  have hbounds := h.bounds hb
  -- the block found is free
  obtain ⟨r, hr, hcase⟩ := findBestFit_spec h.toHeapRepr (roundSize n)
  rw [hfit, Option.some.injEq] at hr
  subst hr
  rcases hcase with ⟨hz, -⟩ | ⟨c, hc, hcf, -, hcb, -⟩
  · omega
  have he : b = c := h.tiles.eq_of_addr (by decide) hb hc hcb
  subst he
  obtain ⟨xs, ys, rfl⟩ := List.append_of_mem hb
  have hxs := ((coalesced_append_free hcf).mp h.coalesced).1.2
  have htake := takeBlock_repr h.toHeapRepr hcf (show roundSize n + 20 ≤ b.size by omega)
  have hrelease := releaseBlock_repr htake rfl
  have hmerge := mergeFreeBlocks_takeBlock h.toHeapRepr hcf hxs hsplit
  have hback := heapFree_of_used htake (List.mem_append_right xs (List.mem_cons_self ..)) rfl
  dsimp only at hback hrelease
  rw [splitHead_addr] at hback hrelease
  refine ⟨b.addr + 20, _, heapMalloc_of_fit h.toHeapRepr hb hn0 hfit, fun _ => rfl, ?_⟩
  rw [hback]
  refine ⟨⟨hmerge, h.coalesced, h.nonempty⟩, fun c hc => h.toHeapRepr.header_unique hmerge hc, ?_⟩
  refine h.toHeapRepr.mgr_unique hmerge ?_ ?_ ?_ ?_
  · exact (mergeFreeBlocks_region _ _).1.trans (takeBlock_region _ _ _).1
  · exact (mergeFreeBlocks_region _ _).2.trans (takeBlock_region _ _ _).2
  · exact (mergeFreeBlocks_mgr _ _).1.trans (takeBlock_mgr _ _ _).1
  · -- `free_size` loses and gets back the size asked for and a header
    have hsize := hrelease.size_eq (List.mem_append_right xs (List.mem_cons_self ..))
    have hbig : minAllocSize ≤ b.size - roundSize n - 20 := by
      rw [minAllocSize]
      omega
    dsimp only at hsize
    rw [splitHead, if_pos hbig] at hsize
    rw [(mergeFreeBlocks_mgr _ _).2]
    show add32 (takeBlock b.addr (roundSize n) st).mgr.freeSize
      (add32 (blkSize (releaseBlock b.addr (takeBlock b.addr (roundSize n) st)).mem b.addr)
        heapBlockSize) = st.mgr.freeSize
    rw [hsize, (takeBlock_mgr _ _ _).2]
    exact add32_sub32 hfree

theorem heapFree_undoes_heapMalloc_kernel : ∃ p st',
    heapMalloc 100 (heapInit 0x800000 0x400000 heapBlank) = some (p, st') ∧
      HeapInv (heapFree p st') [⟨0x800000, 0x3FFFEC, true⟩] ∧
      (heapFree p st').mgr = (heapInit 0x800000 0x400000 heapBlank).mgr := by
  have hfacts : (heapInit 0x800000 0x400000 heapBlank).mgr.freeSize < 2 ^ 32 ∧
      findBestFit (roundSize 100) (heapInit 0x800000 0x400000 heapBlank) = some 0x800000 ∧
      roundSize 100 + 52 ≤ 0x3FFFEC := by decide +kernel
  obtain ⟨p, st', hm, -, hinv, -, hmgr⟩ := heapFree_undoes_heapMalloc _ _ heapInit_kernel hfacts.1
    100 ⟨0x800000, 0x3FFFEC, true⟩ (by simp) hfacts.2.1 hfacts.2.2
  exact ⟨p, st', hm, hinv, hmgr⟩

end AceOS.Kernel
