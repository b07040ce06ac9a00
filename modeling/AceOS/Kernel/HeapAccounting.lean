import AceOS.Kernel.HeapCoalesce
import AceOS.Kernel.HeapRealloc

/-!
# `free_size` and the list

`heap_malloc` takes the rounded size and one header off `free_size`, `heap_free` adds the size
of the block and one header.  The list of free blocks loses as much only if the block taken is
split, and gains as much only if the released block is merged with one neighbour.

* `takeBlock_freeBytes`, `heapFree_freeBytes`: what the two calls do to the free bytes.
* `takeBlock_wrapped`: after a split that underflows there is a block of nearly 4 GB.
* `heapStep_accounted`: a step keeps the account if and only if it is `Balanced`.
* `heapRun_accounted`: so does a run.
-/

namespace AceOS.Kernel

open Memory Segments

variable {st st' : HeapState} {bs xs ys : List Seg} {b c : Seg} {m : Mem} {size n : Nat}

/-! ### The list in memory -/

/-- The blocks from `current` on, as their headers have them. -/
def heapBlocksFrom : (fuel current : Nat) → Mem → List Seg
  | 0, _, _ => []
  | fuel + 1, current, m =>
      if current = 0 then []
      else ⟨current, blkSize m current, blkFree m current ≠ 0⟩
        :: heapBlocksFrom fuel (blkNext m current) m

def heapBlocks (st : HeapState) : List Seg := heapBlocksFrom walkFuel st.mgr.firstBlock st.mem

/-- A stretch of the list whose headers are in memory is read back. -/
theorem heapBlocksFrom_linked {p k : Nat} (xs : List Seg) (h : Linked (HeapHdr m) p xs k)
    (hpos : ∀ a ∈ xs, 0 < a.addr) (fuel : Nat) :
    heapBlocksFrom (fuel + xs.length) (headAddr xs k) m = xs ++ heapBlocksFrom fuel k m := by
  induction xs generalizing p with
  | nil => rfl
  | cons a xs ih =>
      have ha : header m a.addr = _ := h.1
      have hsize : blkSize m a.addr = a.size := congrArg Header.size ha
      have hnext : blkNext m a.addr = headAddr xs k := congrArg Header.next ha
      have hfree : decide (blkFree m a.addr ≠ 0) = a.free := by
        rw [show blkFree m a.addr = _ from congrArg Header.free ha]
        cases a.free <;> rfl
      have hpos' := hpos a (List.mem_cons_self ..)
      rw [List.length_cons, ← Nat.add_assoc, headAddr_cons, heapBlocksFrom, if_neg (by omega),
        hsize, hfree, hnext, ih h.2 fun d hd => hpos d (List.mem_cons_of_mem a hd)]
      rfl

theorem HeapRepr.heapBlocks_eq (h : HeapRepr st bs) : heapBlocks st = bs := by
  have hlen := h.length_lt
  obtain ⟨k, hk⟩ : ∃ k, walkFuel = (k + 1) + bs.length := ⟨walkFuel - 1 - bs.length, by
    rw [walkFuel]
    omega⟩
  rw [heapBlocks, h.first, hk,
    heapBlocksFrom_linked bs h.linked (fun a ha => (h.bounds ha).1) (k + 1)]
  exact List.append_nil bs

/-! ### What the calls do to the free bytes -/

/-- A block that is split gives up the size and a header, and one that is not the whole. -/
theorem takeBlock_freeBytes (h : HeapRepr st bs) (hc : c ∈ bs) (hcf : c.free = true)
    (hfit : size + 20 ≤ c.size) :
    freeBytes (heapBlocks (takeBlock c.addr size st))
      + (if size + 52 ≤ c.size then size + 20 else c.size) = freeBytes bs := by
  obtain ⟨xs, ys, rfl⟩ := List.append_of_mem hc
  have hbig : minAllocSize ≤ c.size - size - 20 ↔ size + 52 ≤ c.size := by
    rw [minAllocSize]
    omega
  rw [(takeBlock_repr h hcf hfit).heapBlocks_eq]
  simp only [splitHead, splitRest, hbig]
  split
  · simp [hcf]
    omega
  · simp [hcf]
    omega

/-- After a split that underflows the list has a free block of nearly 4 GB. -/
theorem takeBlock_wrapped (h : HeapRepr st bs) (hc : c ∈ bs) (hfit : size ≤ c.size)
    (hspare : c.size < size + 20) :
    4294967276 ≤ freeBytes (heapBlocks (takeBlock c.addr size st)) := by
  obtain ⟨xs, ys, rfl⟩ := List.append_of_mem hc
  obtain ⟨⟨-, -, -, hnext⟩, hsize, hfree⟩ := takeBlock_overlap h hfit hspare
  have hfirst : (takeBlock c.addr size st).mgr.firstBlock = headAddr xs c.addr := by
    rw [show (takeBlock c.addr size st).mgr.firstBlock = st.mgr.firstBlock by
      simp only [takeBlock, splitBlock]
      split <;> rfl, h.first, headAddr_append, headAddr_cons]
  -- the headers before the block are as they were
  have hlinked : Linked (HeapHdr (takeBlock c.addr size st).mem) 0 xs c.addr := by
    refine (linked_append.mp h.linked).1.imp ?_
    intro a ha p k hh
    have hbefore := h.before a ha
    refine hh.of_eq (takeBlock_intact h hc hfit (List.mem_append_left _ ha) ?_ (by omega))
    rintro rfl
    omega
  have hbounds := h.bounds hc
  have hlen := h.length_lt
  rw [List.length_append, List.length_cons] at hlen
  obtain ⟨k, hk⟩ : ∃ k, walkFuel = (k + 2) + xs.length := ⟨walkFuel - 2 - xs.length, by
    rw [walkFuel]
    omega⟩
  have hpos : ∀ a ∈ xs, 0 < a.addr := fun a ha => (h.bounds (List.mem_append_left _ ha)).1
  rw [heapBlocks, hfirst, hk, heapBlocksFrom_linked xs hlinked hpos (k + 2), heapBlocksFrom,
    if_neg (by omega), hnext, heapBlocksFrom, if_neg (by omega), hsize, hfree]
  simp only [freeBytes_append, freeBytes_cons]
  rw [if_pos (show decide (1 ≠ 0) = true from rfl)]
  omega

/-- `merge_free_blocks` finds the next block free. -/
def NextFree (st : HeapState) (block : Nat) : Prop :=
  blkNext st.mem block ≠ 0 ∧ blkFree st.mem (blkNext st.mem block) ≠ 0

/-- `merge_free_blocks` finds the previous block free. -/
def PrevFree (st : HeapState) (block : Nat) : Prop :=
  blkPrev st.mem block ≠ 0 ∧ blkFree st.mem (blkPrev st.mem block) ≠ 0

instance (st : HeapState) (block : Nat) : Decidable (NextFree st block) :=
  inferInstanceAs (Decidable (_ ∧ _))

instance (st : HeapState) (block : Nat) : Decidable (PrevFree st block) :=
  inferInstanceAs (Decidable (_ ∧ _))

theorem HeapRepr.free_iff (h : HeapRepr st bs) (hb : b ∈ bs) :
    blkFree st.mem b.addr ≠ 0 ↔ b.free = true := by
  rw [h.free_eq hb]
  cases b.free <;> simp

theorem HeapRepr.nextFree_iff (h : HeapRepr st (xs ++ b :: ys)) :
    NextFree st b.addr ↔ ∃ c ∈ ys.head?, c.free = true := by
  rw [NextFree, h.next_eq]
  cases ys with
  | nil => simp
  | cons c ys =>
      have hc : c ∈ xs ++ b :: c :: ys := by simp
      have hbounds := h.bounds hc
      simp only [headAddr_cons, h.free_iff hc]
      constructor
      · intro hn
        exact ⟨c, rfl, hn.2⟩
      · rintro ⟨d, hd, hdf⟩
        obtain rfl : c = d := Option.some.inj hd
        exact ⟨by omega, hdf⟩

theorem HeapRepr.prevFree_iff (h : HeapRepr st (xs ++ b :: ys)) :
    PrevFree st b.addr ↔ ∃ a ∈ xs.getLast?, a.free = true := by
  rw [PrevFree, h.prev_eq]
  rcases List.eq_nil_or_concat xs with rfl | ⟨xs, a, rfl⟩
  · simp
  · rw [List.concat_eq_append] at h ⊢
    have ha : a ∈ (xs ++ [a]) ++ b :: ys := by simp
    have hbounds := h.bounds ha
    simp only [lastAddr_concat, h.free_iff ha, List.getLast?_concat]
    constructor
    · intro hn
      exact ⟨a, rfl, hn.2⟩
    · rintro ⟨d, hd, hdf⟩
      obtain rfl : a = d := Option.some.inj hd
      exact ⟨by omega, hdf⟩

theorem mergeNext_freeBytes (h : HeapRepr st (xs ++ b :: ys)) (hb : b.free = true) :
    ∃ b' ys', HeapRepr (mergeNext b.addr st) (xs ++ b' :: ys') ∧ b'.addr = b.addr ∧
      b'.free = true ∧ b'.size + freeBytes ys'
        = b.size + freeBytes ys + if NextFree st b.addr then 20 else 0 := by
  by_cases hnext : NextFree st b.addr
  · obtain ⟨c, hc, hcf⟩ := h.nextFree_iff.mp hnext
    obtain ⟨cs, rfl⟩ := List.head?_eq_some_iff.mp hc
    rw [mergeNext_of_free h hcf, if_pos hnext]
    refine ⟨_, cs, absorbBlock_repr h hb hcf, rfl, hb, ?_⟩
    rw [freeBytes_cons, if_pos hcf]
    dsimp only
    omega
  · have hsame : mergeNext b.addr st = st := if_neg hnext
    rw [if_neg hnext, hsame]
    exact ⟨b, ys, h, rfl, hb, rfl⟩

/-- The merge with the previous block frees the header of the block. -/
theorem mergePrev_freeBytes (h : HeapRepr st (xs ++ b :: ys)) (hb : b.free = true) :
    freeBytes (heapBlocks (mergePrev b.addr st))
      = freeBytes xs + b.size + freeBytes ys + if PrevFree st b.addr then 20 else 0 := by
  by_cases hprev : PrevFree st b.addr
  · obtain ⟨a, ha, haf⟩ := h.prevFree_iff.mp hprev
    obtain ⟨us, rfl⟩ := List.getLast?_eq_some_iff.mp ha
    have h' : HeapRepr st (us ++ a :: b :: ys) := by simpa using h
    rw [mergePrev_of_free h' haf, (absorbBlock_repr h' haf hb).heapBlocks_eq, if_pos hprev]
    simp [haf]
    omega
  · have hsame : mergePrev b.addr st = st := if_neg hprev
    rw [if_neg hprev, hsame, h.heapBlocks_eq]
    simp [hb]
    omega

/-- A release adds the block, and a header for each free neighbour. -/
theorem heapFree_freeBytes (h : HeapRepr st bs) (hb : b ∈ bs) (hbf : b.free = false) :
    freeBytes (heapBlocks (heapFree (b.addr + 20) st)) = freeBytes bs + b.size
      + (if NextFree st b.addr then 20 else 0) + if PrevFree st b.addr then 20 else 0 := by
  obtain ⟨xs, ys, rfl⟩ := List.append_of_mem hb
  have hrelease := releaseBlock_repr h hbf
  obtain ⟨b', ys', hrepr, haddr, hf', hsum⟩ := mergeNext_freeBytes hrelease rfl
  dsimp only at hrepr haddr hsum
  have hprev := mergePrev_freeBytes hrepr hf'
  have hnextsame : NextFree (releaseBlock b.addr st) b.addr ↔ NextFree st b.addr := by
    rw [h.nextFree_iff, hrelease.nextFree_iff]
  have hprevsame : PrevFree (mergeNext b.addr (releaseBlock b.addr st)) b.addr
      ↔ PrevFree st b.addr := by
    have hmerged := hrepr.prevFree_iff
    rwa [haddr, ← h.prevFree_iff] at hmerged
  rw [haddr] at hprev
  simp only [hnextsame] at hsum
  simp only [hprevsame] at hprev
  rw [heapFree_of_used h hb hbf, mergeFreeBlocks, hprev]
  simp [hbf]
  omega

theorem heapFree_freeSize (h : HeapRepr st bs) (hb : b ∈ bs) (hbf : b.free = false) :
    (heapFree (b.addr + 20) st).mgr.freeSize
      = add32 st.mgr.freeSize (add32 b.size heapBlockSize) := by
  obtain ⟨xs, ys, rfl⟩ := List.append_of_mem hb
  have hsize := (releaseBlock_repr h hbf).size_eq (List.mem_append_right xs (List.mem_cons_self ..))
  rw [heapFree_of_used h hb hbf, (mergeFreeBlocks_mgr _ _).2]
  exact congrArg (fun k => add32 st.mgr.freeSize (add32 k heapBlockSize)) hsize

/-! ### One step -/

/-- Sizes are 32-bit values, only live pointers are freed, and stores stay in live payloads. -/
def HeapIssued : HeapOp → HeapRun → Prop
  | .malloc size, _ => size < 2 ^ 32
  | .free ptr, s => HeapAllowed (.free ptr) s
  | .write addr v, s => HeapAllowed (.write addr v) s

instance : ∀ (op : HeapOp) (s : HeapRun), Decidable (HeapIssued op s)
  | .malloc size, _ => inferInstanceAs (Decidable (size < 2 ^ 32))
  | .free ptr, s => inferInstanceAs (Decidable (HeapAllowed (.free ptr) s))
  | .write addr v, s => inferInstanceAs (Decidable (HeapAllowed (.write addr v) s))

/-- The block found for a request is split, or has exactly one header to spare; and exactly one
neighbour of a block that is freed is free. -/
def Balanced : HeapOp → HeapRun → Prop
  | .malloc size, s => size = 0 ∨ ∀ b ∈ findBestFit (roundSize size) s.heap, b ≠ 0 →
      blkSize s.heap.mem b = roundSize size + heapBlockSize ∨
        roundSize size + heapBlockSize + minAllocSize ≤ blkSize s.heap.mem b
  | .free ptr, s => ptr = 0 ∨
      ¬(NextFree s.heap (ptr - heapBlockSize) ↔ PrevFree s.heap (ptr - heapBlockSize))
  | .write _ _, _ => True

instance : ∀ (op : HeapOp) (s : HeapRun), Decidable (Balanced op s)
  | .malloc size, s => inferInstanceAs (Decidable (size = 0 ∨
      ∀ b ∈ findBestFit (roundSize size) s.heap, b ≠ 0 →
        blkSize s.heap.mem b = roundSize size + heapBlockSize ∨
          roundSize size + heapBlockSize + minAllocSize ≤ blkSize s.heap.mem b))
  | .free ptr, s => inferInstanceAs (Decidable (ptr = 0 ∨
      ¬(NextFree s.heap (ptr - heapBlockSize) ↔ PrevFree s.heap (ptr - heapBlockSize))))
  | .write _ _, _ => isTrue trivial

/-- `free_size` is the free bytes of the list, at most the whole heap, and what it was at the
start when nothing is live. -/
structure Accounted (initial : Nat) (s : HeapRun) : Prop where
  balance : s.heap.mgr.freeSize = freeBytes (heapBlocks s.heap)
  bounded : s.heap.mgr.freeSize ≤ s.heap.mgr.totalSize
  restored : s.live = ∅ → s.heap.mgr.freeSize = initial

/-- A well-formed heap whose `total_size` is right. -/
structure HeapCounted (lo hi : Nat) (s : HeapRun) : Prop extends HeapWellFormed lo hi s where
  total : s.heap.mgr.totalSize = hi - lo

variable {lo hi : Nat} {s : HeapRun}

theorem HeapCounted.accounted_iff (h : HeapCounted lo hi s) :
    Accounted (hi - lo - 20) s ↔ s.heap.mgr.freeSize = freeBytes (heapBlocks s.heap) := by
  refine ⟨Accounted.balance, fun hbal => ⟨hbal, ?_, ?_⟩⟩
  all_goals
    obtain ⟨bs, hinv, hlive⟩ := h.segments
    have htiles := hinv.tiles
    rw [h.start_eq, h.end_eq] at htiles
    rw [hbal, hinv.heapBlocks_eq]
  · have := htiles.freeBytes_le
    rw [h.total]
    omega
  · intro hempty
    have hfree : ∀ b ∈ bs, b.free = true := by
      intro b hb
      by_contra hf
      have hp : b.addr + 20 ∈ s.live := (hlive _).mpr ⟨b, hb, by simpa using hf, rfl⟩
      rw [hempty] at hp
      exact absurd hp (Finset.notMem_empty _)
    have hwhole : Coalesced ([] ++ (bs ++ [])) := by simpa using hinv.coalesced
    rcases hwhole.stretch hfree with rfl | ⟨b, rfl⟩
    · exact absurd rfl hinv.nonempty
    · obtain ⟨haddr, hend⟩ := htiles
      rw [tiles_nil] at hend
      simp only [freeBytes_cons, freeBytes_nil, hfree b (List.mem_singleton_self b), if_true]
      omega

theorem heapStep_totalSize {op : HeapOp} {o : Nat} {t : HeapRun}
    (h : heapStep op s = some (o, t)) : t.heap.mgr.totalSize = s.heap.mgr.totalSize := by
  cases op with
  | malloc size =>
      obtain ⟨r, hr, he⟩ := Option.map_eq_some_iff.mp h
      rw [Prod.mk.injEq] at he
      rw [← he.2]
      simp only [heapMalloc] at hr
      split at hr
      · obtain rfl := Option.some.inj hr
        rfl
      split at hr
      · obtain rfl := Option.some.inj hr
        rfl
      split at hr
      · exact absurd hr (by simp)
      split at hr
      · obtain rfl := Option.some.inj hr
        rfl
      · obtain rfl := Option.some.inj hr
        exact (takeBlock_mgr _ _ _).1
  | free ptr =>
      obtain ⟨-, rfl⟩ := Prod.mk.injEq .. ▸ Option.some.inj h
      simp only [heapFree]
      split
      · rfl
      split
      · rfl
      · exact (mergeFreeBlocks_mgr _ _).1
  | write addr v =>
      obtain ⟨-, rfl⟩ := Prod.mk.injEq .. ▸ Option.some.inj h
      rfl

/-- A request counts only through its rounded size. -/
theorem heapMalloc_congr {n n' : Nat} (hn : n ≠ 0) (hn' : n' ≠ 0)
    (h : roundSize n = roundSize n') (st : HeapState) : heapMalloc n st = heapMalloc n' st := by
  rw [heapMalloc, heapMalloc, if_neg hn, if_neg hn', h]

/-- The heap stays well formed unless a request meets a block with less than a header to
spare. -/
theorem heapStep_counted (h : HeapCounted lo hi s) {op : HeapOp} (hop : HeapIssued op s)
    (hroomy : HeapRoomy op s) : ∃ o t, heapStep op s = some (o, t) ∧ HeapCounted lo hi t := by
  have hstep : ∃ o t, heapStep op s = some (o, t) ∧ HeapWellFormed lo hi t := by
    cases op with
    | malloc n =>
        by_cases hn : n ≤ 0xFFFFFFF8
        · exact heapStep_wellFormed h.toHeapWellFormed hn hroomy
        · -- the rounding of the last sizes has wrapped around to that of one byte
          have hwrap : roundSize n = roundSize 1 := by
            rw [HeapIssued] at hop
            rw [roundSize_eq (by omega), roundSize_eq (by decide)]
            omega
          have hone : HeapRoomy (.malloc 1) s := by
            refine Or.inr ?_
            rw [Roomy, ← hwrap]
            exact hroomy.resolve_left (by omega)
          have := heapStep_wellFormed h.toHeapWellFormed
            (show HeapAllowed (.malloc 1) s from (by decide : 1 ≤ 0xFFFFFFF8)) hone
          rwa [heapStep, ← heapMalloc_congr (by omega) (by decide) hwrap] at this
    | free ptr => exact heapStep_wellFormed h.toHeapWellFormed hop hroomy
    | write addr v => exact heapStep_wellFormed h.toHeapWellFormed hop hroomy
  obtain ⟨o, t, ht, hwf⟩ := hstep
  exact ⟨o, t, ht, hwf, (heapStep_totalSize ht).trans h.total⟩

/-- A request that finds the block `c` with room for a header. -/
theorem heapStep_malloc_balance (h : HeapCounted lo hi s) (hinv : HeapInv s.heap bs)
    (hacc : s.heap.mgr.freeSize = freeBytes bs) (hn0 : n ≠ 0) (hn : n < 4294967296) (hc : c ∈ bs)
    (hcf : c.free = true) (hfit : findBestFit (roundSize n) s.heap = some c.addr)
    (hspare : roundSize n + 20 ≤ c.size) :
    ∃ o t, heapStep (.malloc n) s = some (o, t) ∧ HeapCounted lo hi t ∧
      (t.heap.mgr.freeSize = freeBytes (heapBlocks t.heap) ↔
        c.size = roundSize n + 20 ∨ roundSize n + 52 ≤ c.size) := by
  have hroomy : Roomy s.heap n := by
    by_contra hno
    obtain ⟨d, hd, -, hfit', -, hlt⟩ := cramped_of_not_roomy hinv hno
    have haddr : c.addr = d.addr := Option.some.inj (hfit.symm.trans hfit')
    have hcd := hinv.tiles.eq_of_addr (by decide) hc hd haddr
    subst hcd
    omega
  obtain ⟨o, t, ht, hcounted⟩ := heapStep_counted h
    (show HeapIssued (.malloc n) s from hn) (Or.inr hroomy)
  refine ⟨o, t, ht, hcounted, ?_⟩
  rw [heapStep, heapMalloc_of_fit hinv.toHeapRepr hc hn0 hfit, Option.map_some,
    Option.some.injEq, Prod.mk.injEq] at ht
  rw [← ht.2]
  have hround := roundSize_bounds hn
  have hbytes := takeBlock_freeBytes hinv.toHeapRepr hc hcf hspare
  have hbound := hinv.tiles.freeBytes_le
  have hend := hinv.end_lt
  have hle : roundSize n + 20 ≤ freeBytes bs := by
    split at hbytes <;> omega
  dsimp only
  rw [(takeBlock_mgr _ _ _).2, hacc, heapBlockSize, add32_of_lt (by omega),
    sub32_of_le (by omega) hle]
  split at hbytes <;> omega

/-- A request that finds the block `c` without room for a header leaves a block in the list
that is larger than the heap. -/
theorem heapStep_malloc_wrapped (h : HeapCounted lo hi s) (hinv : HeapInv s.heap bs) (hn0 : n ≠ 0)
    (hc : c ∈ bs) (hfit : findBestFit (roundSize n) s.heap = some c.addr)
    (hle : roundSize n ≤ c.size) (hlt : c.size < roundSize n + 20) :
    ∃ o t, heapStep (.malloc n) s = some (o, t) ∧
      (hi - lo < 4294967276 → ¬Accounted (hi - lo - 20) t) := by
  refine ⟨c.addr + 20, ⟨takeBlock c.addr (roundSize n) s.heap, insert (c.addr + 20) s.live⟩,
    ?_, fun hsmall hacc' => ?_⟩
  · rw [heapStep, heapMalloc_of_fit hinv.toHeapRepr hc hn0 hfit]
    simp
  · have hwrapped := takeBlock_wrapped hinv.toHeapRepr hc hle (by omega)
    have hbound := hacc'.bounded
    rw [hacc'.balance] at hbound
    dsimp only at hbound
    rw [(takeBlock_mgr _ _ _).1, h.total] at hbound
    omega

/-- A release keeps the balance when it merges the block with one neighbour. -/
theorem heapStep_free_balance (h : HeapCounted lo hi s) (hinv : HeapInv s.heap bs)
    (hacc : s.heap.mgr.freeSize = freeBytes bs) (hb : b ∈ bs) (hbf : b.free = false)
    (hlive : b.addr + 20 ∈ s.live) :
    ∃ o t, heapStep (.free (b.addr + 20)) s = some (o, t) ∧ HeapCounted lo hi t ∧
      (t.heap.mgr.freeSize = freeBytes (heapBlocks t.heap) ↔
        Balanced (.free (b.addr + 20)) s) := by
  obtain ⟨o, t, ht, hcounted⟩ := heapStep_counted h
    (show HeapIssued (.free (b.addr + 20)) s from Or.inr hlive) trivial
  refine ⟨o, t, ht, hcounted, ?_⟩
  obtain ⟨-, rfl⟩ := Prod.mk.injEq .. ▸ Option.some.inj ht
  have hbytes := heapFree_freeBytes hinv.toHeapRepr hb hbf
  have hsize := heapFree_freeSize hinv.toHeapRepr hb hbf
  have hroom : freeBytes bs + b.size + 20 < 4294967296 := by
    obtain ⟨xs, ys, rfl⟩ := List.append_of_mem hb
    have hrelease := (releaseBlock_repr hinv.toHeapRepr hbf).tiles.freeBytes_le
    have hend := (releaseBlock_repr hinv.toHeapRepr hbf).end_lt
    simp [hbf] at hrelease ⊢
    omega
  rw [hacc, heapBlockSize, add32_of_lt (a := b.size) (by omega), add32_of_lt (by omega)] at hsize
  rw [Balanced, or_iff_right (by omega), heapBlockSize, Nat.add_sub_cancel]
  dsimp only
  rw [hsize, hbytes]
  by_cases hnext : NextFree s.heap b.addr <;> by_cases hprev : PrevFree s.heap b.addr <;>
    simp [hnext, hprev] <;> omega

theorem heapStep_write_balance (h : HeapCounted lo hi s) (hinv : HeapInv s.heap bs)
    (hlive : ∀ ptr ∈ s.live, ∃ b ∈ bs, ptr = b.addr + 20)
    (hacc : s.heap.mgr.freeSize = freeBytes bs) (hop : HeapIssued (.write addr v) s) :
    ∃ o t, heapStep (.write addr v) s = some (o, t) ∧ HeapCounted lo hi t ∧
      t.heap.mgr.freeSize = freeBytes (heapBlocks t.heap) := by
  obtain ⟨o, t, ht, hcounted⟩ := heapStep_counted h hop trivial
  refine ⟨o, t, ht, hcounted, ?_⟩
  obtain ⟨-, rfl⟩ := Prod.mk.injEq .. ▸ Option.some.inj ht
  obtain ⟨p, hp, h₁, h₂⟩ := hop
  obtain ⟨b, hb, rfl⟩ := hlive p hp
  rw [heapBlockSize, Nat.add_sub_cancel, hinv.size_eq hb] at h₂
  have hwrite : HeapInv { s.heap with mem := store8 s.heap.mem addr v } bs :=
    hinv.store8 hb h₁ h₂
  exact hacc.trans (congrArg freeBytes hwrite.heapBlocks_eq.symm)

/-- **One step** that keeps the account balanced also keeps the heap well formed, and a step
that is not balanced spoils the account. -/
theorem heapStep_accounted (h : HeapCounted lo hi s) (hacc : Accounted (hi - lo - 20) s)
    {op : HeapOp} (hop : HeapIssued op s) :
    ∃ o t, heapStep op s = some (o, t) ∧
      (Balanced op s → HeapCounted lo hi t ∧ Accounted (hi - lo - 20) t) ∧
      (hi - lo < 4294967276 → Accounted (hi - lo - 20) t → Balanced op s) := by
  obtain ⟨bs, hinv, hlive⟩ := h.segments
  have hbal := hacc.balance
  rw [hinv.heapBlocks_eq] at hbal
  cases op with
  | malloc n =>
      by_cases hn0 : n = 0
      · refine ⟨0, s, ?_, fun _ => ⟨h, hacc⟩, fun _ _ => Or.inl hn0⟩
        rw [heapStep, heapMalloc_of_full hinv.toHeapRepr (Or.inl hn0)]
        rfl
      obtain ⟨r, hr, hcase⟩ := findBestFit_spec hinv.toHeapRepr (roundSize n)
      rcases hcase with ⟨rfl, -⟩ | ⟨c, hc, hcf, hle, rfl, -⟩
      · -- no block is large enough
        refine ⟨0, s, ?_, fun _ => ⟨h, hacc⟩, fun _ _ => Or.inr ?_⟩
        · rw [heapStep, heapMalloc_of_full hinv.toHeapRepr (Or.inr hr)]
          rfl
        · intro b hb hb0
          rw [hr, Option.mem_some_iff] at hb
          exact absurd hb.symm hb0
      have hbounds := hinv.bounds hc
      have hiff : Balanced (.malloc n) s ↔
          c.size = roundSize n + 20 ∨ roundSize n + 52 ≤ c.size := by
        rw [Balanced, or_iff_right hn0, hr]
        simp only [Option.mem_some_iff, forall_eq', hinv.size_eq hc, heapBlockSize, minAllocSize]
        constructor
        · intro hall
          have := hall (by omega)
          omega
        · intro hsize _
          omega
      rw [hiff]
      by_cases hspare : roundSize n + 20 ≤ c.size
      · obtain ⟨o, t, ht, hcounted, hbalance⟩ :=
          heapStep_malloc_balance h hinv hbal hn0 hop hc hcf hr hspare
        refine ⟨o, t, ht, fun hb => ⟨hcounted, ?_⟩, fun _ hacc' => hbalance.mp hacc'.balance⟩
        exact hcounted.accounted_iff.mpr (hbalance.mpr hb)
      · obtain ⟨o, t, ht, hspoilt⟩ :=
          heapStep_malloc_wrapped h hinv hn0 hc hr hle (Nat.lt_of_not_le hspare)
        refine ⟨o, t, ht, fun hb => ?_, fun hsmall hacc' => absurd hacc' (hspoilt hsmall)⟩
        omega
  | free ptr =>
      rcases hop with rfl | hp
      · obtain ⟨o, t, ht, hcounted⟩ := heapStep_counted h
          (show HeapIssued (.free 0) s from Or.inl rfl) trivial
        obtain ⟨-, rfl⟩ := Prod.mk.injEq .. ▸ Option.some.inj ht
        have herase : Accounted (hi - lo - 20) ⟨heapFree 0 s.heap, s.live.erase 0⟩ :=
          hcounted.accounted_iff.mpr hacc.balance
        exact ⟨_, _, ht, fun _ => ⟨hcounted, herase⟩, fun _ _ => Or.inl rfl⟩
      · obtain ⟨b, hb, hbf, rfl⟩ := (hlive ptr).mp hp
        obtain ⟨o, t, ht, hcounted, hbalance⟩ := heapStep_free_balance h hinv hbal hb hbf hp
        refine ⟨o, t, ht, fun hb => ⟨hcounted, ?_⟩, fun _ hacc' => hbalance.mp hacc'.balance⟩
        exact hcounted.accounted_iff.mpr (hbalance.mpr hb)
  | write addr v =>
      have hblocks : ∀ ptr ∈ s.live, ∃ b ∈ bs, ptr = b.addr + 20 := by
        intro ptr hp
        obtain ⟨b, hb, -, rfl⟩ := (hlive ptr).mp hp
        exact ⟨b, hb, rfl⟩
      obtain ⟨o, t, ht, hcounted, hbalance⟩ := heapStep_write_balance h hinv hblocks hbal hop
      exact ⟨o, t, ht, fun _ => ⟨hcounted, hcounted.accounted_iff.mpr hbalance⟩, fun _ _ => trivial⟩

/-! ### Runs -/

theorem heapInit_sizes (st : HeapState) {start size : Nat} (hwrap : start + size < 4294967296)
    (hroom : (start + 15) / 16 * 16 + 52 ≤ start + size) :
    (heapInit start size st).mgr.totalSize = start + size - (start + 15) / 16 * 16 ∧
      (heapInit start size st).mgr.freeSize = start + size - (start + 15) / 16 * 16 - 20 := by
  obtain ⟨halign, hsize⟩ := heapInit_aligned hwrap hroom
  simp only [heapInit, halign, hsize, heapBlockSize]
  exact ⟨trivial, sub32_of_le (by omega) (by omega)⟩

/-- **`free_size` over a whole run.**  In a run of balanced steps from `heap_init` it is the
free bytes of the list in every state; and in a heap short of 4 GB a run in which it is so
takes balanced steps only. -/
theorem heapRun_accounted (st : HeapState) (start size : Nat) (hstart : 0 < start)
    (hwrap : start + size < 4294967296) (hroom : (start + 15) / 16 * 16 + 52 ≤ start + size)
    (ops : List HeapOp)
    (hops : Machine.Meets heapStep HeapIssued ops ⟨heapInit start size st, ∅⟩) :
    (Machine.Meets heapStep Balanced ops ⟨heapInit start size st, ∅⟩ →
      ∀ k, ∃ os s, Machine.run heapStep (ops.take k) ⟨heapInit start size st, ∅⟩ = some (os, s) ∧
        Accounted (heapInit start size st).mgr.freeSize s) ∧
    (size < 0xFFFFFFEC →
      (∀ k os s, Machine.run heapStep (ops.take k) ⟨heapInit start size st, ∅⟩ = some (os, s) →
        Accounted (heapInit start size st).mgr.freeSize s) →
      Machine.Meets heapStep Balanced ops ⟨heapInit start size st, ∅⟩) := by
  obtain ⟨⟨b, hinv, hbf⟩, hlo, hhi⟩ := heapInit_inv st start size hstart hwrap hroom
  obtain ⟨htotal, hfree⟩ := heapInit_sizes st hwrap hroom
  generalize hlow : (start + 15) / 16 * 16 = lo at *
  have hcounted : HeapCounted lo (start + size) ⟨heapInit start size st, ∅⟩ :=
    ⟨⟨hlo, hhi, [b], hinv, fun p => by simp [hbf]⟩, htotal⟩
  have hacc : Accounted (start + size - lo - 20) ⟨heapInit start size st, ∅⟩ := by
    refine hcounted.accounted_iff.mpr ?_
    have hb := hinv.tiles
    rw [hlo, hhi] at hb
    obtain ⟨haddr, hend⟩ := hb
    rw [tiles_nil] at hend
    rw [hinv.heapBlocks_eq, hfree]
    simp [hbf]
    omega
  rw [hfree]
  constructor
  · intro hbalanced k
    obtain ⟨os, s, hrun, -, hs⟩ := Machine.run_total (I := fun s =>
        HeapCounted lo (start + size) s ∧ Accounted (start + size - lo - 20) s) (by
      rintro op s ⟨hc, ha⟩ ⟨hop, hb⟩
      obtain ⟨o, t, ht, hkeep, -⟩ := heapStep_accounted hc ha hop
      exact ⟨o, t, ht, hkeep hb⟩) ⟨hcounted, hacc⟩
      ((Machine.meets_and.mpr ⟨hops, hbalanced⟩).take k)
    exact ⟨os, s, hrun, hs⟩
  · intro hsmall
    refine Machine.meets_of_inv (K := fun s =>
        HeapCounted lo (start + size) s ∧ Accounted (start + size - lo - 20) s) ?_
      ⟨hcounted, hacc⟩ hops
    rintro op s ⟨hc, ha⟩ hop
    obtain ⟨o, t, ht, hkeep, hback⟩ := heapStep_accounted hc ha hop
    refine ⟨o, t, ht, fun hacc' => ?_⟩
    have hb := hback (by omega) hacc'
    exact ⟨hb, hkeep hb⟩

theorem heapRun_accounted_kernel :
    ∃ os s, Machine.run heapStep [.malloc 100, .write 0x800020 7, .free 0x800014]
        ⟨heapInit 0x800000 0x400000 heapBlank, ∅⟩ = some (os, s) ∧
      Accounted (heapInit 0x800000 0x400000 heapBlank).mgr.freeSize s := by
  have hops : Machine.Meets heapStep (fun op s => HeapIssued op s ∧ Balanced op s)
      [.malloc 100, .write 0x800020 7, .free 0x800014]
      ⟨heapInit 0x800000 0x400000 heapBlank, ∅⟩ := by decide +kernel
  obtain ⟨hissued, hbalanced⟩ := Machine.meets_and.mp hops
  exact (heapRun_accounted heapBlank 0x800000 0x400000 (by decide) (by decide) (by decide) _
    hissued).1 hbalanced 3

/-- Two blocks are taken and the first is freed: `free_size` is a header more than the free
bytes of the list. -/
theorem heapRun_unaccounted :
    Machine.Meets heapStep HeapIssued [.malloc 100, .malloc 100, .free 0x800014]
        ⟨heapInit 0x800000 0x400000 heapBlank, ∅⟩ ∧
      ∃ os s, Machine.run heapStep [.malloc 100, .malloc 100, .free 0x800014]
          ⟨heapInit 0x800000 0x400000 heapBlank, ∅⟩ = some (os, s) ∧
        s.heap.mgr.freeSize = freeBytes (heapBlocks s.heap) + 20 ∧
        ¬Accounted (heapInit 0x800000 0x400000 heapBlank).mgr.freeSize s := by
  have hfacts : Machine.Meets heapStep HeapIssued [.malloc 100, .malloc 100, .free 0x800014]
        ⟨heapInit 0x800000 0x400000 heapBlank, ∅⟩ ∧
      (Machine.run heapStep [.malloc 100, .malloc 100, .free 0x800014]
        ⟨heapInit 0x800000 0x400000 heapBlank, ∅⟩).map (fun r =>
          decide (r.2.heap.mgr.freeSize = freeBytes (heapBlocks r.2.heap) + 20)) = some true := by
    decide +kernel
  obtain ⟨hissued, hrun⟩ := hfacts
  obtain ⟨⟨os, s⟩, hs, hmore⟩ := Option.map_eq_some_iff.mp hrun
  have hmore := of_decide_eq_true hmore
  refine ⟨hissued, os, s, hs, hmore, fun hacc => ?_⟩
  have := hacc.balance
  dsimp only at hmore
  omega

end AceOS.Kernel
