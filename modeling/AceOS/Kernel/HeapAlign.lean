import AceOS.Kernel.HeapRun

/-!
# Alignment of kernel heap pointers (`src/kernel/heap.c`)

Sizes are rounded to multiples of 8 and the first block is aligned to 16, but a header has 20
bytes: the first pointer handed out is 4 beyond a multiple of 8 (`heapMalloc_fresh`).  Until then
there is nothing to release, and a request that is refused changes nothing, so every pointer of a
run is aligned if and only if every request of the run is refused (`heapRun_aligned_iff`).
-/

namespace AceOS.Kernel

open Memory Machine

/-- Every request, releases of live pointers, and stores into live payloads. -/
def OwnsPointers : HeapOp → HeapRun → Prop
  | .malloc _, _ => True
  | .free ptr, s => ptr = 0 ∨ ptr ∈ s.live
  | .write addr _, s => ∃ p ∈ s.live, p ≤ addr ∧ addr < p + blkSize s.heap.mem (p - heapBlockSize)

instance : ∀ (op : HeapOp) (s : HeapRun), Decidable (OwnsPointers op s)
  | .malloc _, _ => inferInstanceAs (Decidable True)
  | .free ptr, s => inferInstanceAs (Decidable (ptr = 0 ∨ ptr ∈ s.live))
  | .write addr _, s => inferInstanceAs (Decidable
      (∃ p ∈ s.live, p ≤ addr ∧ addr < p + blkSize s.heap.mem (p - heapBlockSize)))

/-- In every part of the run that returns, the pointers other than `NULL` are multiples of 8. -/
def AlignedPointers (ops : List HeapOp) (s : HeapRun) : Prop :=
  ∀ k os s', run heapStep (ops.take k) s = some (os, s') → ∀ p ∈ os, p ≠ 0 → 8 ∣ p

/-- A heap as `heap_init` leaves it has a block for the request. -/
def Servable (start size n : Nat) : Prop :=
  start ≠ 0 ∧ n ≠ 0 ∧ roundSize n ≤ sub32 size heapBlockSize ∧ sub32 size heapBlockSize < sizeMax

instance (start size n : Nat) : Decidable (Servable start size n) :=
  inferInstanceAs (Decidable (_ ∧ _))

section Fresh

variable {st : HeapState} {start size : Nat}

theorem header_heapInit (halign : 16 ∣ start) (hsize : size < 4294967296) :
    (heapInit start size st).mgr.firstBlock = start ∧
      header (heapInit start size st).mem start
        = ⟨sub32 size heapBlockSize, 1, heapMagicFree, 0, 0⟩ := by
  have hup : memoryAlignUp start 16 = start := by
    rw [memoryAlignUp, if_neg (by decide)]
    exact if_pos (Nat.mod_eq_zero_of_dvd halign)
  have hfull : sub32 size (sub32 start start) = size := by
    rw [sub32, sub32]
    omega
  have hlt : sub32 size heapBlockSize < 4294967296 := by
    rw [sub32]
    exact Nat.mod_lt _ (by decide)
  refine ⟨hup, ?_⟩
  simp only [heapInit, hup, hfull]
  simp (disch := omega) only [header_setBlkSize_self, header_setBlkFree_self,
    header_setBlkMagic_self, header_setBlkNext_self, header_setBlkPrev_self, heapMagicFree]

theorem findBestFitLoop_single {m : Mem} {a : Nat} (ha : a ≠ 0) (hfree : blkFree m a ≠ 0)
    (hnext : blkNext m a = 0) (n fuel : Nat) :
    findBestFitLoop m n (fuel + 2) a 0 sizeMax
      = some (if n ≤ blkSize m a ∧ blkSize m a < sizeMax then a else 0) := by
  rw [findBestFitLoop, if_neg ha, hnext]
  by_cases hfit : n ≤ blkSize m a ∧ blkSize m a < sizeMax
  · rw [if_pos ⟨hfree, hfit⟩, if_pos hfit]
    split
    · rfl
    · rw [findBestFitLoop, if_pos rfl]
  · rw [if_neg fun h => hfit h.2, if_neg hfit, findBestFitLoop, if_pos rfl]

/-- **The first request** that is not refused gets the first block. -/
theorem heapMalloc_fresh (halign : 16 ∣ start) (hsize : size < 4294967296) (n : Nat) :
    (¬Servable start size n ∧
      heapMalloc n (heapInit start size st) = some (0, heapInit start size st)) ∨
    (Servable start size n ∧ ∃ st', heapMalloc n (heapInit start size st)
      = some (add32 start heapBlockSize, st')) := by
  obtain ⟨hfirst, hhdr⟩ := @header_heapInit st start size halign hsize
  have hblk : blkSize (heapInit start size st).mem start = sub32 size heapBlockSize :=
    congrArg Header.size hhdr
  have hfree : blkFree (heapInit start size st).mem start = 1 := congrArg Header.free hhdr
  have hnext : blkNext (heapInit start size st).mem start = 0 := congrArg Header.next hhdr
  have hinit : (heapInit start size st).initialized = true := rfl
  have hfuel : walkFuel = 4294967294 + 2 := rfl
  rw [heapMalloc, hinit, Bool.not_true, if_neg Bool.false_ne_true, findBestFit, hfirst]
  by_cases hn : n = 0
  · exact Or.inl ⟨fun h => h.2.1 hn, if_pos hn⟩
  · rw [if_neg hn]
    by_cases hnull : start = 0
    · -- the block is at `NULL`, where the list is empty
      refine Or.inl ⟨fun h => h.1 hnull, ?_⟩
      rw [hnull, hfuel, findBestFitLoop, if_pos rfl]
      rfl
    · rw [hfuel, findBestFitLoop_single hnull (by rw [hfree]; decide) hnext, hblk]
      by_cases hfit : roundSize n ≤ sub32 size heapBlockSize ∧ sub32 size heapBlockSize < sizeMax
      · rw [if_pos hfit]
        dsimp only
        rw [if_neg hnull]
        exact Or.inr ⟨⟨hnull, hn, hfit⟩, _, rfl⟩
      · rw [if_neg hfit]
        exact Or.inl ⟨fun h => hfit h.2.2, rfl⟩

end Fresh

/-! ### Runs -/

section Runs

variable {ops : List HeapOp} {s : HeapRun}

/-- A call that returns `NULL` or nothing and changes nothing. -/
theorem alignedPointers_cons_of_idle {op : HeapOp} (h : heapStep op s = some (0, s)) :
    AlignedPointers (op :: ops) s ↔ AlignedPointers ops s := by
  constructor
  · intro ha k os s' hrun p hp hne
    refine ha (k + 1) (0 :: os) s' ?_ p (List.mem_cons_of_mem 0 hp) hne
    rw [List.take_succ_cons]
    exact run_cons_some.mpr ⟨0, s, os, h, hrun, rfl⟩
  · intro ha k os s' hrun p hp hne
    cases k with
    | zero =>
        rw [List.take_zero, run_nil, Option.some.injEq, Prod.mk.injEq] at hrun
        rw [← hrun.1] at hp
        exact absurd hp List.not_mem_nil
    | succ k =>
        rw [List.take_succ_cons] at hrun
        obtain ⟨o, t, os', hstep, hrest, rfl⟩ := run_cons_some.mp hrun
        obtain ⟨rfl, rfl⟩ := Prod.mk.inj (Option.some.inj (h.symm.trans hstep))
        rcases List.mem_cons.mp hp with rfl | hp
        · exact absurd rfl hne
        · exact ha k os' s' hrest p hp hne

theorem not_alignedPointers_cons {op : HeapOp} {s' : HeapRun} {p : Nat}
    (h : heapStep op s = some (p, s')) (hp : p ≠ 0) (hp' : ¬8 ∣ p) :
    ¬AlignedPointers (op :: ops) s := by
  intro ha
  have hrun := run_cons_some.mpr ⟨p, s', [], h, run_nil s', rfl⟩
  exact hp' (ha 1 [p] s' hrun p List.mem_cons_self hp)

variable {start size : Nat}

/-- **Every pointer of a run is a multiple of 8** if and only if every request is refused: the
first one that is not gets the first block, whose payload is behind 20 bytes of header. -/
theorem heapRun_aligned_iff (st : HeapState) (halign : 16 ∣ start) (hsize : size < 4294967296)
    (hops : Meets heapStep OwnsPointers ops ⟨heapInit start size st, ∅⟩) :
    AlignedPointers ops ⟨heapInit start size st, ∅⟩ ↔
      ∀ n, HeapOp.malloc n ∈ ops → ¬Servable start size n := by
  induction ops with
  | nil =>
      refine iff_of_true (fun k os s' hrun p hp => ?_) (fun n hn => absurd hn List.not_mem_nil)
      rw [List.take_nil, run_nil, Option.some.injEq, Prod.mk.injEq] at hrun
      rw [← hrun.1] at hp
      exact absurd hp List.not_mem_nil
  | cons op ops ih =>
      cases op with
      | malloc n =>
          rcases @heapMalloc_fresh st start size halign hsize n with
            ⟨hrefused, h⟩ | ⟨hserved, st', h⟩
          · have hidle : heapStep (.malloc n) ⟨heapInit start size st, ∅⟩
                = some (0, ⟨heapInit start size st, ∅⟩) := by
              rw [heapStep, h]
              rfl
            rw [alignedPointers_cons_of_idle hidle, ih ((meets_cons_of_step hidle).mp hops).2]
            constructor
            · intro hall k hk
              rcases List.mem_cons.mp hk with heq | hk
              · rwa [HeapOp.malloc.inj heq]
              · exact hall k hk
            · exact fun hall k hk => hall k (List.mem_cons_of_mem _ hk)
          · have hptr : add32 start heapBlockSize ≠ 0 ∧ ¬8 ∣ add32 start heapBlockSize := by
              rw [add32, heapBlockSize]
              omega
            have hstep : heapStep (.malloc n) ⟨heapInit start size st, ∅⟩
                = some (add32 start heapBlockSize, ⟨st', {add32 start heapBlockSize}⟩) := by
              rw [heapStep, h, Option.map_some, if_neg hptr.1]
              rfl
            exact iff_of_false (not_alignedPointers_cons hstep hptr.1 hptr.2)
              fun hall => hall n List.mem_cons_self hserved
      | free ptr =>
          have hptr : ptr = 0 := hops.1.resolve_right (Finset.notMem_empty ptr)
          have hidle : heapStep (.free ptr) ⟨heapInit start size st, ∅⟩
              = some (0, ⟨heapInit start size st, ∅⟩) := by
            rw [hptr]
            rfl
          rw [alignedPointers_cons_of_idle hidle, ih ((meets_cons_of_step hidle).mp hops).2]
          refine forall_congr' fun n => ?_
          rw [List.mem_cons, or_iff_right HeapOp.noConfusion]
      | write addr v =>
          -- there is no payload to write to yet
          obtain ⟨p, hp, -⟩ := hops.1
          exact absurd hp (Finset.notMem_empty p)

end Runs

theorem heapRun_aligned_kernel :
    AlignedPointers [.malloc 100, .free 0] ⟨heapInit 0x800000 0x400000 heapBlank, ∅⟩ ↔
      ∀ n, HeapOp.malloc n ∈ [HeapOp.malloc 100, .free 0] →
        ¬Servable 0x800000 0x400000 n :=
  heapRun_aligned_iff heapBlank (by decide) (by decide)
    ⟨trivial, fun _ _ _ => ⟨Or.inl rfl, fun _ _ _ => trivial⟩⟩

/-- The first pointer of the kernel's heap is `0x800014`. -/
theorem heapRun_misaligned : 16 ∣ 0x800000 ∧
    Meets heapStep OwnsPointers [.malloc 100] ⟨heapInit 0x800000 0x400000 heapBlank, ∅⟩ ∧
    (∃ s, run heapStep [.malloc 100] ⟨heapInit 0x800000 0x400000 heapBlank, ∅⟩
      = some ([0x800014], s)) ∧ 0x800014 ≠ 0 ∧ ¬8 ∣ 0x800014 := by
  have hserved : Servable 0x800000 0x400000 100 := by decide +kernel
  have hptr : add32 0x800000 heapBlockSize = 0x800014 := by decide +kernel
  obtain ⟨st', h⟩ := ((@heapMalloc_fresh heapBlank 0x800000 0x400000 (by decide) (by decide)
    100).resolve_left fun hrefused => hrefused.1 hserved).2
  rw [hptr] at h
  refine ⟨by decide, ⟨trivial, fun _ _ _ => trivial⟩, ⟨⟨st', {0x800014}⟩, ?_⟩, by decide,
    by decide⟩
  refine run_cons_some.mpr ⟨0x800014, _, [], ?_, rfl, rfl⟩
  rw [heapStep, h]
  rfl

end AceOS.Kernel
