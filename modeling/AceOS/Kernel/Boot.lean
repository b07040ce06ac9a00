import AceOS.Kernel.HeapRun
import AceOS.Kernel.Vmm

/-!
# Frames and the kernel heap after boot (`kernel_main` in `src/kernel/kernel.c`)

`kernel_main` starts the frame allocator, the page tables and the heap one after
the other.  The allocator is never told where the heap lies: frames `1536` to
`2559` are the heap's memory and stay free in the bitmap.

Since allocation takes the least free frame, the heap is safe exactly as long as a
frame below it is free, that is while more than `6144` frames are free
(`frameRun_safe_iff`).
-/

namespace AceOS.Kernel

open Memory AceOS.Libc

/-! ### The boot sequence -/

/-- The calls `pmm_init`, `vmm_init` and `heap_init` of `kernel_main`.  The page
directory is a static of the kernel image; the linker chooses its address. -/
def kernelMainMemory (kernelPageDirectory : Nat) (m : Mem) : Phys × HeapManager :=
  let s := vmmInit kernelPageDirectory (pmmInit m)
  let h := heapInit 0x800000 0x400000 { heapBlank with mem := s.mem }
  ({ s with mem := h.mem }, h.mgr)

theorem heapInit_mem_of_lt {st : HeapState} {x : Nat} (hx : x < 0x800000) :
    (heapInit 0x800000 0x400000 st).mem x = st.mem x := by
  have halign : memoryAlignUp 0x800000 16 = 0x800000 := by decide +kernel
  simp only [heapInit, halign, setBlkPrev, setBlkNext, setBlkMagic, setBlkFree, setBlkSize]
  rw [store32_of_disjoint (by omega), store32_of_disjoint (by omega),
    store32_of_disjoint (by omega), store32_of_disjoint (by omega), store32_of_disjoint (by omega)]

theorem PmmInv.heapInit {s : Phys} (h : PmmInv s) (mgr : HeapManager) (b : Bool) :
    PmmInv { s with mem := (heapInit 0x800000 0x400000 ⟨s.mem, mgr, b⟩).mem } ∧
      freeFrameSet { s with mem := (Kernel.heapInit 0x800000 0x400000 ⟨s.mem, mgr, b⟩).mem }
        = freeFrameSet s := by
  obtain ⟨hinv, hset, -⟩ := h.congr
    { s with mem := (Kernel.heapInit 0x800000 0x400000 ⟨s.mem, mgr, b⟩).mem } rfl (by
      intro x h₁ h₂
      simp only [memoryStart] at h₂
      exact heapInit_mem_of_lt (by omega))
  exact ⟨hinv, hset⟩

/-- After boot the bitmap's frame and two page tables are in use, and nothing else. -/
theorem kernelMainMemory_spec (m : Mem) {kernelPageDirectory : Nat}
    (hk : kernelPageDirectory + 4096 ≤ memoryStart) :
    PmmInv (kernelMainMemory kernelPageDirectory m).1 ∧
      freeFrameSet (kernelMainMemory kernelPageDirectory m).1 = Finset.Ico 3 7680 ∧
      (kernelMainMemory kernelPageDirectory m).2.heapStart = 0x800000 ∧
      (kernelMainMemory kernelPageDirectory m).2.heapEnd = 0xC00000 := by
  obtain ⟨hpmm, hset⟩ := pmmInit_spec m
  obtain ⟨hvmm, hset'⟩ := vmmInit_spec hpmm hk hset
  rw [kernelMainMemory]
  generalize vmmInit kernelPageDirectory (pmmInit m) = s at hvmm hset' ⊢
  obtain ⟨hinv, hset''⟩ := hvmm.toPmmInv.heapInit heapBlank.mgr heapBlank.initialized
  obtain ⟨-, hlo, hhi⟩ := heapInit_inv ⟨s.mem, heapBlank.mgr, heapBlank.initialized⟩
    0x800000 0x400000 (by decide) (by decide) (by decide)
  refine ⟨hinv, ?_, hlo, hhi⟩
  rw [hset'', hset']
  ext i
  simp only [Finset.mem_erase, Finset.mem_range, Finset.mem_Ico]
  omega

/-! ### Runs of the frame allocator -/

structure FrameRun where
  phys : Phys
  obtained : Finset Nat

inductive FrameOp
  | allocFrame
  | freeFrame (frameAddr : Nat)
  deriving DecidableEq, Repr

def frameStep : FrameOp → FrameRun → Option (Nat × FrameRun)
  | .allocFrame, s =>
      let r := pmmAllocFrame s.phys
      some (r.1, { phys := r.2, obtained := if r.1 = 0 then s.obtained else insert r.1 s.obtained })
  | .freeFrame a, s => some (0, { s with phys := pmmFreeFrame a s.phys })

/-- Only frames obtained from `pmm_alloc_frame` are freed. -/
def FrameAllowed : FrameOp → FrameRun → Prop
  | .allocFrame, _ => True
  | .freeFrame a, s => a ∈ s.obtained

/-- A request is made while more than `6144` frames are free. -/
def FrameRoomy : FrameOp → FrameRun → Prop
  | .allocFrame, s => 6144 < pmmGetFreeFrames s.phys
  | .freeFrame _, _ => True

/-- The state after boot; `vmm_init` has obtained two frames for page tables. -/
def frameBoot (kernelPageDirectory : Nat) (m : Mem) : FrameRun :=
  { phys := (kernelMainMemory kernelPageDirectory m).1
    obtained := {frameAddress 1, frameAddress 2} }

/-- The frame at `a` does not meet `[lo, hi)`. -/
def FrameApart (a lo hi : Nat) : Prop := a + pageSize ≤ lo ∨ hi ≤ a

/-- The frame at `a` meets neither the kernel heap nor the frame of the bitmap. -/
def FrameSafe (a : Nat) : Prop :=
  FrameApart a 0x800000 0xC00000 ∧ FrameApart a memoryStart (memoryStart + pageSize)

structure FrameInv (s : FrameRun) : Prop where
  pmm : PmmInv s.phys
  bitmap : 0 ∉ freeFrameSet s.phys
  low : ∀ i < 7680, i ∉ freeFrameSet s.phys → i < 1536
  obtained : ∀ a ∈ s.obtained, ∃ i, 0 < i ∧ i < 1536 ∧ a = frameAddress i

section Step

variable {s : FrameRun}

theorem FrameInv.card (h : FrameInv s) :
    (Finset.range 7680 \ freeFrameSet s.phys).card + pmmGetFreeFrames s.phys = 7680 := by
  have hsub : freeFrameSet s.phys ⊆ Finset.range 7680 := by
    intro i hi
    have := (mem_freeFrameSet.mp hi).1
    rw [h.pmm.total] at this
    exact Finset.mem_range.mpr this
  rw [pmmGetFreeFrames, h.pmm.count, Finset.card_sdiff_add_card_eq_card hsub, Finset.card_range]

theorem FrameInv.used_subset (h : FrameInv s) :
    Finset.range 7680 \ freeFrameSet s.phys ⊆ Finset.range 1536 := by
  intro i hi
  rw [Finset.mem_sdiff, Finset.mem_range] at hi
  exact Finset.mem_range.mpr (h.low i hi.1 hi.2)

/-- While more than `6144` frames are free, the next one lies below the heap. -/
theorem FrameInv.alloc (h : FrameInv s) (hroomy : 6144 < pmmGetFreeFrames s.phys) :
    ∃ t, frameStep .allocFrame s = some ((pmmAllocFrame s.phys).1, t) ∧ FrameInv t ∧
      FrameSafe (pmmAllocFrame s.phys).1 := by
  have hcard := h.card
  obtain ⟨k, hk, hkfree⟩ : ∃ k < 1536, k ∈ freeFrameSet s.phys := by
    by_contra hno
    have hall : Finset.range 1536 ⊆ Finset.range 7680 \ freeFrameSet s.phys := by
      intro k hk
      rw [Finset.mem_range] at hk
      exact Finset.mem_sdiff.mpr ⟨Finset.mem_range.mpr (by omega), fun hf => hno ⟨k, hk, hf⟩⟩
    have := Finset.card_le_card hall
    rw [Finset.card_range] at this
    omega
  rcases pmmAllocFrame_spec h.pmm with ⟨he, -⟩ | ⟨i, hi, ha, hinv, -, hset⟩
  · exact absurd (he ▸ hkfree) (Finset.notMem_empty k)
  have hik : i ≤ k := hi.2 hkfree
  have hi0 : 0 < i := by
    by_contra h0
    have hz : i = 0 := by omega
    exact h.bitmap (hz ▸ hi.1)
  have hne : (pmmAllocFrame s.phys).1 ≠ 0 := by
    rw [ha]
    simp only [frameAddress, memoryStart]
    omega
  refine ⟨_, rfl, ⟨hinv, ?_, ?_, ?_⟩, ?_⟩
  · rw [hset]
    exact fun h0 => h.bitmap (Finset.mem_of_mem_erase h0)
  · intro j hj hjn
    by_cases hji : j = i
    · omega
    · refine h.low j hj fun hjf => hjn ?_
      rw [hset]
      exact Finset.mem_erase.mpr ⟨hji, hjf⟩
  · intro a ham
    rw [if_neg hne, Finset.mem_insert] at ham
    rcases ham with rfl | ham
    · exact ⟨i, hi0, by omega, ha⟩
    · exact h.obtained a ham
  · rw [ha]
    simp only [FrameSafe, FrameApart, frameAddress, memoryStart, pageSize]
    omega

theorem FrameInv.alloc_heap (h : FrameInv s) (hfull : ¬6144 < pmmGetFreeFrames s.phys) :
    (pmmAllocFrame s.phys).1 = 0x800000 := by
  have hcard := h.card
  have hle : (Finset.range 1536).card ≤ (Finset.range 7680 \ freeFrameSet s.phys).card := by
    rw [Finset.card_range]
    omega
  have hused := Finset.eq_of_subset_of_card_le h.used_subset hle
  have hmem : ∀ i < 7680, i ∈ freeFrameSet s.phys ↔ 1536 ≤ i := by
    intro i hi
    have := Finset.ext_iff.mp hused i
    rw [Finset.mem_sdiff, Finset.mem_range, Finset.mem_range] at this
    by_cases hf : i ∈ freeFrameSet s.phys
    · simp only [hf, not_true, and_false, false_iff] at this
      exact iff_of_true hf (by omega)
    · simp only [hf, not_false_iff, and_true] at this
      exact iff_of_false hf (by omega)
  have hfirst := (hmem 1536 (by decide)).mpr le_rfl
  rcases pmmAllocFrame_spec h.pmm with ⟨he, -⟩ | ⟨i, hi, ha, -⟩
  · exact absurd (he ▸ hfirst) (Finset.notMem_empty _)
  have hlt := (mem_freeFrameSet.mp (Finset.mem_coe.mp hi.1)).1
  rw [h.pmm.total] at hlt
  have h₁ := (hmem i hlt).mp (Finset.mem_coe.mp hi.1)
  have h₂ := hi.2 (Finset.mem_coe.mpr hfirst)
  rw [ha, show i = 1536 by omega]
  rfl

theorem FrameInv.free (h : FrameInv s) {a : Nat} (ha : a ∈ s.obtained) :
    FrameInv { s with phys := pmmFreeFrame a s.phys } := by
  obtain ⟨i, hi0, hi, rfl⟩ := h.obtained a ha
  obtain ⟨hinv, hset⟩ := pmmFreeFrame_spec h.pmm (frameAddress i)
  have hidx : (frameAddress i - memoryStart) / pageSize = i :=
    frameIndex_eq le_rfl (by simp only [pageSize]; omega)
  rw [hidx, if_pos ⟨Nat.le_add_right _ _, by omega⟩] at hset
  refine ⟨hinv, ?_, ?_, h.obtained⟩
  · rw [hset, Finset.mem_insert, not_or]
    exact ⟨by omega, h.bitmap⟩
  · intro j hj hjn
    rw [hset, Finset.mem_insert, not_or] at hjn
    exact h.low j hj hjn.2

end Step

theorem frameStep_inv {s : FrameRun} (op : FrameOp) (h : PmmInv s.phys) :
    ∃ o t, frameStep op s = some (o, t) ∧ PmmInv t.phys := by
  cases op with
  | allocFrame => exact ⟨_, _, rfl, pmmAllocFrame_inv h⟩
  | freeFrame a => exact ⟨_, _, rfl, (pmmFreeFrame_spec h a).1⟩

theorem frameStep_obtained {s t : FrameRun} {op : FrameOp} {o : Nat}
    (h : frameStep op s = some (o, t)) : s.obtained ⊆ t.obtained := by
  cases op with
  | allocFrame =>
      simp only [frameStep, Option.some.injEq, Prod.mk.injEq] at h
      rw [← h.2]
      dsimp only
      split
      · exact Finset.Subset.refl _
      · exact Finset.subset_insert _ _
  | freeFrame a =>
      simp only [frameStep, Option.some.injEq, Prod.mk.injEq] at h
      rw [← h.2]

/-- The frames a run hands out are safe exactly when every request is made in time. -/
theorem FrameInv.run_iff {ops : List FrameOp} {s : FrameRun} (h : FrameInv s)
    (hops : Machine.Meets frameStep FrameAllowed ops s) :
    ∃ os t, Machine.run frameStep ops s = some (os, t) ∧
      ((∀ o ∈ os, o ≠ 0 → FrameSafe o) ↔ Machine.Meets frameStep FrameRoomy ops s) := by
  induction ops generalizing s with
  | nil => exact ⟨[], s, rfl, by simp [Machine.Meets]⟩
  | cons op ops ih =>
      cases op with
      | allocFrame =>
          by_cases hroomy : 6144 < pmmGetFreeFrames s.phys
          · obtain ⟨t, ht, hinv, hsafe⟩ := h.alloc hroomy
            obtain ⟨os, u, hr, hiff⟩ := ih hinv (hops.2 _ t ht)
            refine ⟨_ :: os, u, Machine.run_cons_some.mpr ⟨_, t, os, ht, hr, rfl⟩, ?_⟩
            rw [List.forall_mem_cons, hiff, Machine.meets_cons_of_step ht]
            exact and_congr (iff_of_true (fun _ => hsafe) hroomy) Iff.rfl
          · have ha := h.alloc_heap hroomy
            obtain ⟨o, t, ht, hinv⟩ := frameStep_inv .allocFrame h.pmm
            obtain ⟨os, u, hr, -⟩ := Machine.run_total (G := fun _ _ => True)
              (I := fun s : FrameRun => PmmInv s.phys) (fun op s h _ => frameStep_inv op h) hinv
              (Machine.meets_true ops _)
            have ho : o = 0x800000 := by
              simp only [frameStep, Option.some.injEq, Prod.mk.injEq] at ht
              rw [← ht.1, ha]
            refine ⟨o :: os, u, Machine.run_cons_some.mpr ⟨o, t, os, ht, hr, rfl⟩, ?_⟩
            rw [List.forall_mem_cons, ho]
            refine iff_of_false ?_ (fun hm => hroomy hm.1)
            intro hall
            have := (hall.1 (by decide)).1
            simp only [FrameApart, pageSize] at this
            omega
      | freeFrame a =>
          have hinv := h.free hops.1
          obtain ⟨os, u, hr, hiff⟩ := ih hinv (hops.2 0 _ rfl)
          refine ⟨0 :: os, u, Machine.run_cons_some.mpr ⟨0, _, os, rfl, hr, rfl⟩, ?_⟩
          rw [List.forall_mem_cons, hiff, Machine.meets_cons_of_step (G := FrameRoomy) rfl]
          exact and_congr (iff_of_true (fun h0 => absurd rfl h0) trivial) Iff.rfl

theorem frameBoot_inv (m : Mem) {kernelPageDirectory : Nat}
    (hk : kernelPageDirectory + 4096 ≤ memoryStart) :
    FrameInv (frameBoot kernelPageDirectory m) := by
  obtain ⟨hinv, hset, -⟩ := kernelMainMemory_spec m hk
  refine ⟨hinv, ?_, ?_, ?_⟩
  · rw [frameBoot, hset]
    simp
  · intro i hi hn
    rw [frameBoot, hset, Finset.mem_Ico] at hn
    omega
  · intro a ha
    rw [frameBoot, Finset.mem_insert, Finset.mem_singleton] at ha
    rcases ha with rfl | rfl
    · exact ⟨1, by decide, by decide, rfl⟩
    · exact ⟨2, by decide, by decide, rfl⟩

/-- **Frames and the kernel heap.**  In a run from boot that frees only frames it was
given, no frame handed out meets the heap or the bitmap's frame if and only if every
request is made while more than `6144` frames are free. -/
theorem frameRun_safe_iff (m : Mem) {kernelPageDirectory : Nat}
    (hk : kernelPageDirectory + 4096 ≤ memoryStart) {ops : List FrameOp}
    (hops : Machine.Meets frameStep FrameAllowed ops (frameBoot kernelPageDirectory m)) :
    ∃ os s, Machine.run frameStep ops (frameBoot kernelPageDirectory m) = some (os, s) ∧
      ((∀ o ∈ os, o ≠ 0 → FrameSafe o) ↔
        Machine.Meets frameStep FrameRoomy ops (frameBoot kernelPageDirectory m)) :=
  (frameBoot_inv m hk).run_iff hops

theorem frameRun_safe_iff_boot :
    ∃ os s, Machine.run frameStep [.allocFrame, .freeFrame 0x201000]
        (frameBoot 0x100000 ⟨fun _ => 0⟩) = some (os, s) ∧
      ((∀ o ∈ os, o ≠ 0 → FrameSafe o) ↔
        Machine.Meets frameStep FrameRoomy [.allocFrame, .freeFrame 0x201000]
          (frameBoot 0x100000 ⟨fun _ => 0⟩)) := by
  refine frameRun_safe_iff ⟨fun _ => 0⟩ (by decide) ⟨trivial, ?_⟩
  intro o s hs
  refine ⟨frameStep_obtained hs ?_, fun _ _ _ => trivial⟩
  exact Finset.mem_insert.mpr (Or.inl (by decide))

theorem frameRun_allocs {f : Nat} (n : Nat) {s : FrameRun} (h : PmmInv s.phys)
    (hset : freeFrameSet s.phys = Finset.Ico f 7680) (hn : f + n ≤ 7680) :
    ∃ t, Machine.run frameStep (List.replicate n .allocFrame) s
        = some ((List.range n).map (fun i => frameAddress (f + i)), t) := by
  induction n generalizing f s with
  | zero => exact ⟨s, rfl⟩
  | succ n ih =>
      have hf : f ∈ freeFrameSet s.phys := by
        rw [hset, Finset.mem_Ico]
        omega
      rcases pmmAllocFrame_spec h with ⟨he, -⟩ | ⟨i, hi, ha, hinv, -, hset'⟩
      · exact absurd (he ▸ hf) (Finset.notMem_empty f)
      have hif : i = f := by
        have h₁ := hi.2 (Finset.mem_coe.mpr hf)
        have h₂ := Finset.mem_coe.mp hi.1
        rw [hset, Finset.mem_Ico] at h₂
        omega
      subst hif
      obtain ⟨t, ht⟩ := ih (f := i + 1) (s := (⟨(pmmAllocFrame s.phys).2,
          if (pmmAllocFrame s.phys).1 = 0 then s.obtained
          else insert (pmmAllocFrame s.phys).1 s.obtained⟩ : FrameRun)) hinv (by
        rw [hset', hset]
        ext j
        simp only [Finset.mem_erase, Finset.mem_Ico]
        omega) (by omega)
      refine ⟨t, Machine.run_cons_some.mpr ⟨_, _, _, rfl, ht, ?_⟩⟩
      rw [List.range_succ_eq_map, List.map_cons, ha, List.map_map]
      congr 1
      refine List.map_congr_left ?_
      intro k _
      rw [Function.comp_apply, Nat.succ_eq_add_one, Nat.add_assoc, Nat.add_comm 1 k]

/-- The 1534th request in a row gets the first page of the kernel heap. -/
theorem frameRun_into_heap :
    ∃ os s, Machine.run frameStep (List.replicate 1534 .allocFrame)
        (frameBoot 0x100000 ⟨fun _ => 0⟩) = some (os, s) ∧
      Machine.Meets frameStep FrameAllowed (List.replicate 1534 .allocFrame)
        (frameBoot 0x100000 ⟨fun _ => 0⟩) ∧
      ¬∀ o ∈ os, o ≠ 0 → FrameSafe o := by
  obtain ⟨hinv, hset, -⟩ := kernelMainMemory_spec ⟨fun _ => 0⟩
    (show 0x100000 + 4096 ≤ memoryStart by decide)
  obtain ⟨t, ht⟩ :=
    frameRun_allocs 1534 (s := frameBoot 0x100000 ⟨fun _ => 0⟩) hinv hset (by decide)
  refine ⟨_, t, ht, ?_, ?_⟩
  · apply Machine.meets_of_forall
    intro op hop s
    rw [List.eq_of_mem_replicate hop]
    exact trivial
  · intro hall
    have hmem : frameAddress (3 + 1533) ∈ (List.range 1534).map (fun i => frameAddress (3 + i)) :=
      List.mem_map.mpr ⟨1533, List.mem_range.mpr (by decide), rfl⟩
    have := (hall _ hmem (by decide)).1
    simp only [FrameApart, frameAddress, memoryStart, pageSize] at this
    omega

end AceOS.Kernel
