import AceOS.Libc.StdlibRun

/-!
# Coalescing in the libc heap

One walk of `free` merges the released block with one of its neighbours only: once the
block before it has absorbed it, the walk goes on for that block, which it has passed, and
the block after it is not tried.

* `libcStep_coalesced`: a step leaves two free neighbours if and only if it frees a block
  that lies between two free blocks.
* `fullyCoalesced_iff`: without free neighbours `malloc` fails only for want of room, and a
  heap in which nothing is live is one block.
* `libcRun_coalesced`: a run keeps the heap so, if and only if it frees no such block.
* `libcRun_scattered`: two blocks are freed in the order of their addresses, and the heap
  stays in two pieces.
-/

namespace AceOS.Libc

open Memory Segments

/-- A `free` is issued for a block that has a free block on either side. -/
def FreesBetween : LibcOp → LibcRun → Prop
  | .free ptr, s => ptr ≠ 0 ∧ BetweenFree 12 (ptr - memoryBlockSize) (memoryBlocks s.st)
  | _, _ => False

instance : ∀ (op : LibcOp) (s : LibcRun), Decidable (FreesBetween op s)
  | .malloc _, _ => isFalse id
  | .free ptr, s => inferInstanceAs (Decidable
      (ptr ≠ 0 ∧ BetweenFree 12 (ptr - memoryBlockSize) (memoryBlocks s.st)))
  | .write _ _, _ => isFalse id

structure FullyCoalesced (heap : Nat) (s : LibcRun) : Prop where
  /-- No two neighbouring blocks are both free. -/
  coalesced : Coalesced (memoryBlocks s.st)
  /-- If `malloc` fails, no stretch `ms` of free blocks has room for a header and the size
  that `malloc` looked for. -/
  fails : ∀ n st', malloc heap n s.st = some (0, st') →
    ∀ xs ms ys, memoryBlocks st' = xs ++ (ms ++ ys) → (∀ b ∈ ms, b.free = true) →
      extent 12 ms < 12 + mallocSize n
  /-- When nothing is live, the heap is one block. -/
  whole : s.st.initialized = true → s.live = ∅ →
    memoryBlocks s.st = [⟨heap, heapSize - memoryBlockSize, true⟩]

section Step

variable {heap : Nat} {s t : LibcRun}

theorem coalesced_initializeHeap (h₀ : 0 < heap) (h₁ : heap + heapSize < 4294967296)
    {st : LibcHeap} (hc : Coalesced (memoryBlocks st)) :
    Coalesced (memoryBlocks (initializeHeap heap st)) := by
  cases hinit : st.initialized with
  | false =>
      have hfirst : (initializeHeap heap st).freeList = heap := by
        rw [initializeHeap, hinit, if_neg Bool.false_ne_true]
      rw [(initializeHeap_repr h₀ h₁ hinit).memoryBlocks_eq hfirst]
      exact List.isChain_singleton _
  | true => rwa [initializeHeap_of_initialized heap hinit]

theorem libcStep_coalesced (h₀ : 0 < heap) (h₁ : heap + heapSize < 4294967296)
    (h : LibcInv heap s) {op : LibcOp} (hop : LibcAllowed op s) {o : Nat}
    (ht : libcStep heap op s = some (o, t)) (hc : Coalesced (memoryBlocks s.st)) :
    Coalesced (memoryBlocks t.st) ↔ ¬FreesBetween op s := by
  cases op with
  | malloc size =>
      refine iff_of_true ?_ id
      obtain ⟨bs, hrepr, hfirst, -⟩ := h.tiled_initializeHeap h₀ h₁
      have hbs := coalesced_initializeHeap h₀ h₁ hc
      rw [hrepr.memoryBlocks_eq hfirst] at hbs
      rw [libcStep, ← malloc_initializeHeap] at ht
      rcases malloc_spec hrepr hfirst (initializeHeap_initialized heap s.st) size with
        ⟨he, -⟩ | ⟨b, bs', st', he, -, hrepr', hfirst', -, -, -, -, hkeep⟩
      · rw [he, Option.map_some, Option.some.injEq, Prod.mk.injEq] at ht
        rw [← ht.2, hrepr.memoryBlocks_eq hfirst]
        exact hbs
      · rw [he, Option.map_some, Option.some.injEq, Prod.mk.injEq] at ht
        rw [← ht.2, hrepr'.memoryBlocks_eq hfirst']
        exact hkeep hbs
  | free ptr =>
      by_cases hp : ptr ∈ s.live
      · obtain ⟨bs, hrepr, hfirst, hlive⟩ := (h.tiled hp).2
        obtain ⟨b, hb, hbf, rfl⟩ := (hlive ptr).mp hp
        obtain ⟨xs, ys, rfl⟩ := List.append_of_mem hb
        obtain ⟨bs', st', hfree, -, hrepr', hfirst', -, hiff⟩ := free_spec hrepr hfirst hbf
        rw [hrepr.memoryBlocks_eq hfirst] at hc
        rw [libcStep, hfree, Option.map_some, Option.some.injEq, Prod.mk.injEq] at ht
        rw [← ht.2, hrepr'.memoryBlocks_eq hfirst', hiff hc, FreesBetween,
          hrepr.memoryBlocks_eq hfirst, memoryBlockSize, Nat.add_sub_cancel]
        simp
      · obtain rfl := hop.resolve_right hp
        rw [libcStep, free, if_pos rfl, Option.map_some, Option.some.injEq, Prod.mk.injEq] at ht
        rw [← ht.2]
        exact iff_of_true hc fun hno => hno.1 rfl
  | write addr v =>
      refine iff_of_true ?_ id
      obtain ⟨p, hp, hlo, hhi⟩ := hop
      obtain ⟨bs, hrepr, hfirst, hlive⟩ := (h.tiled hp).2
      obtain ⟨b, hb, -, rfl⟩ := (hlive p).mp hp
      rw [memoryBlockSize, Nat.add_sub_cancel, hrepr.size_eq hb] at hhi
      rw [hrepr.memoryBlocks_eq hfirst] at hc
      rw [libcStep, Option.some.injEq, Prod.mk.injEq] at ht
      have hblocks : memoryBlocks { s.st with mem := store8 s.st.mem addr v } = bs :=
        LibcRepr.memoryBlocks_eq (hrepr.write hb hlo hhi v) hfirst
      rw [← ht.2]
      show Coalesced (memoryBlocks { s.st with mem := store8 s.st.mem addr v })
      rw [hblocks]
      exact hc

theorem extent_lt_of_coalesced {bs xs ms ys : List Seg} {n : Nat} (hc : Coalesced bs)
    (hbs : bs = xs ++ (ms ++ ys)) (hfree : ∀ b ∈ ms, b.free = true) (hpos : 0 < n)
    (hnone : ∀ b ∈ bs, b.free = true → b.size < n) : extent 12 ms < 12 + n := by
  subst hbs
  rcases hc.stretch hfree with rfl | ⟨b, rfl⟩
  · rw [extent_nil]
    omega
  · have := hnone b (by simp) (hfree b (List.mem_singleton_self b))
    rw [extent_cons, extent_nil]
    omega

theorem mallocSize_pos (n : Nat) : 0 < mallocSize n := by
  simp only [mallocSize]
  split <;> split <;> omega

theorem fullyCoalesced_iff (h₀ : 0 < heap) (h₁ : heap + heapSize < 4294967296)
    (h : LibcInv heap s) : FullyCoalesced heap s ↔ Coalesced (memoryBlocks s.st) := by
  refine ⟨FullyCoalesced.coalesced, fun hc => ⟨hc, ?_, ?_⟩⟩
  · intro n st' hm xs ms ys hbs hfree
    obtain ⟨bs, hrepr, hfirst, -⟩ := h.tiled_initializeHeap h₀ h₁
    have hcb := coalesced_initializeHeap h₀ h₁ hc
    rw [← malloc_initializeHeap] at hm
    rcases malloc_spec hrepr hfirst (initializeHeap_initialized heap s.st) n with
      ⟨he, hnone⟩ | ⟨b, bs', st', he, -⟩
    · rw [he, Option.some.injEq, Prod.mk.injEq] at hm
      rw [← hm.2] at hbs
      rw [← hrepr.memoryBlocks_eq hfirst] at hnone
      exact extent_lt_of_coalesced hcb hbs hfree (mallocSize_pos n) hnone
    · rw [he, Option.some.injEq, Prod.mk.injEq] at hm
      omega
  · intro hinit hlive
    rw [LibcInv, hinit, if_pos rfl] at h
    obtain ⟨bs, hrepr, hfirst, hblocks⟩ := h
    rw [hrepr.memoryBlocks_eq hfirst] at hc ⊢
    have hfree : ∀ b ∈ bs, b.free = true := by
      intro b hb
      by_contra hf
      have hp : b.addr + 12 ∈ s.live := (hblocks _).mpr ⟨b, hb, by simpa using hf, rfl⟩
      rw [hlive] at hp
      exact absurd hp (Finset.notMem_empty _)
    have htiles := hrepr.tiles
    have hc' : Coalesced ([] ++ (bs ++ [])) := by simpa using hc
    rcases hc'.stretch hfree with rfl | ⟨b, rfl⟩
    · rw [tiles_nil, heapSize] at htiles
      omega
    · obtain ⟨haddr, hend⟩ := htiles
      rw [tiles_nil] at hend
      have hsize : b.size = heapSize - memoryBlockSize := by
        rw [memoryBlockSize]
        omega
      rw [← haddr, ← hsize, ← hfree b (List.mem_singleton_self b)]

end Step

/-! ### Runs -/

/-- **Coalescing over a whole run.**  The free memory is in as few pieces as it can be in
every state that the run reaches, if and only if the run frees no block that lies between
two free blocks. -/
theorem libcRun_coalesced (heap : Nat) (m : Mem) (h₀ : 0 < heap)
    (h₁ : heap + heapSize < 4294967296) (ops : List LibcOp)
    (hops : Machine.Meets (libcStep heap) LibcAllowed ops (libcStart m)) :
    (∀ k, ∃ os s, Machine.run (libcStep heap) (ops.take k) (libcStart m) = some (os, s) ∧
      FullyCoalesced heap s) ↔
    Machine.Meets (libcStep heap) (fun op s => ¬FreesBetween op s) ops (libcStart m) := by
  have hstart : LibcInv heap (libcStart m) := ⟨rfl, rfl⟩
  have hempty : Coalesced (memoryBlocks (libcStart m).st) := coalesced_nil
  have hiff := Machine.meets_iff_inv (I := fun s => Coalesced (memoryBlocks s.st))
    (G := fun op s => ¬FreesBetween op s) (fun op s hs hop => by
      obtain ⟨o, t, ht, hinv, -⟩ := libcStep_inv h₀ h₁ hs op hop
      exact ⟨o, t, ht, hinv, libcStep_coalesced h₀ h₁ hs hop ht⟩) hstart hops hempty
  rw [← hiff]
  constructor
  · intro h k os s hrun
    obtain ⟨os', s', hrun', hs'⟩ := h k
    rw [hrun, Option.some.injEq, Prod.mk.injEq] at hrun'
    exact hrun'.2 ▸ hs'.coalesced
  · intro h k
    obtain ⟨os, s, hrun, hinv, -⟩ := libcRun_inv h₀ h₁ hstart (hops.take k)
    exact ⟨os, s, hrun, (fullyCoalesced_iff h₀ h₁ hinv).mpr (h k os s hrun)⟩

/-- Two blocks, freed from the last to the first. -/
theorem libcRun_coalesced_downward : ∃ os s, Machine.run (libcStep 0x20000)
    [.malloc 20, .malloc 40, .write 0x20040 9, .free 0x20030, .free 0x2000C]
      (libcStart ⟨fun _ => 0⟩) = some (os, s) ∧ FullyCoalesced 0x20000 s := by
  have hops : Machine.Meets (libcStep 0x20000) (fun op s => LibcAllowed op s ∧ ¬FreesBetween op s)
      [.malloc 20, .malloc 40, .write 0x20040 9, .free 0x20030, .free 0x2000C]
      (libcStart ⟨fun _ => 0⟩) := by decide +kernel
  obtain ⟨hallowed, hfrees⟩ := Machine.meets_and.mp hops
  exact (libcRun_coalesced 0x20000 ⟨fun _ => 0⟩ (by decide) (by decide) _ hallowed).mpr hfrees 5

/-- Two blocks, freed from the first to the last.  The second `free` lets the first block
absorb the second and leaves out the rest of the array, which is free too; and a `malloc`
of nearly the whole array fails although nothing is live. -/
theorem libcRun_scattered :
    Machine.Meets (libcStep 0x20000) LibcAllowed
      [.malloc 16, .malloc 16, .free 0x2000C, .free 0x20028] (libcStart ⟨fun _ => 0⟩) ∧
    ∃ os s, Machine.run (libcStep 0x20000)
        [.malloc 16, .malloc 16, .free 0x2000C, .free 0x20028] (libcStart ⟨fun _ => 0⟩)
          = some (os, s) ∧
      s.live = ∅ ∧ memoryBlocks s.st = [⟨0x20000, 44, true⟩, ⟨0x20038, 1048508, true⟩] ∧
      ¬Coalesced (memoryBlocks s.st) ∧
      extent 12 (memoryBlocks s.st) = heapSize ∧ 12 + mallocSize 1048560 ≤ heapSize ∧
      (malloc 0x20000 1048560 s.st).map Prod.fst = some 0 := by
  have hfacts : Machine.Meets (libcStep 0x20000) LibcAllowed
        [.malloc 16, .malloc 16, .free 0x2000C, .free 0x20028] (libcStart ⟨fun _ => 0⟩) ∧
      (Machine.run (libcStep 0x20000) [.malloc 16, .malloc 16, .free 0x2000C, .free 0x20028]
        (libcStart ⟨fun _ => 0⟩)).map (fun r => decide (r.2.live = ∅ ∧
          memoryBlocks r.2.st = [⟨0x20000, 44, true⟩, ⟨0x20038, 1048508, true⟩] ∧
          (malloc 0x20000 1048560 r.2.st).map Prod.fst = some 0)) = some true := by
    decide +kernel
  obtain ⟨hops, hrun⟩ := hfacts
  obtain ⟨⟨os, s⟩, hs, hall⟩ := Option.map_eq_some_iff.mp hrun
  obtain ⟨hlive, hblocks, hnull⟩ := of_decide_eq_true hall
  refine ⟨hops, os, s, hs, hlive, hblocks, ?_, ?_, by decide, hnull⟩
  · rw [hblocks]
    decide
  · rw [hblocks]
    decide

end AceOS.Libc
