import AceOS.Kernel.HeapRun
import AceOS.Lib.LinkedQueue

/-!
# Validation of the kernel heap (`heap_validate` in `src/kernel/heap.c`)

`heap_validate` follows the links from the first block, whatever they are, and counts the headers it
visits; the 10001st ends it with an error.  So every call returns, and the result tells whether
the links end after at most 10000 headers that pass the checks (`heapValidate_spec`).

A well-formed heap may have more blocks than that: `heap_malloc` splits 52 bytes off for a request
of up to 32, and the heap has 4 MB (`heapValidate_tiles_iff`, `heapValidate_falseAlarm`).

The messages are left out.
-/

namespace AceOS.Kernel

open Memory LinkedQueue
open Segments (Seg)

/-! ### The code -/

/-- The two checks, as the number of errors they find. -/
def blockErrors (st : HeapState) (current : Nat) : Nat :=
  let expectedMagic := if blkFree st.mem current ≠ 0 then heapMagicFree else heapMagicAllocated
  (if blkMagic st.mem current ≠ expectedMagic then 1 else 0) +
    (if current < st.mgr.heapStart ∨ st.mgr.heapEnd ≤ current then 1 else 0)

/-- The `while` loop: `block_count` and `errors` when it has ended. -/
def heapValidateLoop (st : HeapState) :
    (fuel current blockCount errors : Nat) → Option (Nat × Nat)
  | 0, _, _, _ => none
  | fuel + 1, current, blockCount, errors =>
      if current = 0 then some (blockCount, errors)
      else
        let blockCount := blockCount + 1
        let errors := errors + blockErrors st current
        let current := blkNext st.mem current
        if 10000 < blockCount then some (blockCount, errors + 1)
        else heapValidateLoop st fuel current blockCount errors

def heapValidate (st : HeapState) : Option Int :=
  if !st.initialized then some 0
  else (heapValidateLoop st walkFuel st.mgr.firstBlock 0 0).map fun r => if r.2 = 0 then 1 else 0

/-! ### Chains of headers -/

def ptr (a : Nat) : Option Nat := if a = 0 then none else some a

def nextBlock (m : Mem) (b : Nat) : Option Nat := ptr (blkNext m b)

def visited (st : HeapState) : List Nat := follow (nextBlock st.mem) 10001 (ptr st.mgr.firstBlock)

/-- The magic agrees with the free flag, and the header is in the heap. -/
structure PassesChecks (st : HeapState) (b : Nat) : Prop where
  magic : blkMagic st.mem b =
    if blkFree st.mem b ≠ 0 then heapMagicFree else heapMagicAllocated
  start_le : st.mgr.heapStart ≤ b
  lt_end : b < st.mgr.heapEnd

section Validate

variable {st : HeapState}

theorem blockErrors_eq_zero {b : Nat} : blockErrors st b = 0 ↔ PassesChecks st b := by
  rw [blockErrors]
  constructor
  · intro h
    obtain ⟨hmagic, hbounds⟩ := Nat.add_eq_zero_iff.mp h
    have hmagic' := ite_eq_right_iff.mp hmagic
    have hbounds' := ite_eq_right_iff.mp hbounds
    refine ⟨not_not.mp fun hne => absurd (hmagic' hne) (by decide), ?_, ?_⟩
    · by_contra hlt
      exact absurd (hbounds' (Or.inl (Nat.not_le.mp hlt))) (by decide)
    · by_contra hle
      exact absurd (hbounds' (Or.inr (Nat.not_lt.mp hle))) (by decide)
  · rintro ⟨hmagic, hstart, hend⟩
    rw [if_neg (not_not.mpr hmagic), if_neg]
    rintro (h | h) <;> omega

/-- **The loop** with room for `k` more headers counts what it visits, and finds no error if and
only if these pass and there are less than `k`. -/
theorem heapValidateLoop_spec {k fuel : Nat} (hk : 0 < k) (hfuel : k ≤ fuel)
    (current blockCount errors : Nat) (hcount : blockCount + k = 10001) :
    ∃ e, heapValidateLoop st fuel current blockCount errors
        = some (blockCount + (follow (nextBlock st.mem) k (ptr current)).length, e) ∧
      (e = 0 ↔ errors = 0 ∧ (follow (nextBlock st.mem) k (ptr current)).length < k ∧
        ∀ b ∈ follow (nextBlock st.mem) k (ptr current), PassesChecks st b) := by
  induction k generalizing fuel current blockCount errors with
  | zero => exact absurd hk (Nat.lt_irrefl 0)
  | succ k ih =>
      obtain ⟨fuel, rfl⟩ : ∃ n, fuel = n + 1 := ⟨fuel - 1, by omega⟩
      rw [heapValidateLoop]
      by_cases hnull : current = 0
      · rw [if_pos hnull, ptr, if_pos hnull, follow]
        exact ⟨errors, rfl, by simp⟩
      · rw [if_neg hnull, ptr, if_neg hnull, follow]
        dsimp only
        by_cases hlast : 10000 < blockCount + 1
        · -- the 10001st header
          obtain rfl : k = 0 := by omega
          rw [if_pos hlast, follow]
          exact ⟨_, rfl, by simp⟩
        · rw [if_neg hlast]
          obtain ⟨e, he, hzero⟩ := ih (by omega) (show k ≤ fuel by omega) (blkNext st.mem current)
            (blockCount + 1) (errors + blockErrors st current) (by omega)
          refine ⟨e, ?_, ?_⟩
          · rw [he, nextBlock, List.length_cons]
            congr 2
            omega
          · rw [hzero, List.length_cons, List.forall_mem_cons, Nat.add_eq_zero_iff,
              blockErrors_eq_zero, Nat.succ_lt_succ_iff, nextBlock]
            tauto

theorem heapValidate_eq (hinit : st.initialized = true) :
    ∃ errors, heapValidateLoop st walkFuel st.mgr.firstBlock 0 0
        = some ((visited st).length, errors) ∧
      heapValidate st = some (if errors = 0 then 1 else 0) ∧
      (errors = 0 ↔ (visited st).length < 10001 ∧ ∀ b ∈ visited st, PassesChecks st b) := by
  obtain ⟨e, he, hzero⟩ := @heapValidateLoop_spec st 10001 walkFuel (by decide) (by decide)
    st.mgr.firstBlock 0 0 rfl
  rw [Nat.zero_add] at he
  refine ⟨e, he, ?_, hzero.trans (and_iff_right rfl)⟩
  rw [heapValidate, hinit, if_neg (by decide), he, Option.map_some]

theorem heapValidate_zero_or_one (hinit : st.initialized = true) :
    heapValidate st = some 0 ∨ heapValidate st = some 1 := by
  obtain ⟨e, -, hresult, -⟩ := heapValidate_eq hinit
  rw [hresult]
  split
  · exact Or.inr rfl
  · exact Or.inl rfl

theorem heapValidate_eq_one_iff (hinit : st.initialized = true) :
    heapValidate st = some 1 ↔ ∃ q, Linked (nextBlock st.mem) (ptr st.mgr.firstBlock) q ∧
      q.length ≤ 10000 ∧ ∀ b ∈ q, PassesChecks st b := by
  obtain ⟨e, -, hresult, hzero⟩ := heapValidate_eq hinit
  have hone : heapValidate st = some 1 ↔ e = 0 := by
    rw [hresult, Option.some.injEq]
    split
    · exact iff_of_true rfl ‹_›
    · exact iff_of_false (by decide) ‹_›
  rw [hone, hzero]
  constructor
  · rintro ⟨hlt, hpass⟩
    exact ⟨_, linked_follow hlt, Nat.le_of_lt_succ hlt, hpass⟩
  · rintro ⟨q, hl, hle, hpass⟩
    have hq : visited st = q := by
      rw [visited, follow_eq_take hl, List.take_of_length_le (by omega)]
    rw [hq]
    exact ⟨Nat.lt_succ_of_le hle, hpass⟩

end Validate

/-- **Every validation returns.**  On an initialized heap it visits at most 10001 headers, fails on
a cyclic chain and on a visited header that is out of order, and succeeds on the chains that
end after at most 10000 headers, all in order. -/
theorem heapValidate_spec (st : HeapState) :
    (st.initialized = false → heapValidate st = some 0) ∧
    (st.initialized = true →
      (∃ errors, heapValidateLoop st walkFuel st.mgr.firstBlock 0 0
        = some ((visited st).length, errors)) ∧ (visited st).length ≤ 10001 ∧
      (heapValidate st = some 0 ∨ heapValidate st = some 1) ∧
      (Cyclic (nextBlock st.mem) (ptr st.mgr.firstBlock) → heapValidate st = some 0) ∧
      ((∃ b ∈ visited st, ¬PassesChecks st b) → heapValidate st = some 0) ∧
      (heapValidate st = some 1 ↔ ∃ q, Linked (nextBlock st.mem) (ptr st.mgr.firstBlock) q ∧
        q.length ≤ 10000 ∧ ∀ b ∈ q, PassesChecks st b)) := by
  constructor
  · intro hinit
    rw [heapValidate, hinit]
    rfl
  · intro hinit
    obtain ⟨e, he, hresult, hzero⟩ := heapValidate_eq hinit
    have hone := heapValidate_eq_one_iff hinit
    have htwo := heapValidate_zero_or_one hinit
    refine ⟨⟨e, he⟩, follow_length_le .., htwo, ?_, ?_, hone⟩
    · intro hcyclic
      refine htwo.resolve_right fun h => ?_
      obtain ⟨q, hl, -⟩ := hone.mp h
      exact hcyclic.not_linked ⟨q, hl⟩
    · rintro ⟨b, hb, hfails⟩
      rw [hresult, if_neg]
      exact fun h => hfails ((hzero.mp h).2 b hb)

/-- Before `heap_init` the chain is empty, and the validation fails all the same. -/
theorem heapValidate_uninitialized : ∃ st : HeapState, heapValidate st = some 0 ∧
    ∃ q, Linked (nextBlock st.mem) (ptr st.mgr.firstBlock) q ∧ q.length ≤ 10000 ∧
      ∀ b ∈ q, PassesChecks st b :=
  ⟨⟨⟨fun _ => 0⟩, ⟨0, 0, 0, 0, 0, 0, 0⟩, false⟩, rfl, [], rfl, Nat.zero_le _,
    fun _ hb => absurd hb List.not_mem_nil⟩

/-! ### Well-formed heaps -/

/-- The blocks tile the heap, and their headers have the links, the flags and the magic. -/
structure HeapTiled (st : HeapState) (bs : List Seg) : Prop where
  initialized : st.initialized = true
  start_pos : 0 < st.mgr.heapStart
  end_lt : st.mgr.heapEnd < 4294967296
  tiles : Segments.Tiles 20 st.mgr.heapStart st.mgr.heapEnd bs
  first : st.mgr.firstBlock = Segments.headAddr bs 0
  linked : Segments.Linked (HeapHdr st.mem) 0 bs 0

theorem HeapRepr.tiled {st : HeapState} {bs : List Seg} (h : HeapRepr st bs) :
    HeapTiled st bs :=
  ⟨h.initialized, h.start_pos, h.end_lt, h.tiles, h.first, h.linked⟩

section WellFormed

variable {st : HeapState} {bs : List Seg}

theorem linked_addrs {m : Mem} {p : Nat} (h : Segments.Linked (HeapHdr m) p bs 0)
    (hpos : ∀ b ∈ bs, 0 < b.addr) :
    Linked (nextBlock m) (ptr (Segments.headAddr bs 0)) (bs.map Seg.addr) := by
  induction bs generalizing p with
  | nil => rfl
  | cons b bs ih =>
      obtain ⟨hb, hpos⟩ := List.forall_mem_cons.mp hpos
      obtain ⟨hhdr, htail⟩ := Segments.linked_cons.mp h
      have hnext : blkNext m b.addr = Segments.headAddr bs 0 := congrArg Header.next hhdr
      refine ⟨if_neg (Nat.ne_of_gt hb), ?_⟩
      rw [nextBlock, hnext]
      exact ih htail hpos

namespace HeapTiled

variable (h : HeapTiled st bs)

include h

theorem linked_queue : Linked (nextBlock st.mem) (ptr st.mgr.firstBlock) (bs.map Seg.addr) := by
  rw [h.first]
  refine linked_addrs h.linked fun b hb => ?_
  have hbounds := h.tiles.bounds hb
  have hstart := h.start_pos
  omega

theorem passesChecks {b : Seg} (hb : b ∈ bs) : PassesChecks st b.addr := by
  obtain ⟨p, n, hhdr⟩ := h.linked.mem hb
  have hmagic := congrArg Header.magic hhdr
  have hfree := congrArg Header.free hhdr
  have hbounds := h.tiles.bounds hb
  refine ⟨?_, by omega, by omega⟩
  rw [show blkMagic st.mem b.addr = _ from hmagic, show blkFree st.mem b.addr = _ from hfree]
  cases b.free <;> rfl

end HeapTiled

/-- **No false alarm** on a well-formed heap if and only if it has at most 10000 blocks. -/
theorem heapValidate_tiles_iff (h : HeapTiled st bs) :
    heapValidate st = some 1 ↔ bs.length ≤ 10000 := by
  rw [heapValidate_eq_one_iff h.initialized]
  constructor
  · rintro ⟨q, hl, hle, -⟩
    rwa [hl.unique h.linked_queue, List.length_map] at hle
  · intro hle
    refine ⟨_, h.linked_queue, by rwa [List.length_map], ?_⟩
    intro b hb
    obtain ⟨seg, hseg, rfl⟩ := List.mem_map.mp hb
    exact h.passesChecks hseg

/-! ### Heaps of small blocks -/

theorem heapMalloc_last {xs : List Seg} {f : Seg} (h : HeapRepr st (xs ++ [f]))
    (hxs : ∀ b ∈ xs, b.free = false) (hf : f.free = true) (hsize : 84 ≤ f.size) :
    ∃ st', heapMalloc 32 st = some (f.addr + 20, st') ∧
      HeapRepr st' ((xs ++ [⟨f.addr, 32, false⟩]) ++ [⟨f.addr + 52, f.size - 52, true⟩]) := by
  have hmem : f ∈ xs ++ [f] := by simp
  have hround : roundSize 32 = 32 := by decide
  have hfit : findBestFit (roundSize 32) st = some f.addr := by
    rw [hround]
    obtain ⟨r, hr, ⟨-, hnone⟩ | ⟨b, hb, hfree, -, rfl, -⟩⟩ := findBestFit_spec h 32
    · exact absurd (hnone f hmem hf) (by omega)
    · rcases List.mem_append.mp hb with hb | hb
      · rw [hxs b hb] at hfree
        exact absurd hfree Bool.false_ne_true
      · rw [hr, List.mem_singleton.mp hb]
  refine ⟨_, heapMalloc_of_fit h hmem (by decide) hfit, ?_⟩
  have htake := takeBlock_repr h hf (show 32 + 20 ≤ f.size by omega)
  have hsplit : minAllocSize ≤ f.size - 32 - 20 := by
    show 32 ≤ _
    omega
  rw [splitHead, splitRest, if_pos hsplit, if_pos hsplit] at htake
  have haddr : f.addr + 20 + 32 = f.addr + 52 := rfl
  rw [haddr, Nat.sub_sub] at htake
  rw [hround]
  simpa using htake

/-- **Requests for 32 bytes** make one block each. -/
theorem heapMalloc_run {xs : List Seg} {f : Seg} (n : Nat) (h : HeapRepr st (xs ++ [f]))
    (hxs : ∀ b ∈ xs, b.free = false) (hf : f.free = true) (hsize : 32 + 52 * n ≤ f.size) :
    ∃ ptrs st' bs, Machine.run heapMalloc (List.replicate n 32) st = some (ptrs, st') ∧
      HeapRepr st' bs ∧ bs.length = xs.length + 1 + n := by
  induction n generalizing st xs f with
  | zero => exact ⟨[], st, _, rfl, h, by simp⟩
  | succ n ih =>
      obtain ⟨st₁, hmalloc, h₁⟩ := heapMalloc_last h hxs hf (by omega)
      have hused : ∀ b ∈ xs ++ [⟨f.addr, 32, false⟩], b.free = false := by
        intro b hb
        rcases List.mem_append.mp hb with hb | hb
        · exact hxs b hb
        · rw [List.mem_singleton.mp hb]
      obtain ⟨ptrs, st', bs, hrun, hbs, hlen⟩ := ih h₁ hused rfl (by dsimp only; omega)
      refine ⟨_, st', bs, Machine.run_cons_some.mpr ⟨_, st₁, ptrs, hmalloc, hrun, rfl⟩, hbs, ?_⟩
      rw [hlen, List.length_append, List.length_singleton]
      omega

end WellFormed

theorem kernelHeap_repr (st : HeapState) : ∃ f, HeapRepr (heapInit 0x800000 0x400000 st) [f] ∧
    f.free = true ∧ f.size = 0x400000 - 20 := by
  obtain ⟨⟨f, hinv, hf⟩, hstart, hend⟩ :=
    heapInit_inv st 0x800000 0x400000 (by decide) (by decide) (by decide)
  have htiles := hinv.tiles
  rw [hstart, hend, Segments.tiles_cons, Segments.tiles_nil] at htiles
  refine ⟨f, hinv.toHeapRepr, hf, ?_⟩
  omega

/-- A heap with four free blocks between three in use. -/
theorem heapValidate_fragments : ∃ os s, Machine.run heapStep fragmentingOps
      ⟨heapInit 0x800000 0x400000 heapBlank, ∅⟩ = some (os, s) ∧ HeapTiled s.heap fragments ∧
    heapValidate s.heap = some 1 := by
  obtain ⟨os, s, hrun, hinv⟩ := heapRun_fragments
  have htiled := hinv.toHeapRepr.tiled
  exact ⟨os, s, hrun, htiled, (heapValidate_tiles_iff htiled).mpr (by decide)⟩

/-- **A false alarm**: the heap of the kernel after 10000 requests for 32 bytes. -/
theorem heapValidate_falseAlarm : ∃ ptrs st bs,
    Machine.run heapMalloc (List.replicate 10000 32)
      (heapInit 0x800000 0x400000 ⟨⟨fun _ => 0⟩, ⟨0, 0, 0, 0, 0, 0, 0⟩, false⟩)
        = some (ptrs, st) ∧
    HeapTiled st bs ∧ bs.length = 10001 ∧ heapValidate st = some 0 := by
  obtain ⟨f, hrepr, hf, hsize⟩ := kernelHeap_repr ⟨⟨fun _ => 0⟩, ⟨0, 0, 0, 0, 0, 0, 0⟩, false⟩
  obtain ⟨ptrs, st, bs, hrun, hbs, hlen⟩ := @heapMalloc_run _ [] _ 10000 hrepr
    (fun _ hb => absurd hb List.not_mem_nil) hf (by rw [hsize]; decide)
  refine ⟨ptrs, st, bs, hrun, hbs.tiled, hlen, ?_⟩
  refine (heapValidate_zero_or_one hbs.initialized).resolve_right fun hone => ?_
  obtain ⟨q, hl, hle, -⟩ := (heapValidate_eq_one_iff hbs.initialized).mp hone
  rw [hl.unique hbs.tiled.linked_queue, List.length_map, hlen] at hle
  exact absurd hle (by decide)

end AceOS.Kernel
