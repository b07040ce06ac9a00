import AceOS.Kernel.HeapInv
import Mathlib.Data.Finset.Erase

/-!
# Runs of the kernel heap

`heap_malloc` and `heap_free` keep `HeapInv` and change the allocated segments by
exactly the one they hand out or take back (`heapMalloc_spec`, `heapFree_spec`).

A run starts at `heap_init` and mixes requests, releases and stores of the
callers into their own payloads; `live` is the ghost set of pointers returned and
not yet freed.  The heap is well formed along every run that never asks for a
size some free block fits with less than a header to spare (`Roomy`).
-/

namespace AceOS.Kernel

open Memory Segments

/-! ### The search -/

section Search

variable {st : HeapState} {bs : List Seg}

/-- The search ends.  It picks its starting candidate if no free segment fits better, and
else the smallest free segment that fits. -/
theorem findBestFitLoop_spec {m : Mem} {size p : Nat} (ys : List Seg)
    (hlinked : Linked (HeapHdr m) p ys 0) (hpos : ∀ b ∈ ys, 0 < b.addr) {fuel : Nat}
    (hfuel : ys.length < fuel) (best bestSize : Nat) :
    ∃ r, findBestFitLoop m size fuel (headAddr ys 0) best bestSize = some r ∧
      ((r = best ∧ ∀ b ∈ ys, b.free = true → size ≤ b.size → bestSize ≤ b.size) ∨
        ∃ b ∈ ys, b.free = true ∧ size ≤ b.size ∧ b.size < bestSize ∧ r = b.addr ∧
          ∀ c ∈ ys, c.free = true → size ≤ c.size → b.size ≤ c.size) := by
  induction ys generalizing p fuel best bestSize with
  | nil =>
      obtain ⟨fuel, rfl⟩ : ∃ k, fuel = k + 1 := ⟨fuel - 1, by simp at hfuel; omega⟩
      exact ⟨best, rfl, Or.inl ⟨rfl, by simp⟩⟩
  | cons b ys ih =>
      obtain ⟨fuel, rfl⟩ : ∃ k, fuel = k + 1 := ⟨fuel - 1, by simp at hfuel; omega⟩
      have hb : header m b.addr = _ := hlinked.1
      have hsize : blkSize m b.addr = b.size := congrArg Header.size hb
      have hfree : blkFree m b.addr = if b.free then 1 else 0 := congrArg Header.free hb
      have hnext : blkNext m b.addr = headAddr ys 0 := congrArg Header.next hb
      have hb0 := hpos b (List.mem_cons_self ..)
      have hrec := ih hlinked.2 (fun c hc => hpos c (List.mem_cons_of_mem b hc))
        (by simpa using hfuel)
      rw [headAddr_cons, findBestFitLoop, if_neg (by omega), hsize, hnext]
      by_cases hfit : blkFree m b.addr ≠ 0 ∧ size ≤ b.size ∧ b.size < bestSize
      · have hbf : b.free = true := by
          by_contra hf
          exact hfit.1 (by rw [hfree, if_neg hf])
        rw [if_pos hfit]
        split
        · -- an exact fit: nothing is smaller
          rename_i hexact
          refine ⟨b.addr, rfl, Or.inr ⟨b, List.mem_cons_self .., hbf, hfit.2.1, hfit.2.2, rfl, ?_⟩⟩
          intro c _ _ hc
          omega
        · obtain ⟨r, hr, hcase⟩ := hrec b.addr b.size
          refine ⟨r, hr, Or.inr ?_⟩
          rcases hcase with ⟨rfl, hmin⟩ | ⟨c, hc, hcf, hcs, hlt, rfl, hmin⟩
          · refine ⟨b, List.mem_cons_self .., hbf, hfit.2.1, hfit.2.2, rfl, ?_⟩
            exact List.forall_mem_cons.mpr ⟨fun _ _ => Nat.le_refl _, hmin⟩
          · refine ⟨c, List.mem_cons_of_mem b hc, hcf, hcs, by omega, rfl, ?_⟩
            exact List.forall_mem_cons.mpr ⟨fun _ _ => Nat.le_of_lt hlt, hmin⟩
      · rw [if_neg hfit]
        have hworse : b.free = true → size ≤ b.size → bestSize ≤ b.size := by
          intro hbf hsb
          by_contra hlt
          exact hfit ⟨by rw [hfree, hbf]; decide, hsb, by omega⟩
        obtain ⟨r, hr, hcase⟩ := hrec best bestSize
        refine ⟨r, hr, ?_⟩
        rcases hcase with ⟨rfl, hmin⟩ | ⟨c, hc, hcf, hcs, hlt, rfl, hmin⟩
        · exact Or.inl ⟨rfl, List.forall_mem_cons.mpr ⟨hworse, hmin⟩⟩
        · refine Or.inr ⟨c, List.mem_cons_of_mem b hc, hcf, hcs, hlt, rfl, ?_⟩
          refine List.forall_mem_cons.mpr ⟨?_, hmin⟩
          intro hbf hsb
          have := hworse hbf hsb
          omega

/-- **Best fit.**  No free segment fits, or the smallest one that does is found. -/
theorem findBestFit_spec (h : HeapRepr st bs) (size : Nat) :
    ∃ r, findBestFit size st = some r ∧
      ((r = 0 ∧ ∀ b ∈ bs, b.free = true → b.size < size) ∨
        ∃ b ∈ bs, b.free = true ∧ size ≤ b.size ∧ r = b.addr ∧
          ∀ c ∈ bs, c.free = true → size ≤ c.size → b.size ≤ c.size) := by
  rw [findBestFit, h.first]
  have := h.length_lt
  have hfuel : bs.length < walkFuel := by
    rw [walkFuel]
    omega
  obtain ⟨r, hr, hcase⟩ := findBestFitLoop_spec bs h.linked (fun b hb => (h.bounds hb).1) hfuel 0
    sizeMax
  refine ⟨r, hr, ?_⟩
  rcases hcase with ⟨rfl, hnone⟩ | ⟨b, hb, hbf, hfit, -, rfl, hmin⟩
  · refine Or.inl ⟨rfl, ?_⟩
    intro b hb hbf
    by_contra hfit
    have hmax := hnone b hb hbf (by omega)
    have hbounds := h.bounds hb
    rw [sizeMax] at hmax
    omega
  · exact Or.inr ⟨b, hb, hbf, hfit, rfl, hmin⟩

end Search

/-! ### The merges -/

section Merges

variable {st : HeapState} {xs ys : List Seg} {b : Seg}

theorem mergeNext_of_free {c : Seg} (h : HeapRepr st (xs ++ b :: c :: ys)) (hc : c.free = true) :
    mergeNext b.addr st = absorbBlock b.addr c.addr st := by
  have hnext : blkNext st.mem b.addr = c.addr := h.next_eq
  have hbounds := h.bounds (b := c) (by simp)
  have hfree := h.free_eq (b := c) (by simp)
  rw [hc] at hfree
  rw [mergeNext, hnext, if_pos ⟨by omega, by rw [hfree]; decide⟩]

theorem mergeNext_of_used (h : HeapRepr st (xs ++ b :: ys)) (hys : ∀ c ∈ ys.head?, c.free = false) :
    mergeNext b.addr st = st := by
  have hnext := h.next_eq
  cases ys with
  | nil => rw [mergeNext, if_neg fun hn => hn.1 hnext]
  | cons c ys =>
      have hfree := h.free_eq (b := c) (by simp)
      rw [hys c rfl] at hfree
      rw [headAddr_cons] at hnext
      rw [mergeNext, hnext, if_neg fun hn => hn.2 hfree]

theorem mergePrev_of_free {a : Seg} (h : HeapRepr st (xs ++ a :: b :: ys)) (ha : a.free = true) :
    mergePrev b.addr st = absorbBlock a.addr b.addr st := by
  have h' : HeapRepr st ((xs ++ [a]) ++ b :: ys) := by simpa using h
  have hprev := h'.prev_eq
  have hbounds := h.bounds (b := a) (by simp)
  have hfree := h.free_eq (b := a) (by simp)
  rw [ha] at hfree
  rw [lastAddr_concat] at hprev
  rw [mergePrev, hprev, if_pos ⟨by omega, by rw [hfree]; decide⟩]

theorem mergePrev_of_used (h : HeapRepr st (xs ++ b :: ys))
    (hxs : ∀ a ∈ xs.getLast?, a.free = false) : mergePrev b.addr st = st := by
  have hprev := h.prev_eq
  rcases List.eq_nil_or_concat xs with rfl | ⟨xs, a, rfl⟩
  · rw [mergePrev, if_neg fun hn => hn.1 hprev]
  · rw [List.concat_eq_append] at h hprev hxs
    have hfree := h.free_eq (b := a) (by simp)
    rw [hxs a (by simp)] at hfree
    rw [lastAddr_concat] at hprev
    rw [mergePrev, hprev, if_neg fun hn => hn.2 hfree]

theorem mergeNext_spec (h : HeapRepr st (xs ++ b :: ys)) (hb : b.free = true)
    (hys : Coalesced ys) :
    ∃ b' ys', HeapRepr (mergeNext b.addr st) (xs ++ b' :: ys') ∧ b'.addr = b.addr ∧
      b.size ≤ b'.size ∧ b'.free = true ∧ Coalesced (b' :: ys') ∧ (∀ c ∈ ys', c ∈ ys) ∧
      ∀ c, c.free = false → (c ∈ ys' ↔ c ∈ ys) := by
  by_cases hfree : ∃ c cs, ys = c :: cs ∧ c.free = true
  · obtain ⟨c, ys, rfl, hfree⟩ := hfree
    rw [mergeNext_of_free h hfree]
    refine ⟨{ b with size := b.size + (20 + c.size) }, ys, absorbBlock_repr h hb hfree, rfl,
      Nat.le_add_right _ _, hb, ?_, fun d hd => List.mem_cons_of_mem c hd, fun d hd => ?_⟩
    · exact (coalesced_cons_free (by exact hb)).mpr ((coalesced_cons_free hfree).mp hys)
    · rw [List.mem_cons]
      exact ⟨Or.inr, fun hm => hm.resolve_left (by rintro rfl; simp [hfree] at hd)⟩
  · have hused : ∀ c ∈ ys.head?, c.free = false := by
      intro c hc
      obtain ⟨cs, rfl⟩ := List.head?_eq_some_iff.mp hc
      simpa using fun hf => hfree ⟨c, cs, rfl, hf⟩
    rw [mergeNext_of_used h hused]
    exact ⟨b, ys, h, rfl, le_rfl, hb, (coalesced_cons_free hb).mpr ⟨hys, hused⟩, fun _ hc => hc,
      fun _ _ => Iff.rfl⟩

theorem mergePrev_spec (h : HeapRepr st (xs ++ b :: ys)) (hb : b.free = true)
    (hxs : Coalesced xs) (hys : Coalesced (b :: ys)) :
    ∃ xs' f, HeapInv (mergePrev b.addr st) (xs' ++ f :: ys) ∧ f.free = true ∧
      f.addr ≤ b.addr ∧ f.addr + f.size = b.addr + b.size ∧
      ∀ c, c.free = false → (c ∈ xs' ↔ c ∈ xs) := by
  have hys' := (coalesced_cons_free hb).mp hys
  by_cases hfree : ∃ xs' a, xs = xs' ++ [a] ∧ a.free = true
  · obtain ⟨xs, a, rfl, hfree⟩ := hfree
    have h' : HeapRepr st (xs ++ a :: b :: ys) := by simpa using h
    have hab : b.addr = a.addr + 20 + a.size := h'.tiles.around.2.1
    have hxs' := ((coalesced_append_free hfree).mp hxs).1
    rw [mergePrev_of_free h' hfree]
    refine ⟨xs, { a with size := a.size + (20 + b.size) }, ⟨absorbBlock_repr h' hfree hb, ?_,
      by simp⟩, hfree, ?_, ?_, fun c hc => ?_⟩
    · exact (coalesced_append_free (by exact hfree)).mpr ⟨hxs', hys'⟩
    · show a.addr ≤ b.addr
      omega
    · show a.addr + (a.size + (20 + b.size)) = b.addr + b.size
      omega
    · have hne : c ≠ a := by rintro rfl; simp [hc] at hfree
      simp [hne]
  · have hused : ∀ a ∈ xs.getLast?, a.free = false := by
      intro a ha
      obtain ⟨xs', rfl⟩ := List.getLast?_eq_some_iff.mp ha
      simpa using fun hf => hfree ⟨xs', a, rfl, hf⟩
    rw [mergePrev_of_used h hused]
    exact ⟨xs, b, ⟨h, (coalesced_append_free hb).mpr ⟨⟨hxs, hused⟩, hys'⟩, by simp⟩, hb, le_rfl,
      rfl, fun _ _ => Iff.rfl⟩

end Merges

/-! ### The operations -/

section Operations

variable {st : HeapState} {bs : List Seg}

theorem roundSize_spec {n : Nat} (hn : n ≤ 0xFFFFFFF8) :
    n ≤ roundSize n ∧ minAllocSize ≤ roundSize n ∧ roundSize n ≤ 0xFFFFFFF8 := by
  have halign : n ≤ memoryAlignUp n 8 ∧ memoryAlignUp n 8 ≤ 0xFFFFFFF8 := by
    rw [memoryAlignUp, if_neg (by decide)]
    dsimp only
    split
    · exact ⟨le_rfl, hn⟩
    · rw [add32_of_lt (by omega)]
      omega
  simp only [roundSize]
  split
  · rename_i h
    exact ⟨by omega, le_rfl, by decide⟩
  · exact ⟨halign.1, by omega, halign.2⟩

/-- A block on the list that starts at `first_block`. -/
inductive Listed (st : HeapState) : Nat → Prop
  | first : st.mgr.firstBlock ≠ 0 → Listed st st.mgr.firstBlock
  | next {b : Nat} : Listed st b → blkNext st.mem b ≠ 0 → Listed st (blkNext st.mem b)

theorem headAddr_ne_zero {bs : List Seg} (h : headAddr bs 0 ≠ 0) :
    ∃ b ∈ bs, b.addr = headAddr bs 0 := by
  cases bs with
  | nil => exact absurd rfl h
  | cons b bs => exact ⟨b, List.mem_cons_self .., rfl⟩

theorem HeapRepr.listed_iff (h : HeapRepr st bs) {a : Nat} :
    Listed st a ↔ ∃ b ∈ bs, b.addr = a := by
  constructor
  · intro hl
    induction hl with
    | first hne =>
        rw [h.first] at hne ⊢
        exact headAddr_ne_zero hne
    | next hl hne ih =>
        obtain ⟨b, hb, rfl⟩ := ih
        obtain ⟨xs, ys, rfl⟩ := List.append_of_mem hb
        rw [h.next_eq] at hne ⊢
        obtain ⟨c, hc, he⟩ := headAddr_ne_zero hne
        exact ⟨c, by simp [hc], he⟩
  · rintro ⟨b, hb, rfl⟩
    obtain ⟨xs, ys, rfl⟩ := List.append_of_mem hb
    clear hb
    induction xs using List.reverseRecOn generalizing b ys with
    | nil =>
        have hfirst : st.mgr.firstBlock = b.addr := h.first
        have hb := h.bounds (b := b) (by simp)
        rw [← hfirst]
        exact Listed.first (by omega)
    | append_singleton xs a ih =>
        have h' : HeapRepr st (xs ++ a :: b :: ys) := by simpa using h
        have hnext : blkNext st.mem a.addr = b.addr := h'.next_eq
        have hb := h.bounds (b := b) (by simp)
        rw [← hnext]
        exact Listed.next (ih a (b :: ys) h') (by omega)

/-- No free block fits the request with less than a header to spare. -/
def Roomy (st : HeapState) (size : Nat) : Prop :=
  ∀ b, Listed st b → blkFree st.mem b ≠ 0 →
    ¬(roundSize size ≤ blkSize st.mem b ∧ blkSize st.mem b < roundSize size + heapBlockSize)

theorem HeapRepr.roomy_iff (h : HeapRepr st bs) {n : Nat} : Roomy st n ↔
    ∀ b ∈ bs, b.free = true → ¬(roundSize n ≤ b.size ∧ b.size < roundSize n + 20) := by
  constructor
  · intro hroomy b hb hbf
    have hspare := hroomy b.addr (h.listed_iff.mpr ⟨b, hb, rfl⟩) (by rw [h.free_eq hb, hbf]; decide)
    rwa [h.size_eq hb] at hspare
  · intro hall a hl hfree
    obtain ⟨b, hb, rfl⟩ := h.listed_iff.mp hl
    rw [h.size_eq hb]
    refine hall b hb ?_
    by_contra hbf
    rw [h.free_eq hb, if_neg hbf] at hfree
    exact hfree rfl

theorem takeBlock_region (b size : Nat) (st : HeapState) :
    (takeBlock b size st).mgr.heapStart = st.mgr.heapStart ∧
      (takeBlock b size st).mgr.heapEnd = st.mgr.heapEnd := by
  simp only [takeBlock, splitBlock]
  split <;> exact ⟨rfl, rfl⟩

theorem heapMalloc_of_fit (h : HeapRepr st bs) {b : Seg} (hb : b ∈ bs) {n : Nat} (hn : n ≠ 0)
    (hfit : findBestFit (roundSize n) st = some b.addr) :
    heapMalloc n st = some (b.addr + 20, takeBlock b.addr (roundSize n) st) := by
  have hbounds := h.bounds hb
  rw [heapMalloc, h.initialized, Bool.not_true, if_neg Bool.false_ne_true, if_neg hn, hfit]
  dsimp only
  rw [if_neg (by omega), heapBlockSize, add32_of_lt (by omega)]

theorem heapMalloc_of_full (h : HeapRepr st bs) {n : Nat}
    (hfit : n = 0 ∨ findBestFit (roundSize n) st = some 0) : heapMalloc n st = some (0, st) := by
  rw [heapMalloc, h.initialized, Bool.not_true, if_neg Bool.false_ne_true]
  by_cases hn : n = 0
  · rw [if_pos hn]
  · rw [if_neg hn, hfit.resolve_left hn]
    rfl

/-- A request is refused and changes nothing, or one free segment becomes the
allocated segment handed out, and no payload of another one changes. -/
theorem heapMalloc_spec (h : HeapInv st bs) {n : Nat} (hn : n ≤ 0xFFFFFFF8)
    (hroomy : n = 0 ∨ Roomy st n) :
    heapMalloc n st = some (0, st) ∨
      ∃ b st' bs', heapMalloc n st = some (b.addr + 20, st') ∧ HeapInv st' bs' ∧
        st'.mgr.heapStart = st.mgr.heapStart ∧ st'.mgr.heapEnd = st.mgr.heapEnd ∧
        b.free = false ∧ n ≤ b.size ∧ b ∉ bs ∧
        (∀ c, c.free = false → (c ∈ bs' ↔ c = b ∨ c ∈ bs)) ∧
        ∀ c ∈ bs, c.free = false → ∀ x, c.addr + 20 ≤ x → x < c.addr + 20 + c.size →
          st'.mem x = st.mem x := by
  by_cases hn0 : n = 0
  · exact Or.inl (heapMalloc_of_full h.toHeapRepr (Or.inl hn0))
  obtain ⟨r, hr, hcase⟩ := findBestFit_spec h.toHeapRepr (roundSize n)
  rcases hcase with ⟨rfl, -⟩ | ⟨b, hb, hbf, hfit, rfl, -⟩
  · exact Or.inl (heapMalloc_of_full h.toHeapRepr (Or.inr hr))
  · right
    rw [heapMalloc_of_fit h.toHeapRepr hb hn0 hr]
    have hbounds := h.bounds hb
    have hround := roundSize_spec hn
    have htight := h.roomy_iff.mp (hroomy.resolve_left hn0) b hb hbf
    obtain ⟨xs, ys, rfl⟩ := List.append_of_mem hb
    have hco := (coalesced_append_free hbf).mp h.coalesced
    refine ⟨{ splitHead b (roundSize n) with free := false }, takeBlock b.addr (roundSize n) st,
      _, ?_, ⟨takeBlock_repr h.toHeapRepr hbf (by omega), ?_, by simp⟩, (takeBlock_region _ _ _).1,
      (takeBlock_region _ _ _).2, rfl, ?_, ?_, fun c hc => ?_, ?_⟩
    · rw [splitHead_addr]
    · refine (coalesced_append_used rfl).mpr ⟨hco.1.1, ?_⟩
      rw [splitRest]
      split
      · exact (coalesced_cons_free rfl).mpr hco.2
      · exact hco.2.1
    · rw [splitHead]
      dsimp only
      split
      · exact hround.1
      · omega
    · intro hnew
      have he := h.tiles.eq_of_addr (by decide) hnew hb (splitHead_addr b _)
      rw [← he] at hbf
      exact absurd hbf (by simp)
    · have hcb : c ≠ b := by rintro rfl; simp [hc] at hbf
      have hrest : c ∉ splitRest b (roundSize n) := by
        rw [splitRest]
        split
        · rw [List.mem_singleton]
          rintro rfl
          simp at hc
        · simp
      simp [hcb, hrest]
      tauto
    · intro c hc hcf x h₁ h₂
      have hcb : c ≠ b := by rintro rfl; simp [hcf] at hbf
      have hout := h.outsideHeaders hc h₁ h₂
      have hx := hout b hb
      refine takeBlock_outside (by omega) hx ?_ (h.next_outside hb hout)
      rcases h.tiles.apart hc hb hcb with hd | hd <;> omega

theorem mergeFreeBlocks_region (b : Nat) (st : HeapState) :
    (mergeFreeBlocks b st).mgr.heapStart = st.mgr.heapStart ∧
      (mergeFreeBlocks b st).mgr.heapEnd = st.mgr.heapEnd := by
  rw [mergeFreeBlocks, mergePrev, mergeNext]
  split <;> split <;> exact ⟨rfl, rfl⟩

theorem heapFree_region (p : Nat) (st : HeapState) :
    (heapFree p st).mgr.heapStart = st.mgr.heapStart ∧
      (heapFree p st).mgr.heapEnd = st.mgr.heapEnd := by
  rw [heapFree]
  split
  · exact ⟨rfl, rfl⟩
  · dsimp only
    split
    · exact ⟨rfl, rfl⟩
    · exact mergeFreeBlocks_region _ _

theorem HeapRepr.sub32_payload (h : HeapRepr st bs) {b : Seg} (hb : b ∈ bs) :
    sub32 (b.addr + 20) heapBlockSize = b.addr := by
  have hbounds := h.bounds hb
  rw [heapBlockSize, sub32_of_le (by omega) (by omega), Nat.add_sub_cancel]

/-- A pointer is released if the header before it has the magic of a block in use. -/
theorem heapFree_of_magic {p : Nat} (hinit : st.initialized = true) (hp : p ≠ 0)
    (hmagic : blkMagic st.mem (sub32 p heapBlockSize) = heapMagicAllocated) :
    heapFree p st = mergeFreeBlocks (sub32 p heapBlockSize)
      (releaseBlock (sub32 p heapBlockSize) st) := by
  rw [heapFree, hinit, if_neg (by simp [hp])]
  dsimp only
  rw [if_neg (not_not.mpr hmagic)]

theorem heapFree_of_used (h : HeapRepr st bs) {b : Seg} (hb : b ∈ bs) (hbf : b.free = false) :
    heapFree (b.addr + 20) st = mergeFreeBlocks b.addr (releaseBlock b.addr st) := by
  have hmagic := h.magic_eq hb
  rw [hbf, if_neg Bool.false_ne_true] at hmagic
  rw [heapFree_of_magic h.initialized (by omega) (by rw [h.sub32_payload hb, hmagic]),
    h.sub32_payload hb]

/-- **Release.**  The segment becomes part of a free segment between segments in use, no
other segment in use changes, and no byte outside the headers does.  The old header stays
behind with the magic of a free block. -/
theorem heapFree_spec (h : HeapInv st bs) {b : Seg} (hb : b ∈ bs) (hbf : b.free = false) :
    ∃ xs' f ys', HeapInv (heapFree (b.addr + 20) st) (xs' ++ f :: ys') ∧
      (heapFree (b.addr + 20) st).mgr.heapStart = st.mgr.heapStart ∧
      (heapFree (b.addr + 20) st).mgr.heapEnd = st.mgr.heapEnd ∧
      (f.free = true ∧ f.addr ≤ b.addr ∧ b.addr + b.size ≤ f.addr + f.size) ∧
      (∀ c, c.free = false → (c ∈ xs' ++ f :: ys' ↔ c ∈ bs ∧ c ≠ b)) ∧
      blkMagic (heapFree (b.addr + 20) st).mem b.addr = heapMagicFree ∧
      ∀ x, OutsideHeaders bs x → (heapFree (b.addr + 20) st).mem x = st.mem x := by
  obtain ⟨xs, ys, rfl⟩ := List.append_of_mem hb
  have hco := (coalesced_append_used hbf).mp h.coalesced
  have hrelease := releaseBlock_repr h.toHeapRepr hbf
  obtain ⟨b', ys', hrepr, haddr, hsize, hf', hco', hsub, hmem'⟩ :=
    mergeNext_spec hrelease rfl hco.2
  dsimp only at hrepr haddr hsize
  obtain ⟨xs', f, hinv, hff, hle, hend, hmem⟩ := mergePrev_spec hrepr hf' hco.1 hco'
  have hmerge : mergeFreeBlocks b.addr (releaseBlock b.addr st)
      = mergePrev b'.addr (mergeNext b.addr (releaseBlock b.addr st)) := by
    rw [mergeFreeBlocks, haddr]
  rw [heapFree_of_used h.toHeapRepr hb hbf]
  refine ⟨xs', f, ys', ?_, (mergeFreeBlocks_region _ _).1, (mergeFreeBlocks_region _ _).2,
    ⟨hff, by omega, by omega⟩, fun c hc => ?_, ?_, fun x hx => ?_⟩
  · rw [hmerge]
    exact hinv
  · have hcf : c ≠ f := by
      rintro rfl
      rw [hc] at hff
      exact absurd hff (by decide)
    rw [List.mem_append, List.mem_cons, or_iff_right hcf, hmem c hc, hmem' c hc]
    exact h.tiles.mem_remove (by decide)
  · have hlisted : b' ∈ xs ++ b' :: ys' := by simp
    have hstale := (hrepr.mergePrev_magic hlisted).trans (hrepr.magic_eq hlisted)
    rw [hf', if_pos rfl, haddr] at hstale
    rw [hmerge, haddr]
    exact hstale
  · -- the headers of the later lists are among those of the first
    have hx₁ : OutsideHeaders (xs ++ { b with free := true } :: ys) x := by
      intro c hc
      rcases List.mem_append.mp hc with hc | hc
      · exact hx c (by simp [hc])
      · rcases List.mem_cons.mp hc with rfl | hc
        · exact hx b (by simp)
        · exact hx c (by simp [hc])
    have hx₂ : OutsideHeaders (xs ++ b' :: ys') x := by
      intro c hc
      rcases List.mem_append.mp hc with hc | hc
      · exact hx c (by simp [hc])
      · rcases List.mem_cons.mp hc with rfl | hc
        · rw [haddr]
          exact hx b (by simp)
        · exact hx c (by simp [hsub c hc])
    rw [hmerge, hrepr.mergePrev_outside (by simp) hx₂,
      hrelease.mergeNext_outside (b := { b with free := true }) (by simp) hx₁,
      releaseBlock_outside (hx b (by simp))]

/-- Stores into a payload touch no header. -/
theorem HeapInv.writePayload (h : HeapInv st bs) {b : Seg} (hb : b ∈ bs) {m : Mem}
    (hm : ∀ x, x < b.addr + 20 ∨ b.addr + 20 + b.size ≤ x → m x = st.mem x) :
    HeapInv { st with mem := m } bs :=
  { h with
    linked := by
      refine h.linked.imp ?_
      intro c hc p n hh
      refine hh.of_eq (header_congr ?_)
      intro x h₁ h₂
      apply hm
      by_cases hcb : c = b
      · subst hcb
        exact Or.inl h₂
      · rcases h.tiles.apart hc hb hcb with h' | h' <;> omega }

theorem HeapInv.store8 (h : HeapInv st bs) {b : Seg} (hb : b ∈ bs) {a : Nat} {v : UInt8}
    (h₁ : b.addr + 20 ≤ a) (h₂ : a < b.addr + 20 + b.size) :
    HeapInv { st with mem := Memory.store8 st.mem a v } bs :=
  h.writePayload hb fun _ _ => store8_of_ne (by omega)

theorem heapInit_aligned {start size : Nat} (hwrap : start + size < 4294967296)
    (hroom : (start + 15) / 16 * 16 + 52 ≤ start + size) :
    memoryAlignUp start 16 = (start + 15) / 16 * 16 ∧
      sub32 size (sub32 ((start + 15) / 16 * 16) start)
        = start + size - (start + 15) / 16 * 16 := by
  constructor
  · rw [memoryAlignUp, if_neg (by decide)]
    dsimp only
    split
    · omega
    · rw [add32_of_lt (by omega)]
      omega
  · rw [sub32_of_le (a := (start + 15) / 16 * 16) (by omega) (by omega),
      sub32_of_le (by omega) (by omega)]
    omega

theorem heapInit_inv (st : HeapState) (start size : Nat) (hstart : 0 < start)
    (hwrap : start + size < 4294967296) (hroom : (start + 15) / 16 * 16 + 52 ≤ start + size) :
    (∃ b, HeapInv (heapInit start size st) [b] ∧ b.free = true) ∧
      (heapInit start size st).mgr.heapStart = (start + 15) / 16 * 16 ∧
      (heapInit start size st).mgr.heapEnd = start + size := by
  obtain ⟨halign, hsize⟩ := heapInit_aligned hwrap hroom
  generalize ha : (start + 15) / 16 * 16 = a at *
  have hblock : sub32 (start + size - a) heapBlockSize = start + size - a - 20 := by
    rw [heapBlockSize, sub32_of_le (by omega) (by omega)]
  have hend : add32 a (start + size - a) = start + size := by
    rw [add32_of_lt (by omega)]
    omega
  have hend' : (heapInit start size st).mgr.heapEnd = start + size := by
    simp only [heapInit, halign, hsize, hend]
  refine ⟨⟨⟨a, start + size - a - 20, true⟩, ⟨?_, List.isChain_singleton _, by simp⟩, rfl⟩, halign,
    hend'⟩
  simp only [heapInit, halign, hsize, hblock] at hend' ⊢
  refine ⟨rfl, by dsimp only; omega, lt_of_eq_of_lt hend' hwrap, ⟨rfl, ?_⟩, rfl, ⟨?_, trivial⟩,
    rfl, rfl⟩
  · simp only [tiles_nil, hend']
    omega
  · simp (disch := omega) only [HeapHdr, header_setBlkSize_self, header_setBlkFree_self,
      header_setBlkMagic_self, header_setBlkNext_self, header_setBlkPrev_self, heapMagicFree,
      headAddr_nil, if_true]

end Operations

/-! ### Runs -/

/-- The heap, and the pointers returned and not yet freed. -/
structure HeapRun where
  heap : HeapState
  live : Finset Nat

/-- What the callers of the heap do: `write` stores a byte through a pointer they own. -/
inductive HeapOp
  | malloc (size : Nat)
  | free (ptr : Nat)
  | write (addr : Nat) (v : UInt8)

def heapStep : HeapOp → HeapRun → Option (Nat × HeapRun)
  | .malloc size, s =>
      (heapMalloc size s.heap).map fun r =>
        (r.1, { heap := r.2, live := if r.1 = 0 then s.live else insert r.1 s.live })
  | .free ptr, s => some (0, { heap := heapFree ptr s.heap, live := s.live.erase ptr })
  | .write addr v, s =>
      some (0, { s with heap := { s.heap with mem := store8 s.heap.mem addr v } })

/-- The callers keep to the contract: sizes up to `0xFFFFFFF8`, only live pointers
freed, stores only into live payloads. -/
def HeapAllowed : HeapOp → HeapRun → Prop
  | .malloc size, _ => size ≤ 0xFFFFFFF8
  | .free ptr, s => ptr = 0 ∨ ptr ∈ s.live
  | .write addr _, s =>
      ∃ p ∈ s.live, p ≤ addr ∧ addr < p + blkSize s.heap.mem (p - heapBlockSize)

instance : ∀ (op : HeapOp) (s : HeapRun), Decidable (HeapAllowed op s)
  | .malloc size, _ => inferInstanceAs (Decidable (size ≤ 0xFFFFFFF8))
  | .free ptr, s => inferInstanceAs (Decidable (ptr = 0 ∨ ptr ∈ s.live))
  | .write addr _, s => inferInstanceAs (Decidable
      (∃ p ∈ s.live, p ≤ addr ∧ addr < p + blkSize s.heap.mem (p - heapBlockSize)))

/-- No request meets a free block that fits it with less than a header to spare. -/
def HeapRoomy : HeapOp → HeapRun → Prop
  | .malloc size, s => size = 0 ∨ Roomy s.heap size
  | _, _ => True

/-- The heap of a run is well formed over `[lo, hi)`. -/
structure HeapWellFormed (lo hi : Nat) (s : HeapRun) : Prop where
  start_eq : s.heap.mgr.heapStart = lo
  end_eq : s.heap.mgr.heapEnd = hi
  /-- The list is a tiling by segments, no two neighbours free, correctly counted, and
  its allocated segments are the live pointers. -/
  segments : ∃ bs, HeapInv s.heap bs ∧
    ∀ p, p ∈ s.live ↔ ∃ b ∈ bs, b.free = false ∧ p = b.addr + 20

variable {lo hi : Nat} {s : HeapRun}

theorem HeapWellFormed.inside (h : HeapWellFormed lo hi s) {p : Nat} (hp : p ∈ s.live) :
    lo + 20 ≤ p ∧ p + blkSize s.heap.mem (p - heapBlockSize) ≤ hi := by
  obtain ⟨hlo, hhi, bs, hinv, hlive⟩ := h
  obtain ⟨b, hb, -, rfl⟩ := (hlive p).mp hp
  have := hinv.tiles.bounds hb
  rw [heapBlockSize, Nat.add_sub_cancel, hinv.size_eq hb]
  omega

theorem HeapWellFormed.disjoint (h : HeapWellFormed lo hi s) {p q : Nat} (hp : p ∈ s.live)
    (hq : q ∈ s.live) (hne : p ≠ q) :
    p + blkSize s.heap.mem (p - heapBlockSize) ≤ q ∨
      q + blkSize s.heap.mem (q - heapBlockSize) ≤ p := by
  obtain ⟨-, -, bs, hinv, hlive⟩ := h
  obtain ⟨b, hb, -, rfl⟩ := (hlive p).mp hp
  obtain ⟨c, hc, -, rfl⟩ := (hlive q).mp hq
  rw [heapBlockSize, Nat.add_sub_cancel, Nat.add_sub_cancel, hinv.size_eq hb, hinv.size_eq hc]
  rcases hinv.tiles.apart hb hc (by rintro rfl; exact hne rfl) with h | h <;> omega

theorem heapStep_wellFormed (h : HeapWellFormed lo hi s) {op : HeapOp} (hop : HeapAllowed op s)
    (hroomy : HeapRoomy op s) : ∃ o s', heapStep op s = some (o, s') ∧ HeapWellFormed lo hi s' := by
  obtain ⟨hlo, hhi, bs, hinv, hlive⟩ := h
  cases op with
  | malloc size =>
      rcases heapMalloc_spec hinv hop hroomy with
        he | ⟨b, st, bs', he, hinv', hlo', hhi', hbf, -, -, hmem, -⟩
      · refine ⟨0, s, by simp [heapStep, he], hlo, hhi, bs, hinv, hlive⟩
      · refine ⟨b.addr + 20, ⟨st, insert (b.addr + 20) s.live⟩, by simp [heapStep, he],
          hlo'.trans hlo, hhi'.trans hhi, bs', hinv', fun p => ?_⟩
        rw [Finset.mem_insert, hlive]
        constructor
        · rintro (rfl | ⟨c, hc, hcf, rfl⟩)
          · exact ⟨b, (hmem b hbf).mpr (Or.inl rfl), hbf, rfl⟩
          · exact ⟨c, (hmem c hcf).mpr (Or.inr hc), hcf, rfl⟩
        · rintro ⟨c, hc, hcf, rfl⟩
          rcases (hmem c hcf).mp hc with rfl | hc
          · exact Or.inl rfl
          · exact Or.inr ⟨c, hc, hcf, rfl⟩
  | free ptr =>
      refine ⟨0, _, rfl, ?_⟩
      have hlive0 : 0 ∉ s.live := fun h0 => by
        obtain ⟨b, -, -, hb⟩ := (hlive 0).mp h0
        omega
      rcases hop with rfl | hp
      · refine ⟨hlo, hhi, bs, ?_, fun p => ?_⟩
        · exact hinv
        · rw [Finset.erase_eq_of_notMem hlive0, hlive]
      · obtain ⟨b, hb, hbf, rfl⟩ := (hlive ptr).mp hp
        obtain ⟨xs', f, ys', hinv', hlo', hhi', -, hmem, -⟩ := heapFree_spec hinv hb hbf
        refine ⟨hlo'.trans hlo, hhi'.trans hhi, _, hinv', fun p => ?_⟩
        rw [Finset.mem_erase, hlive]
        constructor
        · rintro ⟨hne, c, hc, hcf, rfl⟩
          exact ⟨c, (hmem c hcf).mpr ⟨hc, by rintro rfl; exact hne rfl⟩, hcf, rfl⟩
        · rintro ⟨c, hc, hcf, rfl⟩
          obtain ⟨hc, hne⟩ := (hmem c hcf).mp hc
          refine ⟨fun he => hne (hinv.tiles.eq_of_addr (by decide) hc hb (by omega)), c, hc, hcf,
            rfl⟩
  | write addr v =>
      obtain ⟨p, hp, h₁, h₂⟩ := hop
      obtain ⟨b, hb, -, rfl⟩ := (hlive p).mp hp
      rw [heapBlockSize, Nat.add_sub_cancel, hinv.size_eq hb] at h₂
      exact ⟨0, _, rfl, hlo, hhi, bs, hinv.store8 hb h₁ h₂, hlive⟩

/-- **The heap over a whole run.**  From `heap_init` on a region that does not wrap
and has 52 bytes once aligned, the heap stays well formed as long as no request
meets a free block that fits it with less than a header to spare. -/
theorem heapRun_wellFormed (st : HeapState) (start size : Nat) (hstart : 0 < start)
    (hwrap : start + size < 4294967296) (hroom : (start + 15) / 16 * 16 + 52 ≤ start + size)
    {ops : List HeapOp}
    (hops : Machine.Meets heapStep (fun op s => HeapAllowed op s ∧ HeapRoomy op s) ops
      ⟨heapInit start size st, ∅⟩) :
    ∃ os s, Machine.run heapStep ops ⟨heapInit start size st, ∅⟩ = some (os, s) ∧
      HeapWellFormed ((start + 15) / 16 * 16) (start + size) s ∧
      (∀ p ∈ s.live, (start + 15) / 16 * 16 ≤ p ∧
        p + blkSize s.heap.mem (p - heapBlockSize) ≤ start + size) ∧
      ∀ p ∈ s.live, ∀ q ∈ s.live, p ≠ q →
        p + blkSize s.heap.mem (p - heapBlockSize) ≤ q ∨
          q + blkSize s.heap.mem (q - heapBlockSize) ≤ p := by
  obtain ⟨⟨b, hinv, hbf⟩, hlo, hhi⟩ := heapInit_inv st start size hstart hwrap hroom
  have hinit : HeapWellFormed ((start + 15) / 16 * 16) (start + size)
      ⟨heapInit start size st, ∅⟩ := ⟨hlo, hhi, [b], hinv, fun p => by simp [hbf]⟩
  obtain ⟨os, s, hrun, h⟩ := Machine.run_total
    (fun op s h hG => heapStep_wellFormed h hG.1 hG.2) hinit hops
  refine ⟨os, s, hrun, h, fun p hp => ?_, fun p hp q hq hne => h.disjoint hp hq hne⟩
  have := h.inside hp
  omega

/-- The heap before `heap_init`, in a memory of zeros. -/
def heapBlank : HeapState := ⟨⟨fun _ => 0⟩, ⟨0, 0, 0, 0, 0, 0, 0⟩, false⟩

/-- The heap of the kernel at the start is one free block of all its bytes. -/
theorem heapInit_kernel :
    HeapInv (heapInit 0x800000 0x400000 heapBlank) [⟨0x800000, 0x3FFFEC, true⟩] := by
  obtain ⟨⟨⟨a, n, f⟩, hinv, hbf⟩, hlo, hhi⟩ :=
    heapInit_inv heapBlank 0x800000 0x400000 (by decide) (by decide) (by decide)
  have ht := hinv.tiles
  rw [hlo, hhi] at ht
  obtain ⟨ha, hn⟩ := ht
  rw [tiles_nil] at hn
  dsimp only at ha hn hbf
  have hn' : n = 0x3FFFEC := by omega
  rw [show a = 0x800000 by omega, hn', hbf] at hinv
  exact hinv

theorem heapInit_kernel_roomy : Roomy (heapInit 0x800000 0x400000 heapBlank) 100 :=
  heapInit_kernel.roomy_iff.mpr (by decide +kernel)

theorem heapRun_wellFormed_kernel :
    ∃ os s, Machine.run heapStep [.malloc 100, .write 0x800020 7, .free 0x800014]
        ⟨heapInit 0x800000 0x400000 heapBlank, ∅⟩ = some (os, s) ∧
      HeapWellFormed 0x800000 0xC00000 s := by
  have hallowed : Machine.Meets heapStep HeapAllowed
      [.malloc 100, .write 0x800020 7, .free 0x800014]
      ⟨heapInit 0x800000 0x400000 heapBlank, ∅⟩ := by decide +kernel
  obtain ⟨os, s, hrun, h, -⟩ :=
    heapRun_wellFormed heapBlank 0x800000 0x400000 (by decide) (by decide)
      (by decide) (Machine.meets_and.mpr ⟨hallowed, Or.inr heapInit_kernel_roomy,
        fun _ _ _ => ⟨trivial, fun _ _ _ => ⟨trivial, fun _ _ _ => trivial⟩⟩⟩)
  exact ⟨os, s, hrun, h⟩

/-- Three of six blocks are freed, each between two that stay in use. -/
def fragmentingOps : List HeapOp :=
  [.malloc 96, .malloc 32, .malloc 48, .malloc 32, .malloc 48, .malloc 32, .free 0x800014,
    .free 0x8000BC, .free 0x800134]

def fragments : List Seg :=
  [⟨0x800000, 96, true⟩, ⟨0x800074, 32, false⟩, ⟨0x8000A8, 48, true⟩, ⟨0x8000EC, 32, false⟩,
    ⟨0x800120, 48, true⟩, ⟨0x800164, 32, false⟩, ⟨0x800198, 0x3FFE54, true⟩]

theorem heapRun_fragments : ∃ os s, Machine.run heapStep fragmentingOps
      ⟨heapInit 0x800000 0x400000 heapBlank, ∅⟩ = some (os, s) ∧ HeapInv s.heap fragments := by
  have hrun : (Machine.run heapStep fragmentingOps
      ⟨heapInit 0x800000 0x400000 heapBlank, ∅⟩).map (fun r =>
        decide (HeapInv r.2.heap fragments)) = some true := by
    decide +kernel
  obtain ⟨⟨os, s⟩, hs, hinv⟩ := Option.map_eq_some_iff.mp hrun
  exact ⟨os, s, hs, of_decide_eq_true hinv⟩

/-- A block of 64 bytes is freed and asked for again.  The exact fit is split all the
same: the header of the live block after it becomes the header of a free block. -/
theorem heapRun_exact_fit :
    Machine.Meets heapStep HeapAllowed
        [.malloc 64, .malloc 32, .free 0x800014, .malloc 64]
        ⟨heapInit 0x800000 0x400000 heapBlank, ∅⟩ ∧
      ∃ os s, Machine.run heapStep [.malloc 64, .malloc 32, .free 0x800014, .malloc 64]
          ⟨heapInit 0x800000 0x400000 heapBlank, ∅⟩ = some (os, s) ∧
        ¬HeapWellFormed 0x800000 0xC00000 s := by
  refine ⟨by decide +kernel, ?_⟩
  have hrun : (Machine.run heapStep [.malloc 64, .malloc 32, .free 0x800014, .malloc 64]
      ⟨heapInit 0x800000 0x400000 heapBlank, ∅⟩).map
        (fun r => (decide (0x800068 ∈ r.2.live), blkFree r.2.heap.mem 0x800054))
      = some (true, 1) := by decide +kernel
  obtain ⟨⟨os, s⟩, hrun, heq⟩ := Option.map_eq_some_iff.mp hrun
  rw [Prod.mk.injEq, decide_eq_true_iff] at heq
  refine ⟨os, s, hrun, fun h => ?_⟩
  obtain ⟨-, -, bs, hinv, hlive⟩ := h
  obtain ⟨b, hb, hbf, he⟩ := (hlive _).mp heq.1
  have hfree := hinv.free_eq hb
  rw [show b.addr = 0x800054 by omega, heq.2, hbf] at hfree
  exact absurd hfree (by decide)

end AceOS.Kernel
