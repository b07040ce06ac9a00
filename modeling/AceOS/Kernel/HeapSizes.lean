import AceOS.Kernel.HeapRealloc

/-!
# Sizes of the kernel heap's allocations

`memory_align_up` wraps around for the last seven sizes of the 32-bit range, which are then
served as the smallest size.  Every other request gets a block that is large enough.
-/

namespace AceOS.Kernel

open Memory Libc Segments

variable {st st' : HeapState} {bs : List Seg} {b c : Seg} {n p q : Nat}
  {out : Option (Nat × HeapState)}

/-! ### The size field -/

/-- The header before the payload is that of an allocated block of at least `n` bytes. -/
def Allocates (st : HeapState) (p n : Nat) : Prop :=
  blkFree st.mem (p - heapBlockSize) = 0 ∧
    blkMagic st.mem (p - heapBlockSize) = heapMagicAllocated ∧
    n ≤ blkSize st.mem (p - heapBlockSize)

instance (st : HeapState) (p n : Nat) : Decidable (Allocates st p n) :=
  inferInstanceAs (Decidable (_ ∧ _ ∧ _))

/-- No free block has the smallest size. -/
def NoneFits (bs : List Seg) : Prop := ∀ b ∈ bs, b.free = true → b.size < minAllocSize

/-- A request for `n` bytes is refused, since no free block has the rounded size, or gets a
block of that size at least. -/
def Serves (st : HeapState) (bs : List Seg) (n : Nat) (out : Option (Nat × HeapState)) : Prop :=
  (out = some (0, st) ∧ ∀ c ∈ bs, c.free = true → c.size < roundSize n) ∨
    ∃ q st', out = some (q, st') ∧ heapBlockSize < q ∧
      (∃ c ∈ bs, c.free = true ∧ roundSize n ≤ c.size) ∧
      Allocates st' q (roundSize n) ∧ blkSize st'.mem (q - heapBlockSize) < 0xFFFFFFF9

theorem roundSize_of_wrap (h : 0xFFFFFFF8 < n) (hn : n < 4294967296) : roundSize n = 32 := by
  rw [roundSize_eq hn]
  omega

/-- **The rounded size is the only thing that can be too small.** -/
theorem Serves.large_iff (h : Serves st bs n out) (hn : n < 4294967296) :
    (∀ q st', out = some (q, st') → q ≠ 0 → Allocates st' q n) ↔
      n ≤ 0xFFFFFFF8 ∨ NoneFits bs := by
  rcases h with ⟨rfl, hnone⟩ | ⟨q, st', rfl, hq, ⟨c, hc, hcf, hfit⟩, ⟨hfree, hmagic, hsize⟩, hlt⟩
  · constructor
    · intro _
      by_cases hwrap : n ≤ 0xFFFFFFF8
      · exact Or.inl hwrap
      · rw [roundSize_of_wrap (by omega) hn] at hnone
        exact Or.inr hnone
    · rintro - q st' he hq
      rw [Option.some.injEq, Prod.mk.injEq] at he
      exact absurd he.1.symm hq
  · constructor
    · intro hall
      have := (hall q st' rfl (by omega)).2.2
      omega
    · rintro (hsmall | hnone) q' st'' he -
      · rw [Option.some.injEq, Prod.mk.injEq] at he
        obtain ⟨rfl, rfl⟩ := he
        exact ⟨hfree, hmagic, by have := (roundSize_spec hsmall).1; omega⟩
      · have hlarge := roundSize_bounds hn
        have := hnone c hc hcf
        rw [minAllocSize] at this
        omega

/-! ### `heap_malloc` -/

theorem takeBlock_words (h : HeapRepr st bs) (hc : c ∈ bs) {size : Nat} (hfit : size ≤ c.size) :
    blkFree (takeBlock c.addr size st).mem c.addr = 0 ∧
      blkMagic (takeBlock c.addr size st).mem c.addr = heapMagicAllocated ∧
      size ≤ blkSize (takeBlock c.addr size st).mem c.addr ∧
      blkSize (takeBlock c.addr size st).mem c.addr ≤ c.size := by
  have hbounds := h.bounds hc
  have hhead : header (takeBlock c.addr size st).mem c.addr
      = { header (splitBlock c.addr size st).mem c.addr with
          free := 0, magic := heapMagicAllocated } := by
    show header (setBlkMagic (setBlkFree (splitBlock c.addr size st).mem c.addr 0) c.addr
      heapMagicAllocated) c.addr = _
    rw [header_setBlkMagic_self (by decide), header_setBlkFree_self (by decide)]
  refine ⟨congrArg Header.free hhead, congrArg Header.magic hhead, ?_⟩
  rw [show blkSize (takeBlock c.addr size st).mem c.addr
    = blkSize (splitBlock c.addr size st).mem c.addr from congrArg Header.size hhead]
  simp only [splitBlock]
  split
  · -- the size is written last
    rw [show ∀ m : Mem, blkSize (setBlkSize m c.addr size) c.addr = size from
      fun m => load32_store32 (by omega)]
    exact ⟨le_rfl, hfit⟩
  · rw [h.size_eq hc]
    exact ⟨hfit, le_rfl⟩

theorem heapMalloc_serves (h : HeapRepr st bs) (hn0 : n ≠ 0) :
    Serves st bs n (heapMalloc n st) := by
  obtain ⟨r, hr, hcase⟩ := findBestFit_spec h (roundSize n)
  rcases hcase with ⟨rfl, hnone⟩ | ⟨c, hc, hcf, hfit, rfl, -⟩
  · exact Or.inl ⟨heapMalloc_of_full h (Or.inr hr), hnone⟩
  · have hbounds := h.bounds hc
    obtain ⟨hfree, hmagic, hle, hge⟩ := takeBlock_words h hc hfit
    refine Or.inr ⟨_, _, heapMalloc_of_fit h hc hn0 hr, by rw [heapBlockSize]; omega,
      ⟨c, hc, hcf, hfit⟩, ?_⟩
    rw [Allocates, heapBlockSize, Nat.add_sub_cancel]
    exact ⟨⟨hfree, hmagic, hle⟩, by omega⟩

/-! ### `heap_calloc` -/

/-- A product that wraps around is noticed by the division. -/
theorem heapCalloc_eq (a b : Nat) (st : HeapState) :
    heapCalloc a b st = if a * b < 4294967296 then
      (heapMalloc (a * b) st).map fun r =>
        if r.1 ≠ 0 then (r.1, { r.2 with mem := memset r.2.mem r.1 0 (a * b) }) else r
      else some (0, st) := by
  by_cases hfits : a * b < 4294967296
  · rw [heapCalloc, if_pos hfits]
    have hmul : mul32 a b = a * b := by rw [mul32, Nat.mod_eq_of_lt hfits]
    have hdiv : ¬(a ≠ 0 ∧ a * b / a ≠ b) :=
      fun h => h.2 (Nat.mul_div_cancel_left b (Nat.pos_of_ne_zero h.1))
    rw [hmul]
    dsimp only
    rw [if_neg hdiv]
    cases heapMalloc (a * b) st with
    | none => rfl
    | some r =>
        obtain ⟨q, st'⟩ := r
        dsimp only [Option.map_some]
        split <;> rfl
  · rw [heapCalloc, if_neg hfits]
    have hlt : mul32 a b < a * b := by
      have := Nat.mod_lt (a * b) (show 4294967296 > 0 by decide)
      rw [mul32]
      omega
    have ha : a ≠ 0 := by
      rintro rfl
      rw [Nat.zero_mul] at hfits
      exact hfits (by decide)
    exact if_pos ⟨ha, Nat.ne_of_lt (Nat.div_lt_of_lt_mul hlt)⟩

theorem Serves.clear (h : Serves st bs n out) (k : Nat) :
    Serves st bs n (out.map fun r =>
      if r.1 ≠ 0 then (r.1, { r.2 with mem := memset r.2.mem r.1 0 k }) else r) := by
  rcases h with ⟨rfl, hnone⟩ | ⟨q, st', rfl, hq, hfit, ⟨hfree, hmagic, hsize⟩, hlt⟩
  · exact Or.inl ⟨rfl, hnone⟩
  · refine Or.inr ⟨q, { st' with mem := memset st'.mem q 0 k }, ?_, hq, hfit, ?_⟩
    · rw [Option.map_some, if_pos (by omega)]
    · have hhead : header (memset st'.mem q 0 k) (q - heapBlockSize)
          = header st'.mem (q - heapBlockSize) := by
        rw [heapBlockSize] at hq ⊢
        refine header_congr fun x h₁ h₂ => ?_
        rw [memset_eq_fill, fill_of_disjoint (by omega)]
      have hsize' := congrArg Header.size hhead
      exact ⟨⟨(congrArg Header.free hhead).trans hfree, (congrArg Header.magic hhead).trans hmagic,
        hsize.trans_eq hsize'.symm⟩, hsize'.trans_lt hlt⟩

/-! ### `heap_realloc` -/

/-- A block that grows, unless the block found is the cramped one right before it. -/
theorem heapRealloc_serves (h : HeapInv st bs) (hb : b ∈ bs) (hbf : b.free = false)
    (hn0 : n ≠ 0) (hn : n < 4294967296) (hgrow : b.size < roundSize n)
    (hcramped : ¬CrampedPrevious b.addr n st) :
    Serves st bs n (heapRealloc (b.addr + 20) n st) := by
  have hround := roundSize_bounds hn
  have hsame := roundSize_roundSize hn
  by_cases hroomy : Roomy st n
  · rcases heapMalloc_serves h.toHeapRepr (n := roundSize n) (by omega) with ⟨he, hnone⟩ |
      ⟨q, st₁, he, hq, hfit, -⟩
    · rw [hsame] at hnone
      refine Or.inl ⟨?_, hnone⟩
      rw [heapRealloc_of_used h.toHeapRepr hb hbf hn0, if_neg (by omega), he]
      rfl
    · rw [hsame] at hfit
      rcases heapRealloc_roomy h hb hbf hn0 hn hgrow hroomy with he' |
        ⟨st', bs', c, he', hm, hle⟩
      · rw [heapRealloc_of_used h.toHeapRepr hb hbf hn0, if_neg (by omega), he, Option.map_some,
          if_neg (by omega), Option.some.injEq, Prod.mk.injEq] at he'
        omega
      · have hbounds := hm.inv.bounds hm.mem
        have hsize := hm.inv.size_eq hm.mem
        have hfree := hm.inv.free_eq hm.mem
        have hmagic := hm.inv.magic_eq hm.mem
        rw [hm.live] at hfree hmagic
        refine Or.inr ⟨_, st', he', by rw [heapBlockSize]; omega, hfit, ?_⟩
        rw [Allocates, heapBlockSize, Nat.add_sub_cancel]
        exact ⟨⟨hfree, hmagic, by omega⟩, by omega⟩
  · obtain ⟨c, hc, hcf, hfit, hle, hspare⟩ := cramped_of_not_roomy h hroomy
    have hbounds := h.bounds hc
    have hown : c.addr + 20 + c.size ≠ b.addr := fun hown =>
      hcramped (crampedPrevious_of_adjacent h.toHeapRepr hb hc hown hfit hspare)
    obtain ⟨st', he, -, ⟨hsize, hfree, hmagic, -⟩, -⟩ :=
      heapRealloc_overlap h hb hbf hn0 hn hgrow hc hcf hfit hle hspare hown
    refine Or.inr ⟨_, st', he, by rw [heapBlockSize]; omega, ⟨c, hc, hcf, hle⟩, ?_⟩
    rw [Allocates, heapBlockSize, Nat.add_sub_cancel]
    exact ⟨⟨hfree, hmagic, by omega⟩, by omega⟩

/-! ### The three requests -/

inductive HeapRequest
  | malloc (size : Nat)
  | calloc (nmemb size : Nat)
  | realloc (ptr size : Nat)

def HeapRequest.bytes : HeapRequest → Nat
  | .malloc size => size
  | .calloc nmemb size => nmemb * size
  | .realloc _ size => size

def HeapRequest.serve : HeapRequest → HeapState → Option (Nat × HeapState)
  | .malloc size => heapMalloc size
  | .calloc nmemb size => heapCalloc nmemb size
  | .realloc ptr size => heapRealloc ptr size

/-- The arguments are 32-bit values, and the pointer is live. -/
def HeapRequest.Proper (bs : List Seg) : HeapRequest → Prop
  | .malloc size => size < 2 ^ 32
  | .calloc nmemb size => nmemb < 2 ^ 32 ∧ size < 2 ^ 32
  | .realloc ptr size => size < 2 ^ 32 ∧ ∃ b ∈ bs, b.free = false ∧ ptr = b.addr + 20

/-- The size is not one of the last seven, or there is no block it could get. -/
def HeapRequest.Rounds (st : HeapState) (bs : List Seg) : HeapRequest → Prop
  | .malloc size => size ≤ 0xFFFFFFF8 ∨ NoneFits bs
  | .calloc nmemb size => nmemb * size ≤ 0xFFFFFFF8 ∨ 2 ^ 32 ≤ nmemb * size ∨ NoneFits bs
  | .realloc ptr size => size ≤ 0xFFFFFFF8 ∨
      (blkSize st.mem (ptr - heapBlockSize) < minAllocSize ∧ NoneFits bs)

/-- The block that grows is the one whose header `split_block` overwrites. -/
def HeapRequest.Cramped (st : HeapState) : HeapRequest → Prop
  | .malloc _ => False
  | .calloc _ _ => False
  | .realloc ptr size => blkSize st.mem (ptr - heapBlockSize) < roundSize size ∧
      CrampedPrevious (ptr - heapBlockSize) size st

/-- The result is null or a block with the bytes asked for. -/
def HeapRequest.Large (st : HeapState) (r : HeapRequest) : Prop :=
  ∀ q st', r.serve st = some (q, st') → q ≠ 0 → Allocates st' q r.bytes

theorem malloc_large_iff (h : HeapInv st bs) (hn : n < 4294967296) :
    (HeapRequest.malloc n).Large st ↔ n ≤ 0xFFFFFFF8 ∨ NoneFits bs := by
  by_cases hn0 : n = 0
  · subst hn0
    refine iff_of_true ?_ (Or.inl (Nat.zero_le _))
    intro q st' he hq
    rw [HeapRequest.serve, heapMalloc_of_full h.toHeapRepr (Or.inl rfl), Option.some.injEq,
      Prod.mk.injEq] at he
    exact absurd he.1.symm hq
  · exact (heapMalloc_serves h.toHeapRepr hn0).large_iff hn

theorem calloc_large_iff (h : HeapInv st bs) (a b : Nat) :
    (HeapRequest.calloc a b).Large st ↔
      a * b ≤ 0xFFFFFFF8 ∨ 2 ^ 32 ≤ a * b ∨ NoneFits bs := by
  have heq := heapCalloc_eq a b st
  by_cases hfits : a * b < 4294967296
  · rw [if_pos hfits] at heq
    have hiff : (HeapRequest.calloc a b).Large st ↔ a * b ≤ 0xFFFFFFF8 ∨ NoneFits bs := by
      rw [HeapRequest.Large, HeapRequest.serve, heq]
      by_cases hn0 : a * b = 0
      · refine iff_of_true ?_ (Or.inl (by omega))
        intro q st' he hq
        rw [heapMalloc_of_full h.toHeapRepr (Or.inl hn0), Option.map_some, if_neg (by simp),
          Option.some.injEq, Prod.mk.injEq] at he
        exact absurd he.1.symm hq
      · exact ((heapMalloc_serves h.toHeapRepr hn0).clear (a * b)).large_iff hfits
    rw [hiff]
    exact or_congr_right (or_iff_right (Nat.not_le.mpr hfits)).symm
  · rw [if_neg hfits] at heq
    refine iff_of_true ?_ (Or.inr (Or.inl (Nat.not_lt.mp hfits)))
    intro q st' he hq
    rw [HeapRequest.serve, heq, Option.some.injEq, Prod.mk.injEq] at he
    exact absurd he.1.symm hq

theorem realloc_large_iff (h : HeapInv st bs) (hb : b ∈ bs) (hbf : b.free = false)
    (hn : n < 4294967296) (hcramped : ¬(HeapRequest.realloc (b.addr + 20) n).Cramped st) :
    (HeapRequest.realloc (b.addr + 20) n).Large st ↔
      n ≤ 0xFFFFFFF8 ∨ (b.size < minAllocSize ∧ NoneFits bs) := by
  have hbounds := h.bounds hb
  rw [HeapRequest.Cramped, heapBlockSize, Nat.add_sub_cancel, h.size_eq hb] at hcramped
  rw [HeapRequest.Large, HeapRequest.serve]
  by_cases hn0 : n = 0
  · refine iff_of_true ?_ (Or.inl (by omega))
    intro q st' he hq
    rw [heapRealloc, if_neg (by omega), if_pos hn0, Option.some.injEq, Prod.mk.injEq] at he
    exact absurd he.1.symm hq
  by_cases hgrow : b.size < roundSize n
  · rw [HeapRequest.bytes, (heapRealloc_serves h hb hbf hn0 hn hgrow
      (fun hc => hcramped ⟨hgrow, hc⟩)).large_iff hn]
    refine or_congr_right' fun hwrap => ?_
    rw [roundSize_of_wrap (by omega) hn] at hgrow
    exact (and_iff_right hgrow).symm
  · -- the block is large enough for the rounded size
    rw [heapRealloc_of_used h.toHeapRepr hb hbf hn0, if_pos (by omega), HeapRequest.bytes]
    have hsize := h.size_eq hb
    constructor
    · intro hall
      have hle := (hall _ st rfl (by omega)).2.2
      rw [heapBlockSize, Nat.add_sub_cancel, hsize] at hle
      omega
    · rintro (hsmall | ⟨hlt, -⟩) q st' he -
      · rw [Option.some.injEq, Prod.mk.injEq] at he
        obtain ⟨rfl, rfl⟩ := he
        have hround := (roundSize_spec hsmall).1
        have hfree := h.free_eq hb
        have hmagic := h.magic_eq hb
        rw [hbf] at hfree hmagic
        rw [Allocates, heapBlockSize, Nat.add_sub_cancel, hsize]
        exact ⟨hfree, hmagic, by omega⟩
      · have := (roundSize_bounds hn).1
        rw [minAllocSize] at hlt
        omega

/-- **An allocation is at least as large as requested** unless the size is one of the last seven
and a block of the smallest size is there for it; for a block that grows into the one right
before it with less than a header to spare nothing is said. -/
theorem heapRequest_large (st : HeapState) (bs : List Seg) (h : HeapInv st bs) (r : HeapRequest)
    (hr : r.Proper bs) :
    (r.Rounds st bs ∧ ¬r.Cramped st → r.Large st) ∧
    (r.Large st → r.Rounds st bs ∨ r.Cramped st) := by
  have hiff : ¬r.Cramped st → (r.Large st ↔ r.Rounds st bs) := by
    intro hcramped
    cases r with
    | malloc n => exact malloc_large_iff h hr
    | calloc a b => exact calloc_large_iff h a b
    | realloc p n =>
        obtain ⟨hn, b, hb, hbf, rfl⟩ := hr
        rw [realloc_large_iff h hb hbf hn hcramped, HeapRequest.Rounds, heapBlockSize,
          Nat.add_sub_cancel, h.size_eq hb]
  constructor
  · rintro ⟨hrounds, hcramped⟩
    exact (hiff hcramped).mpr hrounds
  · intro hlarge
    by_cases hcramped : r.Cramped st
    · exact Or.inr hcramped
    · exact Or.inl ((hiff hcramped).mp hlarge)

theorem heapRequest_large_kernel :
    (HeapRequest.calloc 10 10).Large (heapInit 0x800000 0x400000 heapBlank) :=
  (heapRequest_large _ _ heapInit_kernel (.calloc 10 10) ⟨by decide, by decide⟩).1
    ⟨Or.inl (by decide), id⟩

/-- `0xFFFFFFFF` bytes are served with 32. -/
theorem heapMalloc_short : HeapInv (heapInit 0x800000 0x400000 heapBlank)
    [⟨0x800000, 0x3FFFEC, true⟩] ∧
    ¬(HeapRequest.malloc 0xFFFFFFFF).Large (heapInit 0x800000 0x400000 heapBlank) := by
  have hshort : ((heapMalloc 0xFFFFFFFF (heapInit 0x800000 0x400000 heapBlank)).map fun r =>
      (r.1, blkSize r.2.mem (r.1 - heapBlockSize))) = some (0x800014, 32) := by decide +kernel
  obtain ⟨⟨q, st'⟩, he, hq⟩ := Option.map_eq_some_iff.mp hshort
  rw [Prod.mk.injEq] at hq
  obtain ⟨rfl, hsize⟩ := hq
  refine ⟨heapInit_kernel, fun hlarge => ?_⟩
  have hle := (hlarge _ _ he (by decide)).2.2
  dsimp only at hsize
  rw [hsize] at hle
  exact absurd hle (by decide)

end AceOS.Kernel
