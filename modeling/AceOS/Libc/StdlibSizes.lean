import AceOS.Libc.StdlibRun

/-!
# Sizes of the libc heap's allocations

`malloc` rounds in 32-bit arithmetic, so the last seven sizes become the smallest one, and
`calloc` passes on the product modulo 2^32.  Nothing checks either, and such a request is
refused only if the heap has no block for the size it has become.
-/

namespace AceOS.Libc

open Memory Segments

variable {heap : Nat} {s : LibcRun} {m : Mem} {bs : List Seg} {b c : Seg} {n p : Nat}

/-! ### Requests -/

inductive LibcRequest
  | malloc (size : Nat)
  | calloc (nmemb size : Nat)
  | realloc (ptr size : Nat)

def LibcRequest.bytes : LibcRequest → Nat
  | .malloc size => size
  | .calloc nmemb size => nmemb * size
  | .realloc _ size => size

/-- The size `malloc` is called with. -/
def LibcRequest.passed : LibcRequest → Nat
  | .malloc size => size
  | .calloc nmemb size => mul32 nmemb size
  | .realloc _ size => size

def LibcRequest.serve (heap : Nat) : LibcRequest → LibcHeap → Option (Nat × LibcHeap)
  | .malloc size => Libc.malloc heap size
  | .calloc nmemb size => Libc.calloc heap nmemb size
  | .realloc ptr size => Libc.realloc heap ptr size

/-- The arguments are 32-bit values, and the pointer is live. -/
def LibcRequest.Proper (s : LibcRun) : LibcRequest → Prop
  | .malloc size => size < 2 ^ 32
  | .calloc nmemb size => nmemb < 2 ^ 32 ∧ size < 2 ^ 32
  | .realloc ptr size => size < 2 ^ 32 ∧ ptr ∈ s.live

/-- `q` is null, or the payload of an allocated block of at least `n` bytes. -/
def Obtains (st : LibcHeap) (q n : Nat) : Prop :=
  q = 0 ∨ ∃ b ∈ memoryBlocks st, b.free = false ∧ q = b.addr + 12 ∧ n ≤ b.size

/-- The `memset` of `calloc` and the `memcpy` of `realloc` stay inside the block `malloc` has
returned to them. -/
def LibcRequest.Inside (heap : Nat) (st : LibcHeap) : LibcRequest → Prop
  | .malloc _ => True
  | .calloc nmemb size => ∀ q st', Libc.malloc heap (mul32 nmemb size) st = some (q, st') → q ≠ 0 →
      mul32 nmemb size ≤ blockSize st'.mem (q - memoryBlockSize)
  | .realloc ptr size => ∀ q st', Libc.malloc heap size st = some (q, st') → q ≠ 0 →
      blockSize st.mem (ptr - memoryBlockSize) < size →
      blockSize st'.mem (ptr - memoryBlockSize) ≤ blockSize st'.mem (q - memoryBlockSize)

/-- The request returns, with null or a block of the bytes asked for, and writes only there. -/
def LibcRequest.Large (heap : Nat) (st : LibcHeap) (r : LibcRequest) : Prop :=
  r.Inside heap st ∧ ∃ q st', r.serve heap st = some (q, st') ∧ Obtains st' q r.bytes

/-- The heap has a free block for a request of `n` bytes as `malloc` rounds it. -/
def Fits (heap : Nat) (st : LibcHeap) (n : Nat) : Prop :=
  ∃ b ∈ memoryBlocks (initializeHeap heap st), b.free = true ∧ mallocSize n ≤ b.size

/-- The bytes are not too many for the arithmetic, or there is no block they could get. -/
def LibcRequest.Rounds (heap : Nat) (st : LibcHeap) (r : LibcRequest) : Prop :=
  r.bytes ≤ 0xFFFFFFF8 ∨ ¬Fits heap st r.passed

/-! ### Rounding -/

theorem mallocSize_eq (n : Nat) :
    mallocSize n = max 16 (if n % 8 ≠ 0 then (n / 8 + 1) * 8 % 4294967296 else n) := by
  rw [mallocSize]
  unfold mul32
  split <;> split <;> omega

theorem le_mallocSize (hn : n ≤ 0xFFFFFFF8) : n ≤ mallocSize n := by
  rw [mallocSize_eq]
  split <;> omega

/-! ### One `malloc` -/

/-- `malloc` in any state: it refuses for want of a block, or takes one that is large enough
for the rounded size and leaves the live blocks where they are. -/
theorem malloc_outcome (h₀ : 0 < heap) (h₁ : heap + heapSize < 4294967296) (h : LibcInv heap s)
    (n : Nat) :
    (∃ st', malloc heap n s.st = some (0, st') ∧ ¬Fits heap s.st n) ∨
      ∃ b bs' st', malloc heap n s.st = some (b.addr + 12, st') ∧ LibcRepr heap st'.mem bs' ∧
        st'.freeList = headAddr bs' 0 ∧ b ∈ bs' ∧ b.free = false ∧ mallocSize n ≤ b.size ∧
        Fits heap s.st n ∧
        ∀ p ∈ s.live, ∃ c ∈ bs', c.free = false ∧ p = c.addr + 12 ∧ c ≠ b ∧
          blockSize s.st.mem c.addr = c.size := by
  obtain ⟨bs, hrepr, hfirst, hlive⟩ := h.tiled_initializeHeap h₀ h₁
  have hblocks : memoryBlocks (initializeHeap heap s.st) = bs := hrepr.memoryBlocks_eq hfirst
  rw [Fits, hblocks, ← malloc_initializeHeap]
  rcases malloc_spec hrepr hfirst (initializeHeap_initialized heap s.st) n with
    ⟨he, hnone⟩ | ⟨b, bs', st', he, -, hrepr', hfirst', hbf, hsize, ⟨d, hd, hdf, hda, hds⟩, hmem, -⟩
  · refine Or.inl ⟨_, he, ?_⟩
    intro ⟨c, hc, hcf, hle⟩
    have := hnone c hc hcf
    omega
  · refine Or.inr ⟨b, bs', st', he, hrepr', hfirst', (hmem b hbf).mpr (Or.inl rfl), hbf, hsize,
      ⟨d, hd, hdf, hds⟩, ?_⟩
    intro p hp
    obtain ⟨c, hc, hcf, hpc⟩ := (hlive p).mp hp
    refine ⟨c, (hmem c hcf).mpr (Or.inr hc), hcf, hpc, ?_, ?_⟩
    · -- the block taken was free
      intro hcb
      have hcd : c = d := hrepr.tiles.eq_of_addr (by decide) hc hd (by rw [hcb, hda])
      rw [hcd, hdf] at hcf
      exact absurd hcf (by decide)
    · have hkeep : initializeHeap heap s.st = s.st :=
        initializeHeap_of_initialized heap (h.tiled hp).1
      rw [← hrepr.size_eq hc, hkeep]

/-- A block of the heap is smaller than any size the arithmetic spoils. -/
theorem Obtains.small {st : LibcHeap} (h : LibcRepr heap st.mem bs)
    (hfirst : st.freeList = headAddr bs 0) (hb : b ∈ bs) (hn : Obtains st (b.addr + 12) n) :
    n ≤ b.size ∧ n ≤ 0xFFFFFFF8 := by
  rcases hn with h0 | ⟨c, hc, -, hca, hle⟩
  · omega
  · rw [h.memoryBlocks_eq hfirst] at hc
    obtain rfl : c = b := h.tiles.eq_of_addr (by decide) hc hb (by omega)
    have hbounds := (h.bounds hb).2.2
    rw [heapSize] at hbounds
    omega

/-- An allocated block of the list serves every request up to its size. -/
theorem obtains_of_mem {st : LibcHeap} (h : LibcRepr heap st.mem bs)
    (hfirst : st.freeList = headAddr bs 0) (hb : b ∈ bs) (hbf : b.free = false)
    (hn : n ≤ b.size) : Obtains st (b.addr + 12) n := by
  refine Or.inr ⟨b, ?_, hbf, rfl, hn⟩
  rwa [h.memoryBlocks_eq hfirst]

/-! ### The three requests -/

section Requests

variable (h₀ : 0 < heap) (h₁ : heap + heapSize < 4294967296) (h : LibcInv heap s)
include h₀ h₁ h

theorem malloc_large (n : Nat) :
    (LibcRequest.malloc n).Large heap s.st ↔ (LibcRequest.malloc n).Rounds heap s.st := by
  rcases malloc_outcome h₀ h₁ h n with
    ⟨st', he, hnofit⟩ | ⟨b, bs, st', he, hrepr, hfirst, hb, hbf, hsize, hfit, -⟩
  · exact iff_of_true ⟨trivial, 0, st', he, Or.inl rfl⟩ (Or.inr hnofit)
  · constructor
    · rintro ⟨-, q, st'', he', hq⟩
      rw [LibcRequest.serve, he, Option.some.injEq, Prod.mk.injEq] at he'
      obtain ⟨rfl, rfl⟩ := he'
      exact Or.inl (Obtains.small hrepr hfirst hb hq).2
    · rintro (hn | hnofit)
      · have hle := le_mallocSize hn
        refine ⟨trivial, _, st', he, obtains_of_mem hrepr hfirst hb hbf ?_⟩
        exact hle.trans hsize
      · exact absurd hfit hnofit

theorem calloc_large (x y : Nat) :
    (LibcRequest.calloc x y).Large heap s.st ↔ (LibcRequest.calloc x y).Rounds heap s.st := by
  rcases malloc_outcome h₀ h₁ h (mul32 x y) with
    ⟨st', he, hnofit⟩ | ⟨b, bs, st', he, hrepr, hfirst, hb, hbf, hsize, hfit, -⟩
  · refine iff_of_true ⟨?_, 0, st', ?_, Or.inl rfl⟩ (Or.inr hnofit)
    · intro q st'' he' hq
      rw [he, Option.some.injEq, Prod.mk.injEq] at he'
      exact absurd he'.1.symm hq
    · simp [LibcRequest.serve, calloc, he]
  · have hfield : blockSize st'.mem (b.addr + 12 - memoryBlockSize) = b.size := by
      rw [memoryBlockSize, Nat.add_sub_cancel, hrepr.size_eq hb]
    -- what stays inside the payload leaves the list as it is
    have hclear : mul32 x y ≤ b.size → ∃ st'',
        (LibcRequest.calloc x y).serve heap s.st = some (b.addr + 12, st'') ∧
          LibcRepr heap st''.mem bs ∧ st''.freeList = headAddr bs 0 := by
      intro hle
      refine ⟨{ st' with mem := memset st'.mem (b.addr + 12) 0 (mul32 x y) }, ?_, ?_, hfirst⟩
      · simp [LibcRequest.serve, calloc, he]
      · refine hrepr.payload hb ?_
        intro z hz
        rw [memset_eq_fill, fill_of_disjoint (by omega)]
    constructor
    · rintro ⟨hinside, q, st'', he', hq⟩
      have hle := hinside _ st' he (by omega)
      rw [hfield] at hle
      obtain ⟨st₂, hserve, hrepr₂, hfirst₂⟩ := hclear hle
      rw [hserve, Option.some.injEq, Prod.mk.injEq] at he'
      obtain ⟨rfl, rfl⟩ := he'
      exact Or.inl (Obtains.small hrepr₂ hfirst₂ hb hq).2
    · rintro (hn | hnofit)
      · rw [LibcRequest.bytes] at hn
        have hmul : mul32 x y = x * y := by rw [mul32, Nat.mod_eq_of_lt (by omega)]
        rw [← hmul] at hn
        have hle : mul32 x y ≤ b.size := (le_mallocSize hn).trans hsize
        obtain ⟨st₂, hserve, hrepr₂, hfirst₂⟩ := hclear hle
        refine ⟨?_, _, st₂, hserve, obtains_of_mem hrepr₂ hfirst₂ hb hbf ?_⟩
        swap
        · rwa [LibcRequest.bytes, ← hmul]
        intro q st'' he' _
        rw [he, Option.some.injEq, Prod.mk.injEq] at he'
        obtain ⟨rfl, rfl⟩ := he'
        rwa [hfield]
      · exact absurd hfit hnofit

theorem realloc_large (hp : p ∈ s.live) (n : Nat) :
    (LibcRequest.realloc p n).Large heap s.st ↔ (LibcRequest.realloc p n).Rounds heap s.st := by
  have hp0 : p ≠ 0 := h.ne_zero hp
  obtain ⟨hinit, bs₀, hrepr₀, hfirst₀, hlive₀⟩ := h.tiled hp
  obtain ⟨c₀, hc₀, hcf₀, rfl⟩ := (hlive₀ p).mp hp
  have hbounds₀ := hrepr₀.bounds hc₀
  rw [heapSize] at hbounds₀
  have hsub : sub32 (c₀.addr + 12) memoryBlockSize = c₀.addr := by
    rw [memoryBlockSize, sub32_of_le (by omega) (by omega), Nat.add_sub_cancel]
  have hfield₀ : blockSize s.st.mem (c₀.addr + 12 - memoryBlockSize) = c₀.size := by
    rw [memoryBlockSize, Nat.add_sub_cancel, hrepr₀.size_eq hc₀]
  by_cases hn0 : n = 0
  · -- `realloc(p, 0)` is `free(p)`
    subst hn0
    obtain ⟨xs, ys, rfl⟩ := List.append_of_mem hc₀
    obtain ⟨bs', st', hfree, -⟩ := free_spec hrepr₀ hfirst₀ hcf₀
    refine iff_of_true ⟨?_, 0, st', ?_, Or.inl rfl⟩ (Or.inl (Nat.zero_le _))
    · intro q st'' _ _ hlt
      omega
    · rw [LibcRequest.serve, realloc, if_neg hp0, if_pos rfl, hfree, Option.map_some]
  by_cases hgrow : n ≤ c₀.size
  · refine iff_of_true ⟨?_, _, s.st, ?_, obtains_of_mem hrepr₀ hfirst₀ hc₀ hcf₀ hgrow⟩
      (Or.inl (by rw [LibcRequest.bytes]; omega))
    · intro q st'' _ _ hlt
      omega
    · rw [LibcRequest.serve, realloc, if_neg hp0, if_neg hn0]
      simp only [hsub, hrepr₀.size_eq hc₀, if_pos hgrow]
  rcases malloc_outcome h₀ h₁ h n with
    ⟨st', he, hnofit⟩ | ⟨b, bs, st', he, hrepr, hfirst, hb, hbf, hsize, hfit, hkeep⟩
  · refine iff_of_true ⟨?_, 0, st', ?_, Or.inl rfl⟩ (Or.inr hnofit)
    · intro q st'' he' hq
      rw [he, Option.some.injEq, Prod.mk.injEq] at he'
      exact absurd he'.1.symm hq
    · rw [LibcRequest.serve, realloc, if_neg hp0, if_neg hn0]
      simp only [hsub, hrepr₀.size_eq hc₀, if_neg hgrow, he, if_true]
  · obtain ⟨c, hc, hcf, hpc, hcb, hold⟩ := hkeep _ hp
    obtain rfl : c = c₀ := by
      have haddr : c.addr = c₀.addr := by omega
      rw [haddr, hrepr₀.size_eq hc₀] at hold
      cases c
      cases c₀
      simp_all
    have hfield : ∀ d ∈ bs, blockSize st'.mem (d.addr + 12 - memoryBlockSize) = d.size := by
      intro d hd
      rw [memoryBlockSize, Nat.add_sub_cancel, hrepr.size_eq hd]
    -- the copy stays inside the new block, so `free` finds the list intact
    have hmove : c.size ≤ b.size → ∃ bs' st'',
        (LibcRequest.realloc (c.addr + 12) n).serve heap s.st = some (b.addr + 12, st'') ∧
          LibcRepr heap st''.mem bs' ∧ st''.freeList = headAddr bs' 0 ∧ b ∈ bs' := by
      intro hle
      have hcopy : LibcRepr heap (memcpy st'.mem (b.addr + 12) (c.addr + 12) c.size) bs := by
        refine hrepr.payload hb ?_
        intro z hz
        exact memcpy_of_outside (by omega)
      obtain ⟨xs, ys, rfl⟩ := List.append_of_mem hc
      obtain ⟨bs', st'', hfree, -, hrepr'', hfirst'', hmem, -⟩ :=
        @free_spec _ _ _ _ { st' with mem := memcpy st'.mem (b.addr + 12) (c.addr + 12) c.size }
          hcopy hfirst hcf
      refine ⟨bs', st'', ?_, hrepr'', hfirst'', (hmem b hbf).mpr ⟨hb, hcb.symm⟩⟩
      rw [LibcRequest.serve, realloc, if_neg hp0, if_neg hn0]
      simp only [hsub, hrepr₀.size_eq hc₀, if_neg hgrow, he, hrepr.size_eq hc]
      rw [if_neg (by omega), hfree, Option.map_some]
    constructor
    · rintro ⟨hinside, q, st'', he', hq⟩
      have hle := hinside _ st' he (by omega) (by rw [hfield₀]; omega)
      rw [hfield c hc, hfield b hb] at hle
      obtain ⟨bs', st₂, hserve, hrepr₂, hfirst₂, hb₂⟩ := hmove hle
      rw [hserve, Option.some.injEq, Prod.mk.injEq] at he'
      obtain ⟨rfl, rfl⟩ := he'
      exact Or.inl (Obtains.small hrepr₂ hfirst₂ hb₂ hq).2
    · rintro (hn | hnofit)
      · have hround := le_mallocSize (show n ≤ 0xFFFFFFF8 from hn)
        obtain ⟨bs', st₂, hserve, hrepr₂, hfirst₂, hb₂⟩ := hmove (by omega)
        refine ⟨?_, _, st₂, hserve, obtains_of_mem hrepr₂ hfirst₂ hb₂ hbf (hround.trans hsize)⟩
        intro q st'' he' _ _
        rw [he, Option.some.injEq, Prod.mk.injEq] at he'
        obtain ⟨rfl, rfl⟩ := he'
        rw [hfield c hc, hfield b hb]
        omega
      · exact absurd hfit hnofit

end Requests

/-- **A libc allocation is as large as requested exactly when** the bytes asked for survive the
32-bit arithmetic, or the heap has no block for what they have become. -/
theorem libcRequest_large_iff (heap : Nat) (h₀ : 0 < heap) (h₁ : heap + heapSize < 4294967296)
    (s : LibcRun) (h : LibcInv heap s) (r : LibcRequest) (hr : r.Proper s) :
    r.Large heap s.st ↔ r.Rounds heap s.st := by
  cases r with
  | malloc n => exact malloc_large h₀ h₁ h n
  | calloc x y => exact calloc_large h₀ h₁ h x y
  | realloc p n => exact realloc_large h₀ h₁ h hr.2 n

theorem libcRequest_large_start :
    (LibcRequest.calloc 10 10).Large 0x20000 (libcStart ⟨fun _ => 0⟩).st :=
  (libcRequest_large_iff 0x20000 (by decide) (by decide) (libcStart ⟨fun _ => 0⟩) ⟨rfl, rfl⟩
    (.calloc 10 10) ⟨by decide, by decide⟩).mpr (Or.inl (by decide))

/-- `calloc(0x10000, 0x10000)` returns a block of 16 bytes, and so does `malloc(0xFFFFFFFF)`. -/
theorem libcRequest_short :
    LibcInv 0x20000 (libcStart ⟨fun _ => 0⟩) ∧
      ¬(LibcRequest.calloc 0x10000 0x10000).Large 0x20000 (libcStart ⟨fun _ => 0⟩).st ∧
      ¬(LibcRequest.malloc 0xFFFFFFFF).Large 0x20000 (libcStart ⟨fun _ => 0⟩).st := by
  have hinv : LibcInv 0x20000 (libcStart ⟨fun _ => 0⟩) := ⟨rfl, rfl⟩
  have hfits : ∀ n, mallocSize n = 16 → Fits 0x20000 (libcStart ⟨fun _ => 0⟩).st n := by
    intro n hn
    refine ⟨⟨0x20000, heapSize - 12, true⟩, ?_, rfl, by rw [hn]; decide⟩
    rw [LibcRepr.memoryBlocks_eq (initializeHeap_repr (by decide) (by decide) rfl) rfl]
    exact List.mem_singleton.mpr rfl
  refine ⟨hinv, ?_, ?_⟩
  · rw [calloc_large (by decide) (by decide) hinv]
    rintro (hbytes | hnofit)
    · exact absurd hbytes (by decide)
    · exact hnofit (hfits _ (by decide +kernel))
  · rw [malloc_large (by decide) (by decide) hinv]
    rintro (hbytes | hnofit)
    · exact absurd hbytes (by decide)
    · exact hnofit (hfits _ (by decide +kernel))

end AceOS.Libc
