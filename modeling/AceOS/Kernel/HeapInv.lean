import AceOS.Kernel.Heap
import AceOS.Lib.Machine
import AceOS.Lib.Segments
import Mathlib.Data.Finset.Insert

/-!
# The kernel heap tiles its region

`HeapRepr st bs` says that the heap in memory is the list of segments `bs`: the
segments tile `[heap_start, heap_end)`, each has its header in memory with both
links, and the counters count them.  `HeapInv` adds that no two neighbours are
free.

The memory side is done once, on headers: a store into one header leaves every
header at least 20 bytes away alone (`header_of_apart`), and inside a tiling
different headers are that far apart.  Each internal step of the source then has
one lemma about `HeapRepr`: `takeBlock_repr`, `releaseBlock_repr`,
`absorbBlock_repr`.

`split_block` on a block that fits the request but has less than a header's size
to spare computes a remainder that wraps, and then writes a header over what
follows: `splitBlock_repr` needs `size + 20 ≤ b.size`.
-/

namespace AceOS.Kernel

open Memory Segments

/-! ### Headers -/

structure Header where
  size : Nat
  free : Nat
  magic : Nat
  next : Nat
  prev : Nat
  deriving DecidableEq

def header (m : Mem) (b : Nat) : Header :=
  ⟨blkSize m b, blkFree m b, blkMagic m b, blkNext m b, blkPrev m b⟩

theorem header_congr {m m' : Mem} {b : Nat} (h : ∀ x, b ≤ x → x < b + 20 → m x = m' x) :
    header m b = header m' b := by
  have hw : ∀ k, k + 4 ≤ 20 → load32 m (b + k) = load32 m' (b + k) := fun k hk =>
    load32_congr fun x h₁ h₂ => h x (by omega) (by omega)
  have h₀ := hw 0 (by decide)
  have h₁ := hw 4 (by decide)
  have h₂ := hw 8 (by decide)
  have h₃ := hw 12 (by decide)
  have h₄ := hw 16 (by decide)
  rw [Nat.add_zero] at h₀
  simp only [header, blkSize, blkFree, blkMagic, blkNext, blkPrev, h₀, h₁, h₂, h₃, h₄]

/-- A store into the header at `a` leaves a header that is 20 bytes away alone. -/
theorem header_of_apart {m : Mem} {a b k v : Nat} (hk : k + 4 ≤ 20) (h : a + 20 ≤ b ∨ b + 20 ≤ a) :
    header (store32 m (a + k) v) b = header m b :=
  header_congr fun x h₁ h₂ => store32_of_disjoint (by omega)

section Setters

variable {m : Mem} {a b v : Nat}

theorem header_setBlkSize_self (hv : v < 4294967296) :
    header (setBlkSize m b v) b = { header m b with size := v } := by
  simp only [header, setBlkSize, blkSize, blkFree, blkMagic, blkNext, blkPrev]
  rw [load32_store32 hv, load32_store32_of_disjoint (by omega),
    load32_store32_of_disjoint (by omega),
    load32_store32_of_disjoint (by omega), load32_store32_of_disjoint (by omega)]

theorem header_setBlkFree_self (hv : v < 4294967296) :
    header (setBlkFree m b v) b = { header m b with free := v } := by
  simp only [header, setBlkFree, blkSize, blkFree, blkMagic, blkNext, blkPrev]
  rw [load32_store32 hv, load32_store32_of_disjoint (by omega),
    load32_store32_of_disjoint (by omega),
    load32_store32_of_disjoint (by omega), load32_store32_of_disjoint (by omega)]

theorem header_setBlkMagic_self (hv : v < 4294967296) :
    header (setBlkMagic m b v) b = { header m b with magic := v } := by
  simp only [header, setBlkMagic, blkSize, blkFree, blkMagic, blkNext, blkPrev]
  rw [load32_store32 hv, load32_store32_of_disjoint (by omega),
    load32_store32_of_disjoint (by omega),
    load32_store32_of_disjoint (by omega), load32_store32_of_disjoint (by omega)]

theorem header_setBlkNext_self (hv : v < 4294967296) :
    header (setBlkNext m b v) b = { header m b with next := v } := by
  simp only [header, setBlkNext, blkSize, blkFree, blkMagic, blkNext, blkPrev]
  rw [load32_store32 hv, load32_store32_of_disjoint (by omega),
    load32_store32_of_disjoint (by omega),
    load32_store32_of_disjoint (by omega), load32_store32_of_disjoint (by omega)]

theorem header_setBlkPrev_self (hv : v < 4294967296) :
    header (setBlkPrev m b v) b = { header m b with prev := v } := by
  simp only [header, setBlkPrev, blkSize, blkFree, blkMagic, blkNext, blkPrev]
  rw [load32_store32 hv, load32_store32_of_disjoint (by omega),
    load32_store32_of_disjoint (by omega),
    load32_store32_of_disjoint (by omega), load32_store32_of_disjoint (by omega)]

theorem header_setBlkSize_apart (h : a + 20 ≤ b ∨ b + 20 ≤ a) :
    header (setBlkSize m a v) b = header m b := header_of_apart (k := 0) (by decide) h

theorem header_setBlkFree_apart (h : a + 20 ≤ b ∨ b + 20 ≤ a) :
    header (setBlkFree m a v) b = header m b := header_of_apart (by decide) h

theorem header_setBlkMagic_apart (h : a + 20 ≤ b ∨ b + 20 ≤ a) :
    header (setBlkMagic m a v) b = header m b := header_of_apart (by decide) h

theorem header_setBlkNext_apart (h : a + 20 ≤ b ∨ b + 20 ≤ a) :
    header (setBlkNext m a v) b = header m b := header_of_apart (by decide) h

theorem header_setBlkPrev_apart (h : a + 20 ≤ b ∨ b + 20 ≤ a) :
    header (setBlkPrev m a v) b = header m b := header_of_apart (by decide) h

/-- The `prev` field of the next block, if there is one, is all a relinking changes. -/
theorem header_relink_apart (h : a = 0 ∨ a + 20 ≤ b ∨ b + 20 ≤ a) :
    header (if a ≠ 0 then setBlkPrev m a v else m) b = header m b := by
  split
  · exact header_setBlkPrev_apart (by omega)
  · rfl

theorem header_relink_self (hab : a = b) (ha : 0 < a) (hv : v < 4294967296) :
    header (if a ≠ 0 then setBlkPrev m a v else m) b = { header m b with prev := v } := by
  subst hab
  rw [if_pos (by omega), header_setBlkPrev_self hv]

theorem header_next (m : Mem) (b : Nat) : (header m b).next = blkNext m b := rfl

end Setters

/-! ### The heap as a list of segments -/

/-- The header of segment `b`, with predecessor `p` and successor `n`. -/
def HeapHdr (m : Mem) (b : Seg) (p n : Nat) : Prop :=
  header m b.addr =
    { size := b.size
      free := if b.free then 1 else 0
      magic := if b.free then heapMagicFree else heapMagicAllocated
      next := n
      prev := p }

instance (m : Mem) (b : Seg) (p n : Nat) : Decidable (HeapHdr m b p n) :=
  inferInstanceAs (Decidable (header m b.addr = _))

theorem HeapHdr.of_eq {m m' : Mem} {b : Seg} {p n : Nat} (hh : HeapHdr m b p n)
    (h : header m' b.addr = header m b.addr) : HeapHdr m' b p n := h.trans hh

/-- The heap in memory is the list `bs`. -/
structure HeapRepr (st : HeapState) (bs : List Seg) : Prop where
  initialized : st.initialized = true
  start_pos : 0 < st.mgr.heapStart
  end_lt : st.mgr.heapEnd < 4294967296
  tiles : Tiles 20 st.mgr.heapStart st.mgr.heapEnd bs
  first : st.mgr.firstBlock = headAddr bs 0
  linked : Linked (HeapHdr st.mem) 0 bs 0
  allocated : st.mgr.blocksAllocated = bs.countP (fun b => !b.free)
  free : st.mgr.blocksFree = bs.countP (fun b => b.free)

/-- The heap is well formed: a list of segments no two neighbours of which are free. -/
structure HeapInv (st : HeapState) (bs : List Seg) : Prop extends HeapRepr st bs where
  coalesced : Coalesced bs
  nonempty : bs ≠ []

instance (st : HeapState) (bs : List Seg) : Decidable (HeapRepr st bs) :=
  decidable_of_iff (st.initialized = true ∧ 0 < st.mgr.heapStart ∧ st.mgr.heapEnd < 4294967296 ∧
      Tiles 20 st.mgr.heapStart st.mgr.heapEnd bs ∧ st.mgr.firstBlock = headAddr bs 0 ∧
      Linked (HeapHdr st.mem) 0 bs 0 ∧
      st.mgr.blocksAllocated = bs.countP (fun b => !b.free) ∧
      st.mgr.blocksFree = bs.countP (fun b => b.free))
    ⟨fun ⟨h₁, h₂, h₃, h₄, h₅, h₆, h₇, h₈⟩ => ⟨h₁, h₂, h₃, h₄, h₅, h₆, h₇, h₈⟩,
      fun h => ⟨h.initialized, h.start_pos, h.end_lt, h.tiles, h.first, h.linked, h.allocated,
        h.free⟩⟩

instance (st : HeapState) (bs : List Seg) : Decidable (HeapInv st bs) :=
  decidable_of_iff (HeapRepr st bs ∧ Coalesced bs ∧ bs ≠ [])
    ⟨fun h => ⟨h.1, h.2.1, h.2.2⟩, fun h => ⟨h.toHeapRepr, h.coalesced, h.nonempty⟩⟩

namespace HeapRepr

variable {st : HeapState} {bs xs ys : List Seg} {b : Seg}

theorem bounds (h : HeapRepr st bs) (hb : b ∈ bs) :
    0 < b.addr ∧ b.addr + 20 + b.size < 4294967296 := by
  have h₁ := h.tiles.bounds hb
  have h₂ := h.start_pos
  have h₃ := h.end_lt
  omega

theorem length_lt (h : HeapRepr st bs) : bs.length < 4294967295 := by
  have h₁ := h.tiles.length_mul_le
  have h₂ := h.end_lt
  omega

/-- The counters are nowhere near wrapping. -/
theorem countP_lt (h : HeapRepr st bs) (p : Seg → Bool) : bs.countP p < 4294967295 :=
  lt_of_le_of_lt List.countP_le_length h.length_lt

theorem header_eq (h : HeapRepr st (xs ++ b :: ys)) :
    HeapHdr st.mem b (lastAddr 0 xs) (headAddr ys 0) := (linked_append.mp h.linked).2.1

theorem header_mem (h : HeapRepr st bs) (hb : b ∈ bs) : ∃ p n, HeapHdr st.mem b p n :=
  h.linked.mem hb

theorem size_eq (h : HeapRepr st bs) (hb : b ∈ bs) : blkSize st.mem b.addr = b.size := by
  obtain ⟨p, n, hh⟩ := h.header_mem hb
  exact congrArg Header.size hh

theorem free_eq (h : HeapRepr st bs) (hb : b ∈ bs) :
    blkFree st.mem b.addr = if b.free then 1 else 0 := by
  obtain ⟨p, n, hh⟩ := h.header_mem hb
  exact congrArg Header.free hh

theorem magic_eq (h : HeapRepr st bs) (hb : b ∈ bs) :
    blkMagic st.mem b.addr = if b.free then heapMagicFree else heapMagicAllocated := by
  obtain ⟨p, n, hh⟩ := h.header_mem hb
  exact congrArg Header.magic hh

theorem next_eq (h : HeapRepr st (xs ++ b :: ys)) : blkNext st.mem b.addr = headAddr ys 0 :=
  congrArg Header.next h.header_eq

theorem prev_eq (h : HeapRepr st (xs ++ b :: ys)) : blkPrev st.mem b.addr = lastAddr 0 xs :=
  congrArg Header.prev h.header_eq

/-- Segments before `b` end before it. -/
theorem before (h : HeapRepr st (xs ++ b :: ys)) : ∀ a ∈ xs, a.addr + 20 + a.size ≤ b.addr :=
  fun _ ha => h.tiles.before ha

theorem after (h : HeapRepr st (xs ++ b :: ys)) : ∀ c ∈ ys, b.addr + 20 + b.size ≤ c.addr :=
  fun _ hc => h.tiles.after hc

/-- The block after `b`, if there is one, begins where `b` ends. -/
theorem headAddr_after (h : HeapRepr st (xs ++ b :: ys)) :
    headAddr ys 0 = 0 ∨ headAddr ys 0 = b.addr + 20 + b.size := by
  cases ys with
  | nil => exact Or.inl rfl
  | cons c cs => exact Or.inr h.tiles.around.2.1

end HeapRepr

/-- The head of a linked list takes a new predecessor; the other headers are kept. -/
theorem linked_relink {m m' : Mem} {p p' n : Nat} {ys : List Seg}
    (h : Linked (HeapHdr m) p ys n)
    (hhead : ∀ c cs, ys = c :: cs → header m' c.addr = { header m c.addr with prev := p' })
    (htail : ∀ c cs, ys = c :: cs → ∀ d ∈ cs, header m' d.addr = header m d.addr) :
    Linked (HeapHdr m') p' ys n := by
  cases ys with
  | nil => exact trivial
  | cons c cs =>
      refine ⟨?_, h.2.imp fun d hd p n hh => hh.of_eq (htail c cs rfl d hd)⟩
      rw [HeapHdr, hhead c cs rfl, show header m c.addr = _ from h.1]

/-! ### One internal step -/

section Steps

variable {st : HeapState} {xs ys : List Seg} {b : Seg}

/-- The flag and the magic of one header change, and the counters with them. -/
theorem HeapRepr.reflag (h : HeapRepr st (xs ++ b :: ys)) {st' : HeapState} {f : Bool}
    (hinit : st'.initialized = st.initialized) (hfirst : st'.mgr.firstBlock = st.mgr.firstBlock)
    (hstart : st'.mgr.heapStart = st.mgr.heapStart) (hend : st'.mgr.heapEnd = st.mgr.heapEnd)
    (hmem : st'.mem = setBlkMagic (setBlkFree st.mem b.addr (if f then 1 else 0)) b.addr
      (if f then heapMagicFree else heapMagicAllocated))
    (hallocated : st'.mgr.blocksAllocated =
      (xs ++ { b with free := f } :: ys).countP (fun b => !b.free))
    (hfree : st'.mgr.blocksFree = (xs ++ { b with free := f } :: ys).countP (fun b => b.free)) :
    HeapRepr st' (xs ++ { b with free := f } :: ys) where
  initialized := hinit.trans h.initialized
  start_pos := hstart ▸ h.start_pos
  end_lt := hend ▸ h.end_lt
  tiles := by
    rw [hstart, hend]
    obtain ⟨h₁, h₂⟩ := h.tiles.around
    exact tiles_append.mpr ⟨b.addr, h₁, rfl, h₂⟩
  first := by
    rw [hfirst, h.first]
    simp [headAddr_append]
  linked := by
    have hother : ∀ a, a + 20 ≤ b.addr ∨ b.addr + 20 ≤ a → header st'.mem a = header st.mem a := by
      intro a ha
      rw [hmem, header_setBlkMagic_apart (by omega), header_setBlkFree_apart (by omega)]
    obtain ⟨h₁, h₂, h₃⟩ := linked_append.mp h.linked
    refine linked_append.mpr ⟨h₁.imp ?_, ?_, h₃.imp ?_⟩
    · intro a ha p n hh
      have := h.before a ha
      exact hh.of_eq (hother a.addr (by omega))
    · rw [HeapHdr, hmem, header_setBlkMagic_self (by split <;> decide),
        header_setBlkFree_self (by split <;> decide), show header st.mem b.addr = _ from h₂]
    · intro c hc p n hh
      have := h.after c hc
      exact hh.of_eq (hother c.addr (by omega))
  allocated := hallocated
  free := hfree

/-- A stretch of the list is replaced by another that fills the same bytes. -/
theorem HeapRepr.replace (ms ms' : List Seg) (h : HeapRepr st (xs ++ (b :: ms ++ ys)))
    {st' : HeapState} {n : Nat}
    (hinit : st'.initialized = st.initialized) (hfirst : st'.mgr.firstBlock = st.mgr.firstBlock)
    (hstart : st'.mgr.heapStart = st.mgr.heapStart) (hend : st'.mgr.heapEnd = st.mgr.heapEnd)
    (htiles : Tiles 20 b.addr n (b :: ms)) (htiles' : Tiles 20 b.addr n ms') (hne : ms' ≠ [])
    (hxs : ∀ x ∈ xs, header st'.mem x.addr = header st.mem x.addr)
    (hms : Linked (HeapHdr st'.mem) (lastAddr 0 xs) ms' (headAddr ys 0))
    (hhead : ∀ c cs, ys = c :: cs →
      header st'.mem c.addr = { header st.mem c.addr with prev := lastAddr (lastAddr 0 xs) ms' })
    (htail : ∀ c cs, ys = c :: cs → ∀ d ∈ cs, header st'.mem d.addr = header st.mem d.addr)
    (hallocated : st'.mgr.blocksAllocated = (xs ++ (ms' ++ ys)).countP (fun b => !b.free))
    (hfree : st'.mgr.blocksFree = (xs ++ (ms' ++ ys)).countP (fun b => b.free)) :
    HeapRepr st' (xs ++ (ms' ++ ys)) := by
  have hhd : ∀ k, headAddr ms' k = b.addr := by
    intro k
    cases ms' with
    | nil => exact absurd rfl hne
    | cons c cs => exact htiles'.1
  exact
    { initialized := hinit.trans h.initialized
      start_pos := hstart ▸ h.start_pos
      end_lt := hend ▸ h.end_lt
      tiles := by
        rw [hstart, hend]
        exact h.tiles.replace htiles htiles' (by simp)
      first := by
        rw [hfirst, h.first, headAddr_append, headAddr_append, headAddr_append, headAddr_append,
          hhd, headAddr_cons]
      linked := h.linked.replace (by rw [hhd, headAddr_cons]) hms
        (fun x hx _ _ hh => hh.of_eq (hxs x hx)) fun hys => linked_relink hys hhead htail
      allocated := hallocated
      free := hfree }

/-- What `split_block` leaves of the block it splits. -/
def splitHead (b : Seg) (size : Nat) : Seg :=
  if minAllocSize ≤ b.size - size - 20 then { b with size := size } else b

/-- The block `split_block` makes after it, if what remains is not too small. -/
def splitRest (b : Seg) (size : Nat) : List Seg :=
  if minAllocSize ≤ b.size - size - 20 then
    [⟨b.addr + 20 + size, b.size - size - 20, true⟩]
  else []

@[simp] theorem splitHead_addr (b : Seg) (size : Nat) : (splitHead b size).addr = b.addr := by
  rw [splitHead]
  split <;> rfl

@[simp] theorem splitHead_free (b : Seg) (size : Nat) : (splitHead b size).free = b.free := by
  rw [splitHead]
  split <;> rfl

/-- `split_block` on a block with room for the request and a header. -/
theorem splitBlock_repr (h : HeapRepr st (xs ++ b :: ys)) {size : Nat}
    (hfit : size + 20 ≤ b.size) :
    HeapRepr (splitBlock b.addr size st) (xs ++ splitHead b size :: (splitRest b size ++ ys)) := by
  obtain ⟨hpos, hlt⟩ := h.bounds (b := b) (by simp)
  have hsize := h.size_eq (b := b) (by simp)
  have hrem : sub32 (sub32 (blkSize st.mem b.addr) size) heapBlockSize = b.size - size - 20 := by
    rw [hsize, heapBlockSize, sub32_of_le (a := b.size) (b := size) (by omega) (by omega),
      sub32_of_le (by omega) (by omega)]
  have hnew : add32 (add32 b.addr heapBlockSize) size = b.addr + 20 + size := by
    rw [heapBlockSize, add32_of_lt (a := b.addr) (b := 20) (by omega), add32_of_lt (by omega)]
  simp only [splitBlock, splitHead, splitRest, hrem, hnew]
  split
  case isFalse => exact h
  case isTrue hbig =>
    simp only [minAllocSize] at hbig
    have hnext := h.headAddr_after
    have hblk : (header st.mem b.addr).next = headAddr ys 0 := h.next_eq
    simp (disch := omega) only [← header_next, header_setBlkSize_apart, header_setBlkFree_apart,
      header_setBlkMagic_apart, header_setBlkNext_apart, header_setBlkPrev_apart, hblk]
    refine HeapRepr.replace []
      [{ b with size := size }, ⟨b.addr + 20 + size, b.size - size - 20, true⟩] h
      (n := b.addr + 20 + b.size) rfl rfl rfl rfl ⟨rfl, rfl⟩
      ⟨rfl, rfl, by simp only [tiles_nil]; omega⟩ (by simp) ?_ ⟨?_, ?_, trivial⟩ ?_ ?_ ?_ ?_
    · intro x hx
      have := h.before x hx
      simp (disch := omega) only [header_setBlkSize_apart, header_setBlkFree_apart,
        header_setBlkMagic_apart, header_setBlkNext_apart, header_setBlkPrev_apart,
        header_relink_apart]
    · have hhb : header st.mem b.addr = _ := h.header_eq
      simp (disch := omega) only [HeapHdr, header_setBlkSize_self, header_setBlkNext_self,
        header_setBlkSize_apart, header_setBlkFree_apart,
        header_setBlkMagic_apart, header_setBlkNext_apart, header_setBlkPrev_apart,
        header_relink_apart, hhb, headAddr_cons]
    · simp (disch := omega) only [HeapHdr, header_relink_apart, header_setBlkSize_apart,
        header_setBlkNext_apart, header_setBlkSize_self, header_setBlkFree_self,
        header_setBlkMagic_self, header_setBlkNext_self, header_setBlkPrev_self, heapMagicFree,
        headAddr_nil, if_true]
    · intro c cs he
      have hc : headAddr ys 0 = c.addr := by rw [he, headAddr_cons]
      have := h.after c (by simp [he])
      simp (disch := omega) only [header_relink_self, header_setBlkSize_apart,
        header_setBlkFree_apart, header_setBlkMagic_apart, header_setBlkNext_apart,
        header_setBlkPrev_apart, lastAddr_cons, lastAddr_nil]
    · intro c cs he d hd
      have hc : headAddr ys 0 = c.addr := by rw [he, headAddr_cons]
      have := h.after c (by simp [he])
      have := (tiles_cons.mp (he ▸ h.tiles.around.2)).2.bounds hd
      simp (disch := omega) only [header_relink_apart, header_setBlkSize_apart,
        header_setBlkFree_apart, header_setBlkMagic_apart, header_setBlkNext_apart,
        header_setBlkPrev_apart]
    · simp only [h.allocated]
      cases hf : b.free <;> simp [hf]
    · have hc := h.countP_lt fun b => b.free
      dsimp only
      rw [add32_of_lt (by rw [h.free]; omega), h.free]
      cases hf : b.free <;> simp [hf] <;> omega

/-- `merge_free_blocks` on two free neighbours. -/
theorem absorbBlock_repr {c : Seg} (h : HeapRepr st (xs ++ b :: c :: ys)) (hb : b.free = true)
    (hc : c.free = true) :
    HeapRepr (absorbBlock b.addr c.addr st)
      (xs ++ { b with size := b.size + (20 + c.size) } :: ys) := by
  have h' : HeapRepr st ((xs ++ [b]) ++ c :: ys) := by simpa using h
  obtain ⟨hpos, hlt⟩ := h'.bounds (b := c) (by simp)
  have hbc : c.addr = b.addr + 20 + b.size := h.tiles.around.2.1
  have hbpos := h.bounds (b := b) (by simp)
  have hsizes : add32 (blkSize st.mem b.addr) (add32 heapBlockSize (blkSize st.mem c.addr))
      = b.size + (20 + c.size) := by
    rw [h.size_eq (by simp), h.size_eq (by simp), heapBlockSize,
      add32_of_lt (a := 20) (b := c.size) (by omega), add32_of_lt (by omega)]
  have hnext := h'.headAddr_after
  have hblk : (header st.mem c.addr).next = headAddr ys 0 := h'.next_eq
  have hhb : header st.mem b.addr = _ := h.header_eq
  simp only [absorbBlock, hsizes]
  simp (disch := omega) only [← header_next, header_setBlkSize_apart, header_setBlkNext_apart, hblk]
  refine HeapRepr.replace [c] [{ b with size := b.size + (20 + c.size) }] h
    (n := c.addr + 20 + c.size) rfl rfl rfl rfl ⟨rfl, hbc, rfl⟩
    ⟨rfl, by simp only [tiles_nil]; omega⟩ (by simp) ?_ ⟨?_, trivial⟩ ?_ ?_ ?_ ?_
  · intro x hx
    have := h.before x hx
    simp (disch := omega) only [header_relink_apart, header_setBlkNext_apart,
      header_setBlkSize_apart]
  · simp (disch := omega) only [HeapHdr, header_relink_apart, header_setBlkNext_self,
      header_setBlkSize_self, hhb, headAddr_nil]
  · intro d ds he
    have hd : headAddr ys 0 = d.addr := by rw [he, headAddr_cons]
    have := h'.after d (by simp [he])
    simp (disch := omega) only [header_relink_self, header_setBlkNext_apart,
      header_setBlkSize_apart, lastAddr_cons, lastAddr_nil]
  · intro d ds he e hmem
    have hd : headAddr ys 0 = d.addr := by rw [he, headAddr_cons]
    have := h'.after d (by simp [he])
    have := (tiles_cons.mp (he ▸ h'.tiles.around.2)).2.bounds hmem
    simp (disch := omega) only [header_relink_apart, header_setBlkNext_apart,
      header_setBlkSize_apart]
  · simp only [h.allocated]
    simp [hb, hc]
  · have hlt := h.countP_lt fun b => b.free
    dsimp only
    rw [h.free]
    simp only [List.countP_append, List.countP_cons, List.countP_nil, hb, hc, if_true] at hlt ⊢
    rw [sub32_of_le (by omega) (by omega)]
    omega

theorem takeBlock_repr (h : HeapRepr st (xs ++ b :: ys)) (hb : b.free = true) {size : Nat}
    (hfit : size + 20 ≤ b.size) :
    HeapRepr (takeBlock b.addr size st)
      (xs ++ { splitHead b size with free := false } :: (splitRest b size ++ ys)) := by
  have hs := splitBlock_repr h hfit
  have ha := hs.countP_lt fun b => !b.free
  have hf := hs.countP_lt fun b => b.free
  simp only [List.countP_append, List.countP_cons, splitHead_free, hb] at ha hf
  refine hs.reflag rfl rfl rfl rfl (by simp [takeBlock]) ?_ ?_
  · simp only [takeBlock, hs.allocated]
    rw [add32_of_lt (by simp [hb]; omega)]
    simp [hb]
    omega
  · simp only [takeBlock, hs.free]
    rw [sub32_of_le (by simp [hb]; omega) (by simp [hb]; omega)]
    simp [hb]

theorem releaseBlock_repr (h : HeapRepr st (xs ++ b :: ys)) (hb : b.free = false) :
    HeapRepr (releaseBlock b.addr st) (xs ++ { b with free := true } :: ys) := by
  have ha := h.countP_lt fun b => !b.free
  have hf := h.countP_lt fun b => b.free
  simp only [List.countP_append, List.countP_cons, hb] at ha hf
  refine h.reflag rfl rfl rfl rfl (by simp [releaseBlock]) ?_ ?_
  · simp only [releaseBlock, h.allocated]
    rw [sub32_of_le (by simp [hb]; omega) (by simp [hb]; omega)]
    simp [hb]
  · simp only [releaseBlock, h.free]
    rw [add32_of_lt (by simp [hb]; omega)]
    simp [hb]
    omega

end Steps

/-! ### Payloads -/

/-- The byte is in no header of the list. -/
def OutsideHeaders (bs : List Seg) (x : Nat) : Prop :=
  ∀ b ∈ bs, x < b.addr ∨ b.addr + 20 ≤ x

theorem HeapRepr.outsideHeaders {st : HeapState} {bs : List Seg} {b : Seg} {x : Nat}
    (h : HeapRepr st bs) (hb : b ∈ bs) (h₁ : b.addr + 20 ≤ x) (h₂ : x < b.addr + 20 + b.size) :
    OutsideHeaders bs x := by
  intro c hc
  by_cases hcb : c = b
  · subst hcb
    exact Or.inr h₁
  · rcases h.tiles.apart hc hb hcb with h' | h' <;> omega

section Outside

variable {m : Mem} {st : HeapState} {a b v x : Nat}

theorem setHeader_outside {k : Nat} (hk : k + 4 ≤ 20) (h : x < b ∨ b + 20 ≤ x) :
    store32 m (b + k) v x = m x := store32_of_disjoint (by omega)

theorem relink_outside (h : a = 0 ∨ x < a + 16 ∨ a + 20 ≤ x) :
    (if a ≠ 0 then setBlkPrev m a v else m) x = m x := by
  split
  · exact store32_of_disjoint (by omega)
  · rfl

theorem releaseBlock_outside (h : x < b ∨ b + 20 ≤ x) :
    (releaseBlock b st).mem x = st.mem x := by
  show setBlkMagic (setBlkFree st.mem b 1) b heapMagicFree x = _
  rw [setBlkMagic, setHeader_outside (by decide) h, setBlkFree, setHeader_outside (by decide) h]

/-- A merge writes the size and the next block of the header that grows, and the previous
block of the one after the other. -/
theorem absorbBlock_outside (hab : a + 20 ≤ b ∨ b + 20 ≤ a)
    (h : x < a ∨ a + 4 ≤ x ∧ x < a + 12 ∨ a + 16 ≤ x)
    (hnext : blkNext st.mem b = 0 ∨ x < blkNext st.mem b + 16 ∨ blkNext st.mem b + 20 ≤ x) :
    (absorbBlock a b st).mem x = st.mem x := by
  simp only [absorbBlock, ← header_next]
  simp only [header_setBlkSize_apart hab, header_setBlkNext_apart hab, header_next]
  rw [relink_outside hnext, setBlkNext, store32_of_disjoint (by omega)]
  exact store32_of_disjoint (by omega)

/-- `split_block` writes into the payload it splits, into its header and into the next one. -/
theorem splitBlock_outside {size : Nat} (hlt : b + 20 + size < 4294967296)
    (h : x < b ∨ b + 20 ≤ x) (hnew : x < b + 20 + size ∨ b + 40 + size ≤ x)
    (hnext : blkNext st.mem b = 0 ∨ x < blkNext st.mem b + 16 ∨ blkNext st.mem b + 20 ≤ x) :
    (splitBlock b size st).mem x = st.mem x := by
  have hadd : add32 (add32 b heapBlockSize) size = b + 20 + size := by
    rw [heapBlockSize, add32_of_lt (a := b) (b := 20) (by omega), add32_of_lt (by omega)]
  simp only [splitBlock, hadd]
  split
  case isFalse => rfl
  case isTrue =>
    simp (disch := omega) only [← header_next, header_setBlkSize_apart, header_setBlkFree_apart,
      header_setBlkMagic_apart, header_setBlkNext_apart, header_setBlkPrev_apart]
    rw [header_next, setBlkSize, store32_of_disjoint (by omega), setBlkNext,
      setHeader_outside (by decide) h, relink_outside hnext, setBlkPrev,
      setHeader_outside (by decide) (by omega), setBlkNext,
      setHeader_outside (by decide) (by omega), setBlkMagic,
      setHeader_outside (by decide) (by omega), setBlkFree,
      setHeader_outside (by decide) (by omega), setBlkSize, store32_of_disjoint (by omega)]

theorem takeBlock_outside {size : Nat} (hlt : b + 20 + size < 4294967296)
    (h : x < b ∨ b + 20 ≤ x) (hnew : x < b + 20 + size ∨ b + 40 + size ≤ x)
    (hnext : blkNext st.mem b = 0 ∨ x < blkNext st.mem b + 16 ∨ blkNext st.mem b + 20 ≤ x) :
    (takeBlock b size st).mem x = st.mem x := by
  show setBlkMagic (setBlkFree (splitBlock b size st).mem b 0) b heapMagicAllocated x = _
  rw [setBlkMagic, setHeader_outside (by decide) h, setBlkFree, setHeader_outside (by decide) h,
    splitBlock_outside hlt h hnew hnext]

theorem absorbBlock_header (hab : a + 20 ≤ b ∨ b + 20 ≤ a) {c : Nat}
    (h : c + 20 ≤ a ∨ a + 20 ≤ c)
    (hnext : blkNext st.mem b = 0 ∨ c + 20 ≤ blkNext st.mem b ∨ blkNext st.mem b + 20 ≤ c) :
    header (absorbBlock a b st).mem c = header st.mem c := by
  refine header_congr ?_
  intro x h₁ h₂
  exact absorbBlock_outside hab (by omega) (by omega)

end Outside

namespace HeapRepr

variable {st : HeapState} {bs : List Seg} {b : Seg} {x : Nat}

theorem next_mem (h : HeapRepr st bs) (hb : b ∈ bs) : blkNext st.mem b.addr = 0 ∨
    ∃ c ∈ bs, c.addr = blkNext st.mem b.addr ∧ b.addr + 20 + b.size = c.addr := by
  obtain ⟨xs, ys, rfl⟩ := List.append_of_mem hb
  rw [h.next_eq]
  cases ys with
  | nil => exact Or.inl rfl
  | cons c ys => exact Or.inr ⟨c, by simp, rfl, h.tiles.around.2.1.symm⟩

/-- The previous block, if there is one, is a segment before this one. -/
theorem prev_mem (h : HeapRepr st bs) (hb : b ∈ bs) : blkPrev st.mem b.addr = 0 ∨
    ∃ a ∈ bs, a.addr = blkPrev st.mem b.addr ∧ a.addr + 20 + a.size = b.addr := by
  obtain ⟨xs, ys, rfl⟩ := List.append_of_mem hb
  rw [h.prev_eq]
  rcases List.eq_nil_or_concat xs with rfl | ⟨xs, a, rfl⟩
  · exact Or.inl rfl
  · rw [List.concat_eq_append, lastAddr_concat]
    rw [List.concat_eq_append] at h
    have h' : HeapRepr st (xs ++ a :: b :: ys) := by simpa using h
    exact Or.inr ⟨a, by simp, rfl, h'.tiles.around.2.1.symm⟩

theorem next_outside (h : HeapRepr st bs) (hb : b ∈ bs) (hx : OutsideHeaders bs x) :
    blkNext st.mem b.addr = 0 ∨ x < blkNext st.mem b.addr + 16 ∨
      blkNext st.mem b.addr + 20 ≤ x := by
  rcases h.next_mem hb with hz | ⟨c, hc, he, -⟩
  · exact Or.inl hz
  · have := hx c hc
    omega

theorem mergeNext_outside (h : HeapRepr st bs) (hb : b ∈ bs) (hx : OutsideHeaders bs x) :
    (mergeNext b.addr st).mem x = st.mem x := by
  rw [mergeNext]
  split
  · rename_i hn
    obtain ⟨c, hc, he, hbc⟩ := (h.next_mem hb).resolve_left hn.1
    have hxb := hx b hb
    rw [← he]
    exact absorbBlock_outside (by omega) (by omega) (h.next_outside hc hx)
  · rfl

theorem mergePrev_outside (h : HeapRepr st bs) (hb : b ∈ bs) (hx : OutsideHeaders bs x) :
    (mergePrev b.addr st).mem x = st.mem x := by
  rw [mergePrev]
  split
  · rename_i hp
    obtain ⟨a, ha, he, hab⟩ := (h.prev_mem hb).resolve_left hp.1
    have hxa := hx a ha
    rw [← he]
    exact absorbBlock_outside (by omega) (by omega) (h.next_outside hb hx)
  · rfl

/-- The header of a block is left behind by the merge with the one before it. -/
theorem mergePrev_magic (h : HeapRepr st bs) (hb : b ∈ bs) :
    blkMagic (mergePrev b.addr st).mem b.addr = blkMagic st.mem b.addr := by
  rw [mergePrev]
  split
  · rename_i hp
    obtain ⟨a, ha, he, hab⟩ := (h.prev_mem hb).resolve_left hp.1
    have hnext : blkNext st.mem b.addr = 0 ∨ b.addr + 20 ≤ blkNext st.mem b.addr := by
      rcases h.next_mem hb with hz | ⟨c, -, he, hbc⟩
      · exact Or.inl hz
      · omega
    rw [← he]
    exact congrArg Header.magic (absorbBlock_header (by omega) (by omega) (by omega))
  · rfl

end HeapRepr

end AceOS.Kernel
