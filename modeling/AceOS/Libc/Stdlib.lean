import AceOS.Lib.Machine
import AceOS.Lib.Memory
import AceOS.Lib.Segments
import AceOS.Libc.String
import Mathlib.Data.Finset.Insert
import Mathlib.Data.Finset.Erase

/-!
# The libc heap (`src/src/libc/stdlib.c`)

A first-fit allocator over the static array `heap`, with headers of three words
and links in one direction only.  The list is built by the first `malloc`.

`free` has no back pointer.  It walks the whole list, and when it meets the free
block just before the one it releases it lets that block absorb the released one
and goes on with the result; only a block that was not absorbed can absorb its
successor.  The loops run on fuel, and `none` is a call that does not return.
-/

namespace AceOS.Libc

open Memory Segments

/-! ### The code -/

abbrev heapSize : Nat := 0x100000

/-- `sizeof(memory_block_t)`. -/
abbrev memoryBlockSize : Nat := 12

def blockSize (m : Mem) (b : Nat) : Nat := load32 m b
def blockFree (m : Mem) (b : Nat) : Nat := load32 m (b + 4)
def blockNext (m : Mem) (b : Nat) : Nat := load32 m (b + 8)

def setBlockSize (m : Mem) (b v : Nat) : Mem := store32 m b v
def setBlockFree (m : Mem) (b v : Nat) : Mem := store32 m (b + 4) v
def setBlockNext (m : Mem) (b v : Nat) : Mem := store32 m (b + 8) v

/-- Memory and the statics `free_list` and `heap_initialized`. -/
structure LibcHeap where
  mem : Mem
  freeList : Nat
  initialized : Bool

/-- `heap` is the address of the static array, which the linker chooses. -/
def initializeHeap (heap : Nat) (st : LibcHeap) : LibcHeap :=
  if st.initialized then st
  else
    let m := setBlockSize st.mem heap (heapSize - memoryBlockSize)
    let m := setBlockFree m heap 1
    let m := setBlockNext m heap 0
    { mem := m, freeList := heap, initialized := true }

/-- The size `malloc` looks for: a multiple of 8, and at least 16. -/
def mallocSize (size : Nat) : Nat :=
  let size := if size % 8 ≠ 0 then mul32 (size / 8 + 1) 8 else size
  if size < 16 then 16 else size

/-- Fuel for a walk along the list. -/
def listFuel : Nat := 4294967296

/-- Cut `size` bytes off the front of a block if enough is left for another block. -/
def splitMemoryBlock (current size : Nat) (m : Mem) : Mem :=
  if add32 (add32 size memoryBlockSize) 16 ≤ blockSize m current then
    let newBlock := add32 (add32 current memoryBlockSize) size
    let m := setBlockSize m newBlock (sub32 (sub32 (blockSize m current) size) memoryBlockSize)
    let m := setBlockFree m newBlock 1
    let m := setBlockNext m newBlock (blockNext m current)
    let m := setBlockSize m current size
    setBlockNext m current newBlock
  else m

def mallocLoop (size : Nat) : (fuel current : Nat) → Mem → Option (Nat × Mem)
  | 0, _, _ => none
  | fuel + 1, current, m =>
      if current = 0 then some (0, m)
      else if blockFree m current ≠ 0 ∧ size ≤ blockSize m current then
        some (add32 current memoryBlockSize,
          setBlockFree (splitMemoryBlock current size m) current 0)
      else mallocLoop size fuel (blockNext m current) m

def malloc (heap size : Nat) (st : LibcHeap) : Option (Nat × LibcHeap) :=
  let st := initializeHeap heap st
  (mallocLoop (mallocSize size) listFuel st.freeList st.mem).map
    fun r => (r.1, { st with mem := r.2 })

/-- `block` swallows the block `next` after it. -/
def absorbMemoryBlock (block next : Nat) (m : Mem) : Mem :=
  let m := setBlockSize m block
    (add32 (blockSize m block) (add32 memoryBlockSize (blockSize m next)))
  setBlockNext m block (blockNext m next)

def freeLoop : (fuel block current : Nat) → Mem → Option Mem
  | 0, _, _, _ => none
  | fuel + 1, block, current, m =>
      if current = 0 then some m
      else if blockFree m current ≠ 0 ∧
          add32 (add32 current memoryBlockSize) (blockSize m current) = block then
        let m := absorbMemoryBlock current block m
        freeLoop fuel current (blockNext m current) m
      else if current = block ∧ blockNext m current ≠ 0 ∧
          blockFree m (blockNext m current) ≠ 0 then
        let m := absorbMemoryBlock current (blockNext m current) m
        freeLoop fuel block (blockNext m current) m
      else freeLoop fuel block (blockNext m current) m

def free (ptr : Nat) (st : LibcHeap) : Option LibcHeap :=
  if ptr = 0 then some st
  else
    let block := sub32 ptr memoryBlockSize
    let m := setBlockFree st.mem block 1
    (freeLoop listFuel block st.freeList m).map fun m => { st with mem := m }

def calloc (heap nmemb size : Nat) (st : LibcHeap) : Option (Nat × LibcHeap) :=
  let totalSize := mul32 nmemb size
  match malloc heap totalSize st with
  | none => none
  | some (ptr, st) =>
      if ptr ≠ 0 then some (ptr, { st with mem := memset st.mem ptr 0 totalSize })
      else some (ptr, st)

def realloc (heap ptr size : Nat) (st : LibcHeap) : Option (Nat × LibcHeap) :=
  if ptr = 0 then malloc heap size st
  else if size = 0 then (free ptr st).map fun st => (0, st)
  else
    let block := sub32 ptr memoryBlockSize
    if size ≤ blockSize st.mem block then some (ptr, st)
    else
      match malloc heap size st with
      | none => none
      | some (newPtr, st) =>
          if newPtr = 0 then some (0, st)
          else
            let m := memcpy st.mem newPtr ptr (blockSize st.mem block)
            (free ptr { st with mem := m }).map fun st => (newPtr, st)

/-! ### The list in memory -/

/-- The blocks from `current` on, as their headers have them. -/
def blocksFrom : (fuel current : Nat) → Mem → List Seg
  | 0, _, _ => []
  | fuel + 1, current, m =>
      if current = 0 then []
      else ⟨current, blockSize m current, blockFree m current ≠ 0⟩
        :: blocksFrom fuel (blockNext m current) m

/-- The blocks of the heap. -/
def memoryBlocks (st : LibcHeap) : List Seg := blocksFrom listFuel st.freeList st.mem

/-- The header of segment `b`; it does not know the segment before it. -/
def BlockHdr (m : Mem) (b : Seg) (_ n : Nat) : Prop :=
  blockSize m b.addr = b.size ∧ blockFree m b.addr = (if b.free then 1 else 0) ∧
    blockNext m b.addr = n

theorem BlockHdr.congr {m m' : Mem} {b : Seg} {p p' n : Nat} (h : BlockHdr m b p n)
    (hm : ∀ x, b.addr ≤ x → x < b.addr + 12 → m' x = m x) : BlockHdr m' b p' n := by
  have hsize : blockSize m' b.addr = blockSize m b.addr :=
    load32_congr fun x h₁ h₂ => hm x h₁ (by omega)
  have hfree : blockFree m' b.addr = blockFree m b.addr :=
    load32_congr fun x h₁ h₂ => hm x (by omega) (by omega)
  have hnext : blockNext m' b.addr = blockNext m b.addr :=
    load32_congr fun x h₁ h₂ => hm x (by omega) (by omega)
  rwa [BlockHdr, hsize, hfree, hnext]

/-- The list in memory is the list `bs`, which tiles the array. -/
structure LibcRepr (heap : Nat) (m : Mem) (bs : List Seg) : Prop where
  heap_pos : 0 < heap
  heap_lt : heap + heapSize < 4294967296
  tiles : Tiles 12 heap (heap + heapSize) bs
  linked : Linked (BlockHdr m) 0 bs 0

namespace LibcRepr

variable {heap : Nat} {m m' : Mem} {bs xs ys : List Seg} {b c : Seg}

theorem bounds (h : LibcRepr heap m bs) (hb : b ∈ bs) :
    0 < b.addr ∧ b.addr + 12 + b.size < 4294967296 ∧ b.size < heapSize := by
  have h₁ := h.tiles.bounds hb
  have h₂ := h.heap_pos
  have h₃ := h.heap_lt
  omega

theorem length_lt (h : LibcRepr heap m bs) : bs.length < listFuel := by
  have h₁ := h.tiles.length_mul_le
  have h₂ := h.heap_lt
  rw [listFuel]
  omega

theorem header_eq (h : LibcRepr heap m (xs ++ b :: ys)) :
    BlockHdr m b (lastAddr 0 xs) (headAddr ys 0) := (linked_append.mp h.linked).2.1

theorem blocksFrom_eq (zs : List Seg) {fuel : Nat} (h : LibcRepr heap m (xs ++ zs))
    (hfuel : zs.length < fuel) : blocksFrom fuel (headAddr zs 0) m = zs := by
  induction zs generalizing xs fuel with
  | nil =>
      obtain ⟨fuel, rfl⟩ : ∃ k, fuel = k + 1 := ⟨fuel - 1, by simp at hfuel; omega⟩
      rfl
  | cons b zs ih =>
      obtain ⟨fuel, rfl⟩ : ∃ k, fuel = k + 1 := ⟨fuel - 1, by simp at hfuel; omega⟩
      have hb : BlockHdr _ _ _ _ := h.header_eq
      have hpos := (h.bounds (b := b) (by simp)).1
      have hfree : decide (blockFree m b.addr ≠ 0) = b.free := by
        rw [hb.2.1]
        cases b.free <;> rfl
      have h' : LibcRepr heap m ((xs ++ [b]) ++ zs) := by simpa using h
      rw [headAddr_cons, blocksFrom, if_neg (by omega), hb.2.2, hb.1, hfree,
        ih h' (Nat.lt_of_succ_lt_succ hfuel)]

theorem memoryBlocks_eq {st : LibcHeap} (h : LibcRepr heap st.mem bs)
    (hfirst : st.freeList = headAddr bs 0) : memoryBlocks st = bs := by
  rw [memoryBlocks, hfirst]
  exact blocksFrom_eq bs (show LibcRepr heap st.mem ([] ++ bs) from h) h.length_lt

theorem size_eq (h : LibcRepr heap m bs) (hb : b ∈ bs) : blockSize m b.addr = b.size := by
  obtain ⟨_, _, hh⟩ := h.linked.mem hb
  exact hh.1

theorem headAddr_eq (h : LibcRepr heap m bs) : headAddr bs 0 = heap := by
  cases bs with
  | nil =>
      have hs : heapSize = 1048576 := rfl
      have ht := h.tiles
      rw [tiles_nil] at ht
      omega
  | cons b bs => exact h.tiles.1

/-- A stretch that begins at `b` is replaced by another that fills the same bytes. -/
theorem replace (ms ms' : List Seg) {n : Nat} (h : LibcRepr heap m (xs ++ (b :: ms ++ ys)))
    (htiles : Tiles 12 b.addr n (b :: ms)) (htiles' : Tiles 12 b.addr n ms') (hne : ms' ≠ [])
    (hms : Linked (BlockHdr m') (lastAddr 0 xs) ms' (headAddr ys 0))
    (hm : ∀ x, x < b.addr ∨ n ≤ x → m' x = m x) : LibcRepr heap m' (xs ++ (ms' ++ ys)) := by
  have hhd : ∀ k, headAddr ms' k = b.addr := by
    intro k
    cases ms' with
    | nil => exact absurd rfl hne
    | cons c cs => exact htiles'.1
  have hys : ∀ y ∈ ys, n ≤ y.addr := by
    obtain ⟨mid, -, h₂⟩ := tiles_append.mp h.tiles
    obtain ⟨mid', h₂, h₃⟩ := tiles_append.mp h₂
    obtain rfl : mid' = n := Tiles.unique h₂ (h₂.1 ▸ htiles)
    intro y hy
    exact (h₃.bounds hy).1
  refine ⟨h.heap_pos, h.heap_lt, h.tiles.replace htiles htiles' (by simp), ?_⟩
  refine h.linked.replace (by rw [hhd, headAddr_cons]) hms ?_ ?_
  · intro x hx q k hh
    have := (Tiles.around (b := b) h.tiles).1.bounds hx
    exact hh.congr fun z h₁ h₂ => hm z (by omega)
  · intro hl
    refine hl.relink _ ?_
    intro y hy q q' k hh
    have := hys y hy
    exact hh.congr fun z h₁ h₂ => hm z (by omega)

theorem retag (h : LibcRepr heap m (xs ++ b :: ys)) (f : Bool) :
    LibcRepr heap (setBlockFree m b.addr (if f then 1 else 0))
      (xs ++ { b with free := f } :: ys) := by
  have hb : BlockHdr _ _ _ _ := h.header_eq
  have hf : (if f then 1 else 0) < 4294967296 := by split <;> decide
  refine replace [] [{ b with free := f }] h (n := b.addr + 12 + b.size)
    ⟨rfl, rfl⟩ ⟨rfl, rfl⟩ (by simp) ⟨?_, trivial⟩ ?_
  · simp only [BlockHdr, blockSize, blockFree, blockNext, setBlockFree] at hb ⊢
    rw [load32_store32_of_disjoint (by omega), load32_store32 hf,
      load32_store32_of_disjoint (by omega)]
    exact ⟨hb.1, rfl, hb.2.2⟩
  · intro x hx
    exact store32_of_disjoint (by omega)

theorem absorb (h : LibcRepr heap m (xs ++ b :: c :: ys)) :
    LibcRepr heap (absorbMemoryBlock b.addr c.addr m)
      (xs ++ { b with size := b.size + (12 + c.size) } :: ys) := by
  have h' : LibcRepr heap m ((xs ++ [b]) ++ c :: ys) := by simpa using h
  have hb : BlockHdr _ _ _ _ := h.header_eq
  have hc : BlockHdr _ _ _ _ := h'.header_eq
  have hbc : c.addr = b.addr + 12 + b.size := h.tiles.around.2.1
  have hbounds := h.bounds (b := c) (by simp)
  have hsizes : add32 b.size (add32 12 c.size) = b.size + (12 + c.size) := by
    rw [add32_of_lt (a := 12) (b := c.size) (by omega), add32_of_lt (by omega)]
  simp only [BlockHdr, blockSize, blockFree, blockNext] at hb hc
  refine replace [c] [{ b with size := b.size + (12 + c.size) }] h
    (n := c.addr + 12 + c.size) ⟨rfl, hbc, rfl⟩ ⟨rfl, by simp only [tiles_nil]; omega⟩ (by simp)
    ⟨?_, trivial⟩ ?_
  · simp only [BlockHdr, blockSize, blockFree, blockNext, absorbMemoryBlock, setBlockSize,
      setBlockNext, memoryBlockSize, hb.1, hc.1, hsizes]
    rw [load32_store32_of_disjoint (a := c.addr + 8) (by omega), hc.2.2,
      load32_store32_of_disjoint (a := b.addr) (by omega), load32_store32 (by omega),
      load32_store32_of_disjoint (a := b.addr + 4) (by omega),
      load32_store32_of_disjoint (a := b.addr + 4) (by omega),
      load32_store32 (hc.2.2 ▸ load32_lt _ _)]
    exact ⟨rfl, hb.2.1, rfl⟩
  · intro x hx
    simp only [absorbMemoryBlock, setBlockSize, setBlockNext]
    rw [store32_of_disjoint (by omega), store32_of_disjoint (by omega)]

theorem split (h : LibcRepr heap m (xs ++ b :: ys)) {size : Nat}
    (hfit : size + 12 + 16 ≤ b.size) :
    LibcRepr heap (splitMemoryBlock b.addr size m)
      (xs ++ { b with size := size } :: ⟨b.addr + 12 + size, b.size - size - 12, true⟩ :: ys) := by
  have hb : BlockHdr _ _ _ _ := h.header_eq
  have hbounds := h.bounds (b := b) (by simp)
  have hadd : add32 (add32 size 12) 16 ≤ b.size := by
    rw [add32_of_lt (a := size) (b := 12) (by omega), add32_of_lt (by omega)]
    exact hfit
  have hnew : add32 (add32 b.addr 12) size = b.addr + 12 + size := by
    rw [add32_of_lt (a := b.addr) (b := 12) (by omega), add32_of_lt (by omega)]
  have hrem : sub32 (sub32 b.size size) 12 = b.size - size - 12 := by
    rw [sub32_of_le (a := b.size) (b := size) (by omega) (by omega),
      sub32_of_le (by omega) (by omega)]
  simp only [BlockHdr, blockSize, blockFree, blockNext] at hb
  have hnext : headAddr ys 0 < 4294967296 := hb.2.2 ▸ load32_lt _ _
  refine replace [] [{ b with size := size }, ⟨b.addr + 12 + size, b.size - size - 12, true⟩] h
    (n := b.addr + 12 + b.size) ⟨rfl, rfl⟩ ⟨rfl, rfl, by simp only [tiles_nil]; omega⟩ (by simp)
    ⟨?_, ?_, trivial⟩ ?_
  all_goals simp only [BlockHdr, blockSize, blockFree, blockNext, splitMemoryBlock, setBlockSize,
    setBlockFree, setBlockNext, memoryBlockSize, hb.1, hnew, hrem, if_pos hadd]
  · simp (disch := omega) only [load32_store32, load32_store32_of_disjoint, hb.2.1, headAddr_cons,
      and_self]
  · simp (disch := omega) only [load32_store32, load32_store32_of_disjoint, hb.2.2, headAddr_nil,
      if_true, and_self]
  · intro x hx
    rw [store32_of_disjoint (by omega), store32_of_disjoint (by omega),
      store32_of_disjoint (by omega), store32_of_disjoint (by omega),
      store32_of_disjoint (by omega)]

theorem payload (h : LibcRepr heap m bs) (hb : b ∈ bs)
    (hm : ∀ x, x < b.addr + 12 ∨ b.addr + 12 + b.size ≤ x → m' x = m x) :
    LibcRepr heap m' bs := by
  refine ⟨h.heap_pos, h.heap_lt, h.tiles, h.linked.imp ?_⟩
  intro c hc q k hh
  refine hh.congr ?_
  intro x hx hx'
  apply hm
  by_cases hcb : c = b
  · subst hcb
    omega
  · rcases h.tiles.apart hc hb hcb with h' | h' <;> omega

theorem write (h : LibcRepr heap m bs) (hb : b ∈ bs) {addr : Nat} (h₁ : b.addr + 12 ≤ addr)
    (h₂ : addr < b.addr + 12 + b.size) (v : UInt8) : LibcRepr heap (store8 m addr v) bs :=
  h.payload hb fun _ hx => store8_of_ne (by omega)

end LibcRepr

theorem initializeHeap_of_initialized {st : LibcHeap} (heap : Nat) (h : st.initialized = true) :
    initializeHeap heap st = st := by rw [initializeHeap, h, if_pos rfl]

theorem initializeHeap_initialized (heap : Nat) (st : LibcHeap) :
    (initializeHeap heap st).initialized = true := by
  rw [initializeHeap]
  split
  · assumption
  · rfl

/-- `malloc` begins with `initialize_heap`, which a caller may have run before. -/
theorem malloc_initializeHeap (heap size : Nat) (st : LibcHeap) :
    malloc heap size (initializeHeap heap st) = malloc heap size st := by
  rw [malloc, malloc, initializeHeap_of_initialized heap (initializeHeap_initialized heap st)]

theorem initializeHeap_repr {heap : Nat} {st : LibcHeap} (h₀ : 0 < heap)
    (h₁ : heap + heapSize < 4294967296) (hst : st.initialized = false) :
    LibcRepr heap (initializeHeap heap st).mem [⟨heap, heapSize - 12, true⟩] := by
  rw [initializeHeap, hst, if_neg Bool.false_ne_true]
  have hs : heapSize = 1048576 := rfl
  refine ⟨h₀, h₁, ⟨rfl, ?_⟩, ⟨?_, trivial⟩⟩
  · simp only [tiles_nil]
    omega
  · simp only [heapSize] at h₁
    simp (disch := omega) only [BlockHdr, blockSize, blockFree, blockNext, setBlockSize,
      setBlockFree, setBlockNext, load32_store32, load32_store32_of_disjoint, heapSize,
      memoryBlockSize, headAddr_nil, if_true, and_self]

/-! ### One call -/

section Calls

variable {heap : Nat} {m : Mem} {bs xs ys : List Seg} {b : Seg}

/-- A free block given out, with the rest of it a free block of its own, leaves no two free
neighbours that were not there. -/
theorem coalesced_take (hb : b.free = true) (h : Coalesced (xs ++ b :: ys)) (a r : Seg)
    (ha : a.free = false) (hr : r.free = true) :
    Coalesced (xs ++ a :: ys) ∧ Coalesced (xs ++ a :: r :: ys) := by
  obtain ⟨⟨hxs, -⟩, hys, hhead⟩ := (coalesced_append_free hb).mp h
  exact ⟨(coalesced_append_used ha).mpr ⟨hxs, hys⟩,
    (coalesced_append_used ha).mpr ⟨hxs, (coalesced_cons_free hr).mpr ⟨hys, hhead⟩⟩⟩

/-- The first block that fits is taken, whole or in part; if none fits nothing changes. -/
theorem mallocLoop_spec (size : Nat) (h : LibcRepr heap m (xs ++ ys)) {fuel : Nat}
    (hfuel : ys.length < fuel) :
    (mallocLoop size fuel (headAddr ys 0) m = some (0, m) ∧
      ∀ b ∈ ys, b.free = true → b.size < size) ∨
      ∃ b bs' m', mallocLoop size fuel (headAddr ys 0) m = some (b.addr + 12, m') ∧
        LibcRepr heap m' bs' ∧ b.free = false ∧ size ≤ b.size ∧
        (∃ d ∈ xs ++ ys, d.free = true ∧ d.addr = b.addr ∧ size ≤ d.size) ∧
        (∀ c, c.free = false → (c ∈ bs' ↔ c = b ∨ c ∈ xs ++ ys)) ∧
        (Coalesced (xs ++ ys) → Coalesced bs') := by
  induction ys generalizing xs fuel with
  | nil =>
      obtain ⟨fuel, rfl⟩ : ∃ k, fuel = k + 1 := ⟨fuel - 1, by simp at hfuel; omega⟩
      exact Or.inl ⟨rfl, fun b hb => absurd hb (by simp)⟩
  | cons b ys ih =>
      obtain ⟨fuel, rfl⟩ : ∃ k, fuel = k + 1 := ⟨fuel - 1, by simp at hfuel; omega⟩
      have hb : BlockHdr _ _ _ _ := h.header_eq
      obtain ⟨hpos, hlt, hsmall⟩ := h.bounds (b := b) (by simp)
      simp only [heapSize] at hsmall
      rw [headAddr_cons, mallocLoop, if_neg (by omega), hb.1]
      by_cases hfit : blockFree m b.addr ≠ 0 ∧ size ≤ b.size
      · right
        have hbf : b.free = true := by
          by_contra hf
          exact hfit.1 (by rw [hb.2.1, if_neg hf])
        have hptr : add32 b.addr memoryBlockSize = b.addr + 12 := by
          rw [memoryBlockSize, add32_of_lt (by omega)]
        have hne : ∀ c : Seg, c.free = false → c ≠ b := by
          rintro c hc rfl
          simp [hc] at hbf
        have hfound : ∃ d ∈ xs ++ b :: ys, d.free = true ∧ d.addr = b.addr ∧ size ≤ d.size :=
          ⟨b, by simp, hbf, rfl, hfit.2⟩
        rw [if_pos hfit, hptr]
        by_cases hsplit : size + 12 + 16 ≤ b.size
        · refine ⟨⟨b.addr, size, false⟩, _, _, rfl, (h.split hsplit).retag false, rfl, le_rfl,
            hfound, ?_, fun hc => (coalesced_take hbf hc _ _ rfl rfl).2⟩
          intro c hc
          have hrest : c ≠ ⟨b.addr + 12 + size, b.size - size - 12, true⟩ := by
            rintro rfl
            simp at hc
          simp [hne c hc, hrest]
          tauto
        · have hkeep : splitMemoryBlock b.addr size m = m := by
            rw [splitMemoryBlock, hb.1, if_neg]
            rw [memoryBlockSize, add32_of_lt (a := size) (b := 12) (by omega),
              add32_of_lt (by omega)]
            exact hsplit
          rw [hkeep]
          refine ⟨{ b with free := false }, _, _, rfl, h.retag false, rfl, hfit.2, hfound, ?_,
            fun hc => (coalesced_take hbf hc _ b rfl hbf).1⟩
          intro c hc
          simp [hne c hc]
          tauto
      · have hsmaller : b.free = true → b.size < size := by
          intro hbf
          by_contra hle
          exact hfit ⟨by rw [hb.2.1, if_pos hbf]; decide, Nat.le_of_not_lt hle⟩
        have h' : LibcRepr heap m ((xs ++ [b]) ++ ys) := by simpa using h
        rw [if_neg hfit, hb.2.2]
        rcases ih h' (Nat.lt_of_succ_lt_succ hfuel) with ⟨he, hnone⟩ | hsome
        · refine Or.inl ⟨he, fun c hc => ?_⟩
          rcases List.mem_cons.mp hc with rfl | hc
          · exact hsmaller
          · exact hnone c hc
        · rw [List.append_assoc, List.singleton_append] at hsome
          exact Or.inr hsome

/-- The walk of `free` passes blocks that are neither the released one nor a free block
that ends where the released one begins. -/
theorem freeLoop_skip (block : Nat) (zs ys : List Seg) {p : Nat}
    (hl : Linked (BlockHdr m) p (zs ++ ys) 0)
    (hz : ∀ c ∈ zs, 0 < c.addr ∧ c.addr + 12 + c.size < 4294967296 ∧ c.addr ≠ block ∧
      (c.free = true → c.addr + 12 + c.size ≠ block)) (fuel : Nat) :
    freeLoop (fuel + zs.length) block (headAddr (zs ++ ys) 0) m
      = freeLoop fuel block (headAddr ys 0) m := by
  induction zs generalizing p with
  | nil => rfl
  | cons c zs ih =>
      have hc : BlockHdr _ _ _ _ := hl.1
      obtain ⟨hpos, hlt, hne, hend⟩ := hz c (List.mem_cons_self ..)
      have hadd : add32 (add32 c.addr memoryBlockSize) c.size = c.addr + 12 + c.size := by
        rw [memoryBlockSize, add32_of_lt (a := c.addr) (b := 12) (by omega), add32_of_lt (by omega)]
      have hno : ¬(blockFree m c.addr ≠ 0 ∧
          add32 (add32 c.addr memoryBlockSize) (blockSize m c.addr) = block) := by
        rw [hc.1, hadd, hc.2.1]
        rintro ⟨hf, he⟩
        refine hend ?_ he
        by_contra hcf
        exact hf (if_neg hcf)
      rw [List.length_cons, ← Nat.add_assoc, List.cons_append, headAddr_cons, freeLoop,
        if_neg (by omega), if_neg hno, if_neg fun h => hne h.1, hc.2.2]
      exact ih hl.2 fun d hd => hz d (List.mem_cons_of_mem c hd)

/-- Past the released block the walk of `free` changes nothing. -/
theorem freeLoop_tail (h : LibcRepr heap m (xs ++ b :: ys)) {fuel : Nat}
    (hfuel : ys.length < fuel) : freeLoop fuel b.addr (headAddr ys 0) m = some m := by
  obtain ⟨k, rfl⟩ : ∃ k, fuel = (k + 1) + ys.length := ⟨fuel - ys.length - 1, by omega⟩
  have hl := (linked_append.mp h.linked).2.2
  have hskip := freeLoop_skip b.addr ys [] (by simpa using hl) (by
    intro c hc
    have h₁ := h.bounds (b := c) (by simp [hc])
    have h₂ := h.tiles.after hc
    exact ⟨h₁.1, h₁.2.1, by omega, by omega⟩) (k + 1)
  rw [List.append_nil] at hskip
  rw [hskip]
  rfl

/-- With a free block `a` before it, the released block is absorbed by `a`, and that is all. -/
theorem freeLoop_prev {a : Seg} (h : LibcRepr heap m (xs ++ a :: b :: ys)) (ha : a.free = true) :
    freeLoop listFuel b.addr (headAddr (xs ++ a :: b :: ys) 0) m
      = some (absorbMemoryBlock a.addr b.addr m) := by
  have hlen := h.length_lt
  have hab : b.addr = a.addr + 12 + a.size := h.tiles.around.2.1
  have hhdr : BlockHdr _ _ _ _ := h.header_eq
  have hba := h.bounds (b := a) (by simp)
  have hbb := h.bounds (b := b) (by simp)
  obtain ⟨k, hk⟩ : ∃ k, listFuel = (k + ys.length + 1) + 1 + xs.length :=
    ⟨listFuel - (ys.length + xs.length + 2), by
      simp only [List.length_append, List.length_cons, listFuel] at hlen
      rw [listFuel]
      omega⟩
  have hskip := freeLoop_skip b.addr xs (a :: b :: ys) h.linked (by
    intro c hc
    have h₁ := h.bounds (b := c) (by simp [hc])
    have h₂ := h.tiles.before hc
    exact ⟨h₁.1, h₁.2.1, by omega, by omega⟩) (k + ys.length + 1 + 1)
  have hend : add32 (add32 a.addr memoryBlockSize) a.size = b.addr := by
    rw [memoryBlockSize, add32_of_lt (a := a.addr) (b := 12) (by omega), add32_of_lt (by omega),
      hab]
  have habs := h.absorb
  have hnext : blockNext (absorbMemoryBlock a.addr b.addr m) a.addr = headAddr ys 0 :=
    (habs.header_eq : BlockHdr _ _ _ _).2.2
  rw [hk, hskip, headAddr_cons, freeLoop, if_neg (by omega),
    if_pos ⟨by rw [hhdr.2.1, ha]; decide, by rw [hhdr.1, hend]⟩]
  dsimp only
  rw [hnext]
  -- the walk goes on for the block `a`, which it has passed
  exact freeLoop_tail habs (by omega)

/-- With no free block before it, the walk comes to the released block itself. -/
theorem freeLoop_reach (h : LibcRepr heap m (xs ++ b :: ys))
    (hxs : ∀ a ∈ xs.getLast?, a.free = false) :
    ∃ fuel, ys.length < fuel ∧
      freeLoop listFuel b.addr (headAddr (xs ++ b :: ys) 0) m =
        if headAddr ys 0 ≠ 0 ∧ blockFree m (headAddr ys 0) ≠ 0 then
          freeLoop fuel b.addr (blockNext (absorbMemoryBlock b.addr (headAddr ys 0) m) b.addr)
            (absorbMemoryBlock b.addr (headAddr ys 0) m)
        else freeLoop fuel b.addr (headAddr ys 0) m := by
  have hlen := h.length_lt
  have hbb := h.bounds (b := b) (by simp)
  have hhdr : BlockHdr _ _ _ _ := h.header_eq
  obtain ⟨k, hk⟩ : ∃ k, listFuel = (k + ys.length + 1) + 1 + xs.length :=
    ⟨listFuel - (ys.length + xs.length + 2), by
      rw [List.length_append, List.length_cons, listFuel] at hlen
      rw [listFuel]
      omega⟩
  have hskip := freeLoop_skip b.addr xs (b :: ys) h.linked (by
    intro c hc
    have h₁ := h.bounds (b := c) (by simp [hc])
    have h₂ := h.tiles.before hc
    refine ⟨h₁.1, h₁.2.1, by omega, ?_⟩
    intro hcf hce
    have hlast := hxs c ((h.tiles.mem_getLast? (by decide)).mpr ⟨by simp [hc], hce⟩)
    rw [hcf] at hlast
    exact absurd hlast (by decide)) (k + ys.length + 1 + 1)
  have hno : ¬(blockFree m b.addr ≠ 0 ∧
      add32 (add32 b.addr memoryBlockSize) (blockSize m b.addr) = b.addr) := by
    rw [hhdr.1, memoryBlockSize, add32_of_lt (a := b.addr) (b := 12) (by omega),
      add32_of_lt (by omega)]
    omega
  refine ⟨k + ys.length + 1, by omega, ?_⟩
  rw [hk, hskip, headAddr_cons, freeLoop, if_neg (by omega), if_neg hno, hhdr.2.2]
  simp only [true_and]

/-- With no free block before it but one after it, the released block absorbs that one. -/
theorem freeLoop_next {c : Seg} (h : LibcRepr heap m (xs ++ b :: c :: ys))
    (hxs : ∀ a ∈ xs.getLast?, a.free = false) (hc : c.free = true) :
    freeLoop listFuel b.addr (headAddr (xs ++ b :: c :: ys) 0) m
      = some (absorbMemoryBlock b.addr c.addr m) := by
  obtain ⟨fuel, hfuel, hreach⟩ := freeLoop_reach h hxs
  have h' : LibcRepr heap m ((xs ++ [b]) ++ c :: ys) := by simpa using h
  have hhdr' : BlockHdr _ _ _ _ := h'.header_eq
  have hcb := h.bounds (b := c) (by simp)
  have habs := h.absorb
  have hn : blockNext (absorbMemoryBlock b.addr c.addr m) b.addr = headAddr ys 0 :=
    (habs.header_eq : BlockHdr _ _ _ _).2.2
  rw [hreach, headAddr_cons, if_pos ⟨by omega, by rw [hhdr'.2.1, hc]; decide⟩, hn]
  exact freeLoop_tail habs (by rw [List.length_cons] at hfuel; omega)

theorem freeLoop_alone (h : LibcRepr heap m (xs ++ b :: ys))
    (hxs : ∀ a ∈ xs.getLast?, a.free = false) (hys : ∀ c ∈ ys.head?, c.free = false) :
    freeLoop listFuel b.addr (headAddr (xs ++ b :: ys) 0) m = some m := by
  obtain ⟨fuel, hfuel, hreach⟩ := freeLoop_reach h hxs
  have hstop : ¬(headAddr ys 0 ≠ 0 ∧ blockFree m (headAddr ys 0) ≠ 0) := by
    intro ⟨h₁, h₂⟩
    cases ys with
    | nil => exact h₁ rfl
    | cons c cs =>
        have h' : LibcRepr heap m ((xs ++ [b]) ++ c :: cs) := by simpa using h
        have hhdr' : BlockHdr _ _ _ _ := h'.header_eq
        have hc : c.free = false := hys c rfl
        rw [headAddr_cons, hhdr'.2.1, hc] at h₂
        exact h₂ rfl
  rw [hreach, if_neg hstop]
  exact freeLoop_tail h hfuel

/-- The walk of `free` lets the free block before the released one absorb it, or else
lets it absorb the free block after it.  With a free block on either side the one after
it is left out. -/
theorem freeLoop_spec (h : LibcRepr heap m (xs ++ b :: ys)) (hb : b.free = true) :
    ∃ bs' m', freeLoop listFuel b.addr (headAddr (xs ++ b :: ys) 0) m = some m' ∧
      LibcRepr heap m' bs' ∧ (∀ c, c.free = false → (c ∈ bs' ↔ c ∈ xs ∨ c ∈ ys)) ∧
      (Coalesced xs → Coalesced ys → (Coalesced bs' ↔
        ¬((∃ a ∈ xs.getLast?, a.free = true) ∧ ∃ c ∈ ys.head?, c.free = true))) := by
  have hne : ∀ {c d : Seg}, c.free = false → d.free = true → c ≠ d := by
    rintro c d hc hd rfl
    simp [hc] at hd
  have hused : ∀ {o : Option Seg}, (¬∃ a ∈ o, a.free = true) → ∀ a ∈ o, a.free = false := by
    intro o ho a ha
    by_contra hf
    exact ho ⟨a, ha, by simpa using hf⟩
  by_cases hprev : ∃ a ∈ xs.getLast?, a.free = true
  · obtain ⟨a, hlast, ha⟩ := hprev
    obtain ⟨us, rfl⟩ := List.getLast?_eq_some_iff.mp hlast
    rw [List.append_assoc, List.singleton_append] at h ⊢
    refine ⟨_, _, freeLoop_prev h ha, h.absorb, ?_, ?_⟩
    · intro c hc
      simp [hne hc ha, hne (d := { a with size := a.size + (12 + b.size) }) hc ha]
    · intro hcx hcy
      have hus := ((coalesced_append_free ha).mp hcx).1
      rw [coalesced_append_free (by exact ha)]
      constructor
      · intro ⟨_, _, hhead⟩ ⟨_, c, hc, hcf⟩
        exact hne (hhead c hc) hcf rfl
      · intro hno
        exact ⟨hus, hcy, hused fun hc => hno ⟨⟨a, hlast, ha⟩, hc⟩⟩
  · have hxs := hused hprev
    by_cases hnext : ∃ c ∈ ys.head?, c.free = true
    · obtain ⟨c, hhead, hc⟩ := hnext
      obtain ⟨cs, rfl⟩ := List.head?_eq_some_iff.mp hhead
      refine ⟨_, _, freeLoop_next h hxs hc, h.absorb, ?_, ?_⟩
      · intro d hd
        simp [hne hd hc, hne (d := { b with size := b.size + (12 + c.size) }) hd hb]
      · intro hcx hcy
        refine iff_of_true ?_ fun hboth => hprev hboth.1
        exact (coalesced_append_free (by exact hb)).mpr
          ⟨⟨hcx, hxs⟩, (coalesced_cons_free hc).mp hcy⟩
    · refine ⟨_, m, freeLoop_alone h hxs (hused hnext), h, ?_, ?_⟩
      · intro d hd
        simp [hne hd hb]
      · intro hcx hcy
        refine iff_of_true ?_ fun hboth => hprev hboth.1
        exact (coalesced_append_free hb).mpr ⟨⟨hcx, hxs⟩, hcy, hused hnext⟩

/-- `malloc` on a list: `NULL` if no free block is large enough, or a block is taken. -/
theorem malloc_spec {st : LibcHeap} (h : LibcRepr heap st.mem bs)
    (hfirst : st.freeList = headAddr bs 0) (hinit : st.initialized = true) (size : Nat) :
    (malloc heap size st = some (0, st) ∧ ∀ b ∈ bs, b.free = true → b.size < mallocSize size) ∨
      ∃ b bs' st', malloc heap size st = some (b.addr + 12, st') ∧ st'.initialized = true ∧
        LibcRepr heap st'.mem bs' ∧ st'.freeList = headAddr bs' 0 ∧ b.free = false ∧
        mallocSize size ≤ b.size ∧
        (∃ d ∈ bs, d.free = true ∧ d.addr = b.addr ∧ mallocSize size ≤ d.size) ∧
        (∀ c, c.free = false → (c ∈ bs' ↔ c = b ∨ c ∈ bs)) ∧ (Coalesced bs → Coalesced bs') := by
  have hst : initializeHeap heap st = st := initializeHeap_of_initialized heap hinit
  have hloop := mallocLoop_spec (mallocSize size) (show LibcRepr heap st.mem ([] ++ bs) from h)
    h.length_lt
  rw [← hfirst] at hloop
  rcases hloop with ⟨he, hnone⟩ | ⟨b, bs', m', he, hrepr, hbf, hsize, hfound, hmem, hcoalesced⟩
  · left
    exact ⟨by simp [malloc, hst, he], hnone⟩
  · right
    refine ⟨b, bs', { st with mem := m' }, by simp [malloc, hst, he], hinit, hrepr, ?_, hbf, hsize,
      hfound, hmem, hcoalesced⟩
    rw [hrepr.headAddr_eq, ← h.headAddr_eq]
    exact hfirst

/-- `free` of a block in use takes it out of the blocks in use.  No two free blocks become
neighbours, unless the block lies between two of them. -/
theorem free_spec {st : LibcHeap} (h : LibcRepr heap st.mem (xs ++ b :: ys))
    (hfirst : st.freeList = headAddr (xs ++ b :: ys) 0) (hbf : b.free = false) :
    ∃ bs' st', free (b.addr + 12) st = some st' ∧ st'.initialized = st.initialized ∧
      LibcRepr heap st'.mem bs' ∧ st'.freeList = headAddr bs' 0 ∧
      (∀ c, c.free = false → (c ∈ bs' ↔ c ∈ xs ++ b :: ys ∧ c ≠ b)) ∧
      (Coalesced (xs ++ b :: ys) →
        (Coalesced bs' ↔ ¬BetweenFree 12 b.addr (xs ++ b :: ys))) := by
  have hbounds := h.bounds (b := b) (by simp)
  have hblock : sub32 (b.addr + 12) memoryBlockSize = b.addr := by
    rw [memoryBlockSize, sub32_of_le (by omega) (by omega)]
    omega
  obtain ⟨bs', m', hloop, hrepr, hmem, hcoalesced⟩ := freeLoop_spec (h.retag true) rfl
  have hloop' : freeLoop listFuel b.addr st.freeList (setBlockFree st.mem b.addr 1) = some m' := by
    rw [hfirst, headAddr_append, headAddr_cons, ← headAddr_cons { b with free := true } ys 0,
      ← headAddr_append]
    exact hloop
  refine ⟨bs', { st with mem := m' }, ?_, rfl, hrepr, ?_, ?_, ?_⟩
  · rw [free, if_neg (by omega)]
    simp only [hblock, hloop', Option.map_some]
  · rw [hrepr.headAddr_eq, ← h.headAddr_eq]
    exact hfirst
  · intro c hc
    rw [hmem c hc, h.tiles.mem_remove (by decide)]
  · intro hco
    obtain ⟨hcx, hcy⟩ := (coalesced_append_used hbf).mp hco
    rw [betweenFree_iff (by decide) h.tiles]
    exact hcoalesced hcx hcy

end Calls

end AceOS.Libc
