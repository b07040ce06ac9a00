import AceOS.Libc.String

/-!
# The kernel heap (`src/kernel/heap.c`, `src/kernel/memory_utils.c`)

Block headers of five words lie in the memory the heap manages.  A header is
read and written field by field through its address, so a header written over
another one, or over a payload, is not hidden by the model.

The loops over the block list run on fuel.  The list is followed in a memory that
does not change, and there are `2 ^ 32` addresses, so a walk that has not ended
after that many headers has met one of them twice and never ends: `none` is a
call that does not return.
-/

namespace AceOS.Kernel

open Memory Libc

/-! ### `memory_utils.c` -/

def memoryAlignUp (addr alignment : Nat) : Nat :=
  if alignment = 0 then addr
  else
    let remainder := addr % alignment
    if remainder = 0 then addr else add32 addr (alignment - remainder)

/-! ### Block headers -/

abbrev heapMagicAllocated : Nat := 0xABCDEF00
abbrev heapMagicFree : Nat := 0x12345678
abbrev minAllocSize : Nat := 32

/-- `SIZE_MAX`. -/
abbrev sizeMax : Nat := 0xFFFFFFFF

/-- `sizeof(heap_block_t)`. -/
abbrev heapBlockSize : Nat := 20

def blkSize (m : Mem) (b : Nat) : Nat := load32 m b
def blkFree (m : Mem) (b : Nat) : Nat := load32 m (b + 4)
def blkMagic (m : Mem) (b : Nat) : Nat := load32 m (b + 8)
def blkNext (m : Mem) (b : Nat) : Nat := load32 m (b + 12)
def blkPrev (m : Mem) (b : Nat) : Nat := load32 m (b + 16)

def setBlkSize (m : Mem) (b v : Nat) : Mem := store32 m b v
def setBlkFree (m : Mem) (b v : Nat) : Mem := store32 m (b + 4) v
def setBlkMagic (m : Mem) (b v : Nat) : Mem := store32 m (b + 8) v
def setBlkNext (m : Mem) (b v : Nat) : Mem := store32 m (b + 12) v
def setBlkPrev (m : Mem) (b v : Nat) : Mem := store32 m (b + 16) v

/-! ### The manager -/

/-- `heap_manager_t`. -/
structure HeapManager where
  firstBlock : Nat
  heapStart : Nat
  heapEnd : Nat
  totalSize : Nat
  freeSize : Nat
  blocksAllocated : Nat
  blocksFree : Nat
  deriving DecidableEq, Repr

/-- Memory and the statics `heap_manager` and `heap_initialized`. -/
structure HeapState where
  mem : Mem
  mgr : HeapManager
  initialized : Bool

def heapInit (start size : Nat) (st : HeapState) : HeapState :=
  let heapStart := memoryAlignUp start 16
  let alignedSize := sub32 size (sub32 heapStart start)
  let m := setBlkSize st.mem heapStart (sub32 alignedSize heapBlockSize)
  let m := setBlkFree m heapStart 1
  let m := setBlkMagic m heapStart heapMagicFree
  let m := setBlkNext m heapStart 0
  let m := setBlkPrev m heapStart 0
  { mem := m
    mgr :=
      { firstBlock := heapStart
        heapStart := heapStart
        heapEnd := add32 heapStart alignedSize
        totalSize := alignedSize
        freeSize := sub32 alignedSize heapBlockSize
        blocksAllocated := 0
        blocksFree := 1 }
    initialized := true }

/-! ### Allocation -/

/-- Fuel for a walk along the block list. -/
def walkFuel : Nat := 4294967296

def findBestFitLoop (m : Mem) (size : Nat) : (fuel current best bestSize : Nat) → Option Nat
  | 0, _, _, _ => none
  | fuel + 1, current, best, bestSize =>
      if current = 0 then some best
      else if blkFree m current ≠ 0 ∧ size ≤ blkSize m current ∧ blkSize m current < bestSize then
        -- an exact fit ends the search
        if blkSize m current = size then some current
        else findBestFitLoop m size fuel (blkNext m current) current (blkSize m current)
      else findBestFitLoop m size fuel (blkNext m current) best bestSize

def findBestFit (size : Nat) (st : HeapState) : Option Nat :=
  findBestFitLoop st.mem size walkFuel st.mgr.firstBlock 0 sizeMax

def splitBlock (block size : Nat) (st : HeapState) : HeapState :=
  let remainingSize := sub32 (sub32 (blkSize st.mem block) size) heapBlockSize
  if minAllocSize ≤ remainingSize then
    let newBlock := add32 (add32 block heapBlockSize) size
    let m := setBlkSize st.mem newBlock remainingSize
    let m := setBlkFree m newBlock 1
    let m := setBlkMagic m newBlock heapMagicFree
    let m := setBlkNext m newBlock (blkNext m block)
    let m := setBlkPrev m newBlock block
    let m := if blkNext m block ≠ 0 then setBlkPrev m (blkNext m block) newBlock else m
    let m := setBlkNext m block newBlock
    let m := setBlkSize m block size
    { st with
      mem := m
      mgr := { st.mgr with blocksFree := add32 st.mgr.blocksFree 1 } }
  else st

/-- The size `heap_malloc` looks for: a multiple of 8, and at least `MIN_ALLOC_SIZE`. -/
def roundSize (size : Nat) : Nat :=
  let size := memoryAlignUp size 8
  if size < minAllocSize then minAllocSize else size

/-- The rest of `heap_malloc` once a block is chosen. -/
def takeBlock (block size : Nat) (st : HeapState) : HeapState :=
  let st := splitBlock block size st
  let m := setBlkFree st.mem block 0
  let m := setBlkMagic m block heapMagicAllocated
  { st with
    mem := m
    mgr := { st.mgr with
      blocksAllocated := add32 st.mgr.blocksAllocated 1
      blocksFree := sub32 st.mgr.blocksFree 1
      freeSize := sub32 st.mgr.freeSize (add32 size heapBlockSize) } }

def heapMalloc (size : Nat) (st : HeapState) : Option (Nat × HeapState) :=
  if !st.initialized then some (0, st)
  else if size = 0 then some (0, st)
  else
    match findBestFit (roundSize size) st with
    | none => none
    | some block =>
        if block = 0 then some (0, st)
        else some (add32 block heapBlockSize, takeBlock block (roundSize size) st)

/-! ### Release -/

/-- `first` swallows its successor `second`: both merges of `merge_free_blocks`. -/
def absorbBlock (first second : Nat) (st : HeapState) : HeapState :=
  let m := setBlkSize st.mem first
    (add32 (blkSize st.mem first) (add32 heapBlockSize (blkSize st.mem second)))
  let m := setBlkNext m first (blkNext m second)
  let m := if blkNext m second ≠ 0 then setBlkPrev m (blkNext m second) first else m
  { st with
    mem := m
    mgr := { st.mgr with blocksFree := sub32 st.mgr.blocksFree 1 } }

/-- Merge with the next block if it is free. -/
def mergeNext (block : Nat) (st : HeapState) : HeapState :=
  if blkNext st.mem block ≠ 0 ∧ blkFree st.mem (blkNext st.mem block) ≠ 0 then
    absorbBlock block (blkNext st.mem block) st
  else st

/-- Merge with the previous block if it is free. -/
def mergePrev (block : Nat) (st : HeapState) : HeapState :=
  if blkPrev st.mem block ≠ 0 ∧ blkFree st.mem (blkPrev st.mem block) ≠ 0 then
    absorbBlock (blkPrev st.mem block) block st
  else st

def mergeFreeBlocks (block : Nat) (st : HeapState) : HeapState :=
  mergePrev block (mergeNext block st)

/-- `heap_free` before the merges: the block is marked free and counted. -/
def releaseBlock (block : Nat) (st : HeapState) : HeapState :=
  let m := setBlkFree st.mem block 1
  let m := setBlkMagic m block heapMagicFree
  { st with
    mem := m
    mgr := { st.mgr with
      blocksAllocated := sub32 st.mgr.blocksAllocated 1
      blocksFree := add32 st.mgr.blocksFree 1
      freeSize := add32 st.mgr.freeSize (add32 (blkSize m block) heapBlockSize) } }

def heapFree (ptr : Nat) (st : HeapState) : HeapState :=
  if ptr = 0 ∨ st.initialized = false then st
  else
    let block := sub32 ptr heapBlockSize
    if blkMagic st.mem block ≠ heapMagicAllocated then st
    else mergeFreeBlocks block (releaseBlock block st)

/-! ### The other two calls -/

def heapCalloc (nmemb size : Nat) (st : HeapState) : Option (Nat × HeapState) :=
  let totalSize := mul32 nmemb size
  if nmemb ≠ 0 ∧ totalSize / nmemb ≠ size then some (0, st)
  else
    match heapMalloc totalSize st with
    | none => none
    | some (ptr, st) =>
        if ptr ≠ 0 then some (ptr, { st with mem := memset st.mem ptr 0 totalSize })
        else some (ptr, st)

def heapRealloc (ptr size : Nat) (st : HeapState) : Option (Nat × HeapState) :=
  if ptr = 0 then heapMalloc size st
  else if size = 0 then some (0, heapFree ptr st)
  else
    let block := sub32 ptr heapBlockSize
    if blkMagic st.mem block ≠ heapMagicAllocated then some (0, st)
    else
      let size := roundSize size
      if size ≤ blkSize st.mem block then some (ptr, st)
      else
        match heapMalloc size st with
        | none => none
        | some (newPtr, st) =>
            if newPtr = 0 then some (0, st)
            else
              -- the length is read from the old header after `heap_malloc` has written
              let m := memcpy st.mem newPtr ptr (blkSize st.mem block)
              some (newPtr, heapFree ptr { st with mem := m })

end AceOS.Kernel
