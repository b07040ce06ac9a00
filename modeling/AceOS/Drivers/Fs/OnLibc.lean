import AceOS.Drivers.Fs.Contents
import AceOS.Libc.StdlibContents
import Mathlib.Data.Finset.Image
import Mathlib.Data.Finset.Range

/-!
# The file system on the libc heap

`fs.c` takes its blocks from the `malloc` of `stdlib.c`.  That allocator is not lawful:
above `0xFFFFFFF8` a size wraps and the block is too small.  A file system whose calls
never name such a size never asks for one (`fsStep_limited`), so on the real heap it runs
as on one that serves (`libcAllocator_serves`): the list of blocks tiles the array, the
blocks in use are those of the listed files (`fsRun_onLibc`), and a file delivers what was
written to it (`fsWrite_delivers_onLibc`).
-/

namespace AceOS.Drivers.Fs

open Filesystem Memory Memory.Allocator Segments AceOS.Libc

/-! ### Sizes -/

/-- No entry has more than `limit` bytes. -/
def SizesLe (limit : Nat) (fs : Filesystem) : Prop := ∀ i, (fs.files i).size ≤ limit

/-- The call names no size above `limit`. -/
def FsOp.SizeLe (limit : Nat) : FsOp → Prop
  | .create _ size => size ≤ limit
  | .write _ data => data.length ≤ limit
  | _ => True

instance (limit : Nat) : ∀ op : FsOp, Decidable (op.SizeLe limit)
  | .create _ size => inferInstanceAs (Decidable (size ≤ limit))
  | .write _ data => inferInstanceAs (Decidable (data.length ≤ limit))
  | .mkdir _ | .delete _ | .copy _ _ | .move _ _ | .changeDir _ =>
      inferInstanceAs (Decidable True)

namespace SizesLe

variable {limit : Nat} {fs : Filesystem} {d i k : Nat} {e : FsEntry}

theorem addEntry (h : SizesLe limit fs) (he : e.size ≤ limit) :
    SizesLe limit (fs.addEntry d e) := by
  intro j
  by_cases hj : j = fs.fileCount
  · rw [hj, addEntry_file_self]
    exact he
  · rw [addEntry_file_of_ne hj]
    exact h j

theorem addDir (h : SizesLe limit fs) (he : e.size ≤ limit) : SizesLe limit (fs.addDir d e) := by
  intro j
  by_cases hj : j = fs.fileCount
  · rw [hj, addDir_file_self]
    exact he
  · rw [addDir_file_of_ne hj]
    exact h j

theorem removeEntry (h : SizesLe limit fs) : SizesLe limit (fs.removeEntry i d) := by
  intro j
  by_cases hj : j = i
  · rw [hj, removeEntry_file_self]
    exact h i
  · rw [removeEntry_file_of_ne hj]
    exact h j

theorem removeDir (h : SizesLe limit fs) : SizesLe limit (fs.removeDir k i d) := by
  intro j
  by_cases hj : j = i
  · rw [hj, Filesystem.removeDir, removeEntry_file_self]
    exact h i
  · rw [removeDir_file_of_ne hj]
    exact h j

theorem setData (h : SizesLe limit fs) {ptr size : Nat} (hsize : size ≤ limit) :
    SizesLe limit (fs.setData i ptr size) := by
  intro j
  by_cases hj : j = i
  · rw [hj, setData_file_self]
    exact hsize
  · rw [setData_file_of_ne hj]
    exact h j

end SizesLe

section Sized

variable {σ : Type} {A : Allocator σ} {limit size : Nat} {st : FsState σ}
  {path data srcPath destPath : List UInt8}

/-- The tree, and no size above `limit`. -/
structure Sized (limit : Nat) (st : FsState σ) : Prop extends FsInv st where
  sizes : SizesLe limit st.fs

theorem Sized.create (h : Sized limit st) (hp : IsPath path) (hsize : size ≤ limit) :
    ∃ r st', fsCreate A path size st = some (r, st') ∧ Sized limit st' := by
  obtain ⟨r, st', he, hinv⟩ := h.toFsInv.create (A := A) hp size
  refine ⟨r, st', he, hinv, ?_⟩
  rcases h.tree.fsCreate_cases (A := A) hp size with ⟨-, hc⟩ | ⟨d, -, -, -, hc⟩ |
    ⟨d, -, -, -, -, -, hc⟩ | ⟨d, -, -, rfl, -, hc⟩ <;>
    obtain ⟨-, rfl⟩ := Prod.mk.inj (Option.some.inj (he.symm.trans hc))
  · exact h.sizes
  · exact h.sizes
  · exact h.sizes.addEntry hsize
  · exact h.sizes.addEntry hsize

theorem Sized.delete (h : Sized limit st) (hp : IsPath path) :
    ∃ r st', fsDelete A path st = some (r, st') ∧ Sized limit st' := by
  obtain ⟨r, st', he, hinv⟩ := h.toFsInv.delete (A := A) hp
  refine ⟨r, st', he, hinv, ?_⟩
  rcases h.tree.fsDelete_cases (A := A) hp with ⟨hc, -⟩ | ⟨i, -, -, -, hc⟩ |
    ⟨i, k, -, -, -, -, -, hc⟩ <;>
    obtain ⟨-, rfl⟩ := Prod.mk.inj (Option.some.inj (he.symm.trans hc))
  · exact h.sizes
  · exact h.sizes.removeEntry
  · exact h.sizes.removeDir

theorem Sized.write (h : Sized limit st) (hp : IsPath path) (hlen : data.length ≤ limit) :
    ∃ r st', fsWrite A path data st = some (r, st') ∧ Sized limit st' := by
  obtain ⟨r, st', he, hinv⟩ := h.toFsInv.write (A := A) hp data
  refine ⟨r, st', he, hinv, ?_⟩
  rcases h.tree.fsWrite_cases (A := A) hp data with ⟨hc, -⟩ | ⟨i, -, -, hc⟩
  · obtain ⟨-, rfl⟩ := Prod.mk.inj (Option.some.inj (he.symm.trans hc))
    exact h.sizes
  · have hst : st' = (st.writeData A i data).2 :=
      (congrArg Prod.snd (Option.some.inj (he.symm.trans hc)) :)
    rw [hst]
    rcases st.writeData_cases A i data with ⟨-, -, hw⟩ | ⟨-, hw⟩ | ⟨-, hw⟩ <;> rw [hw]
    · exact h.sizes
    · change SizesLe limit (st.dropData A i).fs
      rw [FsState.dropData_fs]
      exact h.sizes.setData (h.sizes i)
    · exact h.sizes.setData hlen

/-- **One step** keeps the sizes. -/
theorem Sized.step (h : Sized limit st) {op : FsOp} (hp : op.HasPaths) (hfit : MkdirFits op st)
    (hsize : op.SizeLe limit) : ∃ r st', fsStep A op st = some (r, st') ∧ Sized limit st' := by
  have hheap : ∀ (st : FsState σ) heap mem, Sized limit st →
      Sized limit { st with heap := heap, mem := mem } :=
    fun st heap mem h => ⟨h.toFsInv.withHeap heap mem, h.sizes⟩
  have hwrite : ∀ path data i, IsPath path → ∀ st : FsState σ, Sized limit st →
      data.length = (st.fs.files i).size →
      ∃ r st', fsWrite A path data st = some (r, st') ∧ Sized limit st' :=
    fun path data i hp st h hlen => h.write hp (hlen ▸ h.sizes i)
  cases op with
  | mkdir path =>
      obtain ⟨r, st', he, hinv⟩ := fsStep_inv (A := A) (.mkdir path) h.toFsInv hp hfit
      refine ⟨r, st', he, hinv, ?_⟩
      rcases h.tree.fsMkdir_cases (hp path (by simp [FsOp.paths])) hfit with
        ⟨-, hc⟩ | ⟨d, -, -, -, -, hc⟩ <;>
        rw [fsStep, hc] at he <;> obtain ⟨-, rfl⟩ := Prod.mk.inj (Option.some.inj he)
      · exact h.sizes
      · exact h.sizes.addDir (Nat.zero_le _)
  | create path size => exact h.create (hp path (by simp [FsOp.paths])) hsize
  | delete path => exact h.delete (hp path (by simp [FsOp.paths]))
  | write path data => exact h.write (hp path (by simp [FsOp.paths])) hsize
  | copy srcPath destPath =>
      have hd := hp destPath (by simp [FsOp.paths])
      exact fsCopy_keeps (fun _ h => h.tree) hheap (fun _ hp _ h => h.delete hp) hwrite
        (fun i st h => h.create hd (h.sizes i)) (hp srcPath (by simp [FsOp.paths])) hd h
  | move srcPath destPath =>
      have hd := hp destPath (by simp [FsOp.paths])
      exact fsMove_keeps (fun _ h => h.tree) hheap (fun _ hp _ h => h.delete hp) hwrite
        (fun i st h => h.create hd (h.sizes i)) (hp srcPath (by simp [FsOp.paths])) hd h
  | changeDir path =>
      obtain ⟨r, st', he, hinv⟩ := fsStep_inv (A := A) (.changeDir path) h.toFsInv hp hfit
      refine ⟨r, st', he, hinv, ?_⟩
      obtain ⟨r', cwd, -, hc⟩ := fsChangeDir_cwd h.tree h.cwd (hp path (by simp [FsOp.paths])).noNul
      obtain ⟨-, rfl⟩ := Prod.mk.inj (Option.some.inj (he.symm.trans hc))
      exact h.sizes

/-! ### Requests above the limit -/

theorem FsState.malloc_limited (hsize : size ≤ limit) (st : FsState σ) :
    st.malloc (limited limit A) size = st.malloc A size := by
  rw [FsState.malloc, FsState.malloc, limited_malloc hsize]

theorem fsCreate_limited (hsize : size ≤ limit) :
    fsCreate (limited limit A) path size = fsCreate A path size := by
  funext st
  simp only [fsCreate, FsState.malloc_limited hsize]

theorem fsWrite_limited (hlen : data.length ≤ limit) :
    fsWrite (limited limit A) path data = fsWrite A path data := by
  funext st
  simp only [fsWrite, FsState.malloc_limited hlen]
  rfl

theorem fsDelete_limited : fsDelete (limited limit A) path = fsDelete A path := rfl

theorem fsCopyData_limited {s : Nat} (hs : s < fsMaxFiles) (h : SizesLe limit st.fs) :
    fsCopyData (limited limit A) s destPath st = fsCopyData A s destPath st := by
  have hlen : ∀ (m : Mem) a, (loadBytes m a (st.fs.files s).size).length ≤ limit := by
    intro m a
    rw [loadBytes_length]
    exact h s
  simp only [fsCopyData, getFile, if_pos hs, Option.bind_eq_bind, Option.bind_some,
    FsState.malloc_limited (h s), fsWrite_limited (hlen _ _), fsDelete_limited]
  rfl

theorem fsCopy_limited (h : Sized limit st) (hs : IsPath srcPath) (hd : IsPath destPath) :
    fsCopy (limited limit A) srcPath destPath st = fsCopy A srcPath destPath st := by
  rw [h.tree.fsCopy_eq hs hd, h.tree.fsCopy_eq hs hd]
  cases hl : lookup st.fs srcPath with
  | none => rfl
  | some s =>
      have hlt : s < fsMaxFiles :=
        Nat.lt_of_lt_of_le (h.tree.lookup_some hl).2.2.1 h.tree.fileCount_le
      obtain ⟨r, st', he, h'⟩ := h.create (A := A) hd (h.sizes s)
      dsimp only
      rw [fsCreate_limited (h.sizes s), he, Option.bind_some, Option.bind_some]
      dsimp only
      rw [fsCopyData_limited hlt h'.sizes]

/-- **One step** never meets the limit. -/
theorem fsStep_limited (h : Sized limit st) {op : FsOp} (hp : op.HasPaths)
    (hsize : op.SizeLe limit) : fsStep (limited limit A) op st = fsStep A op st := by
  cases op with
  | create path size => exact congrFun (fsCreate_limited hsize) st
  | write path data => exact congrFun (fsWrite_limited hsize) st
  | copy srcPath destPath =>
      exact fsCopy_limited h (hp srcPath (by simp [FsOp.paths]))
        (hp destPath (by simp [FsOp.paths]))
  | move srcPath destPath =>
      rw [fsStep, fsStep, fsMove, fsMove, fsCopy_limited h (hp srcPath (by simp [FsOp.paths]))
        (hp destPath (by simp [FsOp.paths]))]
      simp only [fsDelete_limited]
  | mkdir path => rfl
  | delete path => rfl
  | changeDir path => rfl

end Sized

/-! ### Runs on the heap -/

section Runs

variable {heap limit : Nat} {hand : Set Nat} {H : Holdings} {st : FsState LibcStatics}
  {path data : List UInt8}

theorem meets_sized {σ : Type} {A : Allocator σ} {ops : List FsOp} {st : FsState σ}
    (hp : ∀ op ∈ ops, op.HasPaths) (hsize : ∀ op ∈ ops, op.SizeLe limit)
    (hfits : Machine.Meets (fsStep A) MkdirFits ops st) :
    Machine.Meets (fsStep A) (fun op st => (op.HasPaths ∧ op.SizeLe limit) ∧ MkdirFits op st)
      ops st :=
  Machine.meets_and.mpr
    ⟨Machine.meets_of_forall (fun op hop _ => ⟨hp op hop, hsize op hop⟩) st, hfits⟩

/-- **The run** on the real heap is a run on the limited one, and keeps what that keeps. -/
theorem fsRun_libcHeap (h₀ : 0 < heap) (h₁ : heap + heapSize < 4294967296)
    {ops : List FsOp} (hp : ∀ op ∈ ops, op.HasPaths) (hsize : ∀ op ∈ ops, op.SizeLe libcMaxSize)
    (h : FsHeap (LibcHolds heap) hand H st) (hsizes : SizesLe libcMaxSize st.fs)
    (hfits : Machine.Meets (fsStep (libcAllocator heap)) MkdirFits ops st) :
    ∃ os st' H', Machine.run (fsStep (libcAllocator heap)) ops st = some (os, st') ∧
      FsHeap (LibcHolds heap) hand H' st' ∧ SizesLe libcMaxSize st'.fs ∧
      ∀ i < st.fs.fileCount, Machine.Meets (fsStep (libcAllocator heap))
          (fun op st => ¬Touches i op st) ops st →
        Keeps (fun j => j = i) st.fs H st'.fs H' := by
  have hstart : Sized libcMaxSize st := ⟨h.toFsInv, hsizes⟩
  have hG := meets_sized hp hsize hfits
  have hagree : ∀ op st, Sized libcMaxSize st →
      ((op.HasPaths ∧ op.SizeLe libcMaxSize) ∧ MkdirFits op st) →
      fsStep (libcAllocator heap) op st
        = fsStep (limited libcMaxSize (libcAllocator heap)) op st :=
    fun op st h hop => (fsStep_limited h hop.1.1 hop.1.2).symm
  have hkeep : ∀ op st r st', Sized libcMaxSize st →
      ((op.HasPaths ∧ op.SizeLe libcMaxSize) ∧ MkdirFits op st) →
      fsStep (libcAllocator heap) op st = some (r, st') → Sized libcMaxSize st' := by
    intro op st r st' h hop hstep
    obtain ⟨r', t, he, h'⟩ := h.step (A := libcAllocator heap) hop.1.1 hop.2 hop.1.2
    obtain ⟨-, rfl⟩ := Prod.mk.inj (Option.some.inj (hstep.symm.trans he))
    exact h'
  obtain ⟨os, st', H', hrun, h', hk⟩ := fsRun_heap (libcAllocator_serves h₀ h₁) hp h
    (Machine.meets_congr hagree hkeep hstart hG hfits)
  rw [← Machine.run_congr hagree hkeep hstart hG] at hrun
  refine ⟨os, st', H', hrun, h', (Machine.run_inv hkeep hstart hG hrun).sizes, ?_⟩
  intro i hi huntouched
  exact hk i hi (Machine.meets_congr hagree hkeep hstart hG huntouched)

theorem fsInitState_libcHeap (heap : Nat) (mem : Mem) :
    FsHeap (LibcHolds heap) ∅ (fun _ => none) (fsInitState ⟨0, false⟩ mem) :=
  fsInitState_heap (LibcHolds.start heap mem)

theorem sizesLe_fsInit (limit : Nat) : SizesLe limit fsInit := fun _ => Nat.zero_le _

def filePtrs (fs : Filesystem) : Finset Nat :=
  ((Finset.range fs.fileCount).filter fun i => dataOf fs i ≠ none).image
    fun i => (fs.files i).dataPointer

theorem FsTree.mem_filePtrs {fs : Filesystem} (h : FsTree fs) {p : Nat} :
    p ∈ filePtrs fs ↔ ∃ i n, dataOf fs i = some (p, n) := by
  rw [filePtrs, Finset.mem_image]
  constructor
  · rintro ⟨i, hi, rfl⟩
    obtain ⟨⟨p, n⟩, hd⟩ := Option.ne_none_iff_exists'.mp (Finset.mem_filter.mp hi).2
    obtain ⟨-, -, -, rfl, -⟩ := dataOf_eq_some.mp hd
    exact ⟨i, n, hd⟩
  · rintro ⟨i, n, hd⟩
    refine ⟨i, Finset.mem_filter.mpr ⟨Finset.mem_range.mpr (h.dataOf_lt hd), by simp [hd]⟩, ?_⟩
    exact (dataOf_eq_some.mp hd).2.2.2.1

/-- The libc heap is intact, its blocks in use are those of the listed files, no two files
share one, and each is large enough. -/
structure OwnsLibcHeap (heap : Nat) (st : FsState LibcStatics) : Prop where
  inv : LibcInv heap ⟨st.heap.heap st.mem, filePtrs st.fs⟩
  distinct : ∀ i j p n n', dataOf st.fs i = some (p, n) → dataOf st.fs j = some (p, n') → i = j
  fits : ∀ i p n, dataOf st.fs i = some (p, n) → n ≤ blockSize st.mem (p - memoryBlockSize)

theorem FsHeap.ownsLibcHeap (h : FsHeap (LibcHolds heap) ∅ H st) : OwnsLibcHeap heap st where
  inv := by
    obtain ⟨live, hinv, hlive⟩ := h.heap.inv
    have heq : live = filePtrs st.fs := by
      ext p
      rw [hlive, h.tree.mem_filePtrs]
      constructor
      · intro hp
        exact (h.accounts.only p hp).resolve_left (Set.notMem_empty p)
      · rintro ⟨i, n, hd⟩
        obtain ⟨bs, hbs, -⟩ := h.accounts.held i p n hd
        simp [hbs]
    exact heq ▸ hinv
  distinct := h.accounts.distinct
  fits := by
    intro i p n hd
    obtain ⟨bs, hbs, rfl⟩ := h.accounts.held i p n hd
    exact h.heap.fits p bs hbs

theorem FsHeap.holds (h : FsHeap (LibcHolds heap) hand H st) :
    FsHeap (Holds fun (_ : LibcStatics) _ => some heapSize) hand H st :=
  ⟨h.toFsInv, h.heap.holds, h.accounts⟩

end Runs

/-- A write that succeeds leaves the data in the block of an entry. -/
theorem FsHeap.write_onLibc {heap : Nat} {hand : Set Nat} {H : Holdings}
    {st st₁ : FsState LibcStatics} {path data : List UInt8} (h₀ : 0 < heap)
    (h₁ : heap + heapSize < 4294967296) (h : FsHeap (LibcHolds heap) hand H st)
    (hp : IsPath path) (hlen : data.length ≤ libcMaxSize)
    (hwrite : fsWrite (libcAllocator heap) path data st = some (0, st₁)) :
    ∃ i p H₁, FsHeap (LibcHolds heap) hand H₁ st₁ ∧
      Keeps (fun j => j ≠ i) st.fs H st₁.fs H₁ ∧ lookup st.fs path = some i ∧
      (st.fs.files i).type = .file ∧ st₁.fs = st.fs.setData i p data.length ∧
      lookup st₁.fs path = some i ∧ dataOf st₁.fs i = some (p, data.length) ∧
      H₁ p = some data := by
  obtain ⟨r, t, H₁, he, h₁', hk₁, hlookup, hzero⟩ :=
    h.write (libcAllocator_serves h₀ h₁) hp data
  rw [fsWrite_limited hlen, hwrite] at he
  obtain ⟨hr, rfl⟩ := Prod.mk.inj (Option.some.inj he)
  obtain ⟨i, p, hl, hfile, hfs, hne, hH⟩ := hzero hr.symm
  obtain ⟨hi, hd, -, -, -⟩ := h.tree.lookup_some hl
  have hdata : dataOf st₁.fs i = some (p, data.length) := by
    rw [hfs, dataOf_setData ⟨_, hd, hi⟩ hfile, Function.update_self, if_pos hne]
  refine ⟨i, p, H₁, h₁', hk₁.mono ?_, hl, hfile, hfs, (hlookup path).trans hl, hdata, hH⟩
  intro j hj hlj
  rw [hl, Option.some.injEq] at hlj
  exact hj hlj.symm

/-- **The file system on the libc heap.**  After every run, up to a `fs_mkdir` with all 128
entries in use, the blocks of the heap tile the array, and those in use are the blocks of
the listed files: nothing is lost, shared or too small. -/
theorem fsRun_onLibc (heap : Nat) (h₀ : 0 < heap) (h₁ : heap + heapSize < 4294967296) (mem : Mem)
    (ops : List FsOp) (hp : ∀ op ∈ ops, op.HasPaths) (hsize : ∀ op ∈ ops, op.SizeLe libcMaxSize)
    (hspare : Machine.Meets (fsStep (libcAllocator heap)) Spare ops
      (fsInitState ⟨0, false⟩ mem)) :
    ∃ os st, Machine.run (fsStep (libcAllocator heap)) ops (fsInitState ⟨0, false⟩ mem)
      = some (os, st) ∧ OwnsLibcHeap heap st := by
  obtain ⟨os, st, H, hrun, h, -⟩ := fsRun_libcHeap h₀ h₁ hp hsize (fsInitState_libcHeap heap mem)
    (sizesLe_fsInit _) (hspare.mono fun _ _ h => h.mkdirFits)
  exact ⟨os, st, hrun, h.ownsLibcHeap⟩

theorem fsRun_onLibc_copy : ∃ os st, Machine.run (fsStep (libcAllocator 0x20000))
    [.mkdir [slash, 97], .create [slash, 98] 4, .write [slash, 98] [1, 2, 3],
      .copy [slash, 98] [slash, 97, slash, 99], .delete [slash, 98]]
      (fsInitState ⟨0, false⟩ ⟨fun _ => 0⟩) = some (os, st) ∧ OwnsLibcHeap 0x20000 st :=
  fsRun_onLibc 0x20000 (by decide) (by decide) ⟨fun _ => 0⟩ _ (by decide) (by decide)
    (by decide +kernel)

/-- **Contents on the libc heap.**  After a write that succeeds in a reachable state, the
file delivers the data until a call touches it, and every other file delivers what it
did. -/
theorem fsWrite_delivers_onLibc (heap : Nat) (h₀ : 0 < heap) (h₁ : heap + heapSize < 4294967296)
    (mem : Mem) (ops : List FsOp) (hp : ∀ op ∈ ops, op.HasPaths)
    (hsize : ∀ op ∈ ops, op.SizeLe libcMaxSize)
    (hspare : Machine.Meets (fsStep (libcAllocator heap)) Spare ops (fsInitState ⟨0, false⟩ mem))
    (os : List Int) (st st₁ : FsState LibcStatics)
    (hrun : Machine.run (fsStep (libcAllocator heap)) ops (fsInitState ⟨0, false⟩ mem)
      = some (os, st)) (path data : List UInt8) (hpath : IsPath path) (hlen : data.length < 2 ^ 31)
    (hwrite : fsWrite (libcAllocator heap) path data st = some (0, st₁)) :
    ∃ i : Nat, fsFind st.fs path = some (i : Int) ∧
      (∀ ops', (∀ op ∈ ops', op.HasPaths) → (∀ op ∈ ops', op.SizeLe libcMaxSize) →
        Machine.Meets (fsStep (libcAllocator heap)) Spare ops' st₁ →
        Machine.Meets (fsStep (libcAllocator heap)) (fun op st => ¬Touches i op st) ops' st₁ →
        ∃ os' st₂, Machine.run (fsStep (libcAllocator heap)) ops' st₁ = some (os', st₂) ∧
          Delivers path data st₂) ∧
      ∀ q, IsPath q → fsFind st.fs q ≠ some (i : Int) →
        fsStat q st₁.fs = fsStat q st.fs ∧ ∀ m, fsRead q m st₁ = fsRead q m st := by
  have hlimit : data.length ≤ libcMaxSize := by
    rw [libcMaxSize]
    omega
  obtain ⟨os', st', H, hr, h, hsizes, -⟩ := fsRun_libcHeap h₀ h₁ hp hsize
    (fsInitState_libcHeap heap mem) (sizesLe_fsInit _) (hspare.mono fun _ _ h => h.mkdirFits)
  obtain ⟨-, rfl⟩ := Prod.mk.inj (Option.some.inj (hrun.symm.trans hr))
  obtain ⟨i, p, H₁, h₁', hk₁, hl, hfile, hfs, hl₁, hdata, hH⟩ :=
    h.write_onLibc h₀ h₁ hpath hlimit hwrite
  obtain ⟨hi, hd, -, -, -⟩ := h.tree.lookup_some hl
  refine ⟨i, h.tree.fsFind_of_some hpath hl, ?_, ?_⟩
  · intro ops' hp' hsize' hspare' huntouched
    have hsizes₁ : SizesLe libcMaxSize st₁.fs := hfs ▸ hsizes.setData hlimit
    obtain ⟨os', st₂, H₂, hr₂, h₂, -, hk₂⟩ := fsRun_libcHeap h₀ h₁ hp' hsize' h₁' hsizes₁
      (hspare'.mono fun _ _ h => h.mkdirFits)
    have hlt₁ : i < st₁.fs.fileCount := (h₁'.tree.lookup_some hl₁).2.2.1
    exact ⟨os', st₂, hr₂,
      h₂.holds.delivers_of_keeps (hk₂ i hlt₁ huntouched) hpath rfl hl₁ hdata hH hlen⟩
  · intro q hq hqi
    exact h.holds.write_other h₁'.holds hk₁ ⟨_, hd, hi⟩ hfile hfs hq
      fun hlq => hqi (h.tree.fsFind_of_some hq hlq)

/-- The block of the file is cut for the new data, and the other file is deleted later. -/
theorem fsWrite_delivers_onLibc_shrink : ∃ os st st₁ os' st₂,
    Machine.run (fsStep (libcAllocator 0x20000))
      [.create pathA 9, .create [slash, 98] 0, .write [slash, 98] [9]]
      (fsInitState ⟨0, false⟩ ⟨fun _ => 0⟩) = some (os, st) ∧
    fsWrite (libcAllocator 0x20000) pathA [1, 2, 3] st = some (0, st₁) ∧
    fsRead [slash, 98] 1 st₁ = some (1, [9]) ∧
    Machine.run (fsStep (libcAllocator 0x20000)) [.delete [slash, 98], .create [slash, 99] 4] st₁
      = some (os', st₂) ∧ Delivers pathA [1, 2, 3] st₂ := by
  have hspare : Machine.Meets (fsStep (libcAllocator 0x20000)) Spare
      [.create pathA 9, .create [slash, 98] 0, .write [slash, 98] [9]]
      (fsInitState ⟨0, false⟩ ⟨fun _ => 0⟩) := by decide +kernel
  have hcode : ((Machine.run (fsStep (libcAllocator 0x20000))
      [.create pathA 9, .create [slash, 98] 0, .write [slash, 98] [9]]
      (fsInitState ⟨0, false⟩ ⟨fun _ => 0⟩)).bind fun r =>
        (fsWrite (libcAllocator 0x20000) pathA [1, 2, 3] r.2).map fun w => decide (w.1 = 0 ∧
          (fsFind r.2.fs pathA = some 0 ∧ fsFind r.2.fs [slash, 98] = some 1 ∧
            fsRead [slash, 98] 1 r.2 = some (1, [9])) ∧
          Machine.Meets (fsStep (libcAllocator 0x20000)) Spare
            [.delete [slash, 98], .create [slash, 99] 4] w.2 ∧
          Machine.Meets (fsStep (libcAllocator 0x20000)) (fun op st => ¬Touches 0 op st)
            [.delete [slash, 98], .create [slash, 99] 4] w.2)) = some true := by
    decide +kernel
  obtain ⟨⟨os, st⟩, hrun, hcode⟩ := Option.bind_eq_some_iff.mp hcode
  obtain ⟨⟨r, st₁⟩, hwrite, hst⟩ := Option.map_eq_some_iff.mp hcode
  obtain ⟨rfl, ⟨hfind, hother, hread⟩, hspare', huntouched⟩ := of_decide_eq_true hst
  obtain ⟨i, hi, hlater, hothers⟩ := fsWrite_delivers_onLibc 0x20000 (by decide) (by decide)
    ⟨fun _ => 0⟩ _ (by decide) (by decide) hspare os st st₁ hrun pathA [1, 2, 3] (by decide)
    (by decide) hwrite
  obtain rfl : i = 0 := Int.ofNat.inj (Option.some.inj (hi.symm.trans hfind))
  obtain ⟨os', st₂, hrun', hd⟩ := hlater _ (by decide) (by decide) hspare' huntouched
  have hne : fsFind st.fs [slash, 98] ≠ some ((0 : Nat) : Int) := by
    rw [hother]
    decide
  exact ⟨os, st, st₁, os', st₂, hrun, hwrite,
    ((hothers [slash, 98] (by decide) hne).2 1).trans hread, hrun', hd⟩

end AceOS.Drivers.Fs
