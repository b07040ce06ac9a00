import AceOS.Drivers.Fs.Steps
import AceOS.Lib.Machine
import Mathlib.Data.List.Nodup

/-!
# Runs of the file system

A run is any sequence of the calls that change the tables, and of `fs_change_dir`.
A call that leaves a table is `none`; only `fs_mkdir` can do that, when it passes its
checks with 128 entries in use (`fsRun_inBounds_iff`).  Up to such a call the tables
are a tree (`fsRun_consistent`).
-/

namespace AceOS.Drivers.Fs

open Filesystem Memory

/-! ### Operations -/

inductive FsOp
  | mkdir (path : List UInt8)
  | create (path : List UInt8) (size : Nat)
  | delete (path : List UInt8)
  | write (path data : List UInt8)
  | copy (srcPath destPath : List UInt8)
  | move (srcPath destPath : List UInt8)
  | changeDir (path : List UInt8)
  deriving DecidableEq, Repr

def FsOp.paths : FsOp → List (List UInt8)
  | .mkdir path => [path]
  | .create path _ => [path]
  | .delete path => [path]
  | .write path _ => [path]
  | .copy srcPath destPath => [srcPath, destPath]
  | .move srcPath destPath => [srcPath, destPath]
  | .changeDir path => [path]

def FsOp.HasPaths (op : FsOp) : Prop := ∀ path ∈ op.paths, IsPath path

instance (op : FsOp) : Decidable op.HasPaths :=
  inferInstanceAs (Decidable (∀ path ∈ op.paths, IsPath path))

section Step

variable {σ : Type}

def fsStep (A : Allocator σ) : FsOp → FsState σ → Option (Int × FsState σ)
  | .mkdir path, st => (fsMkdir path st.fs).map fun r => (r.1, { st with fs := r.2 })
  | .create path size, st => fsCreate A path size st
  | .delete path, st => fsDelete A path st
  | .write path data, st => fsWrite A path data st
  | .copy srcPath destPath, st => fsCopy A srcPath destPath st
  | .move srcPath destPath, st => fsMove A srcPath destPath st
  | .changeDir path, st => fsChangeDir path st

/-- No `fs_mkdir` while all 128 entries are in use. -/
def Spare : FsOp → FsState σ → Prop
  | .mkdir _, st => st.fs.fileCount < fsMaxFiles
  | _, _ => True

instance : ∀ (op : FsOp) (st : FsState σ), Decidable (Spare op st)
  | .mkdir _, st => inferInstanceAs (Decidable (st.fs.fileCount < fsMaxFiles))
  | .create _ _, _ | .delete _, _ | .write _ _, _ | .copy _ _, _ | .move _ _, _
  | .changeDir _, _ => inferInstanceAs (Decidable True)

/-- No `fs_mkdir` that passes its checks while all 128 entries are in use. -/
def MkdirFits : FsOp → FsState σ → Prop
  | .mkdir path, st => mkdirParent st.fs path ≠ none → st.fs.fileCount < fsMaxFiles
  | _, _ => True

theorem Spare.mkdirFits {op : FsOp} {st : FsState σ} (h : Spare op st) : MkdirFits op st := by
  cases op with
  | mkdir path => exact fun _ => h
  | _ => exact trivial

end Step

/-! ### The current directory -/

structure IsCwd (path : List UInt8) : Prop extends IsPath path where
  absolute : path.head? = some slash

theorem isCwd_slash : IsCwd [slash] := ⟨⟨by decide, by decide⟩, rfl⟩

theorem isCwd_fsTargetPath {cwd path : List UInt8} (hc : IsCwd cwd) (hp : (0 : UInt8) ∉ path) :
    IsCwd (fsTargetPath cwd path) := by
  have htake : ∀ l : List UInt8, (0 : UInt8) ∉ l → l.head? = some slash →
      IsCwd (l.take (fsMaxPathLen - 1)) := by
    intro l h0 hhead
    refine ⟨⟨fun hmem => h0 (List.mem_of_mem_take hmem), ?_⟩, ?_⟩
    · exact Nat.lt_of_le_of_lt (List.length_take_le _ _) (by decide)
    · rw [List.head?_take, if_neg (by decide), hhead]
  rw [fsTargetPath]
  split
  · rename_i habs
    exact htake path hp habs
  · split
    · refine htake _ ?_ rfl
      rw [List.mem_cons, not_or]
      exact ⟨by decide, hp⟩
    · refine htake _ ?_ ?_
      · rw [List.mem_append, List.mem_cons, not_or, not_or]
        exact ⟨hc.noNul, by decide, hp⟩
      · rw [List.head?_append, hc.absolute]
        rfl

theorem fsDropLast_append {a b : List UInt8} (hb : slash ∉ b) :
    fsDropLast (a ++ slash :: b) = some a := by
  rw [fsDropLast, if_pos (by simp), List.reverse_append, List.reverse_cons, List.append_assoc,
    List.singleton_append, List.dropWhile_append_of_pos]
  · simp
  · intro x hx
    rw [decide_eq_true_iff]
    rintro rfl
    exact hb (List.mem_reverse.mp hx)

theorem exists_last_slash {l : List UInt8} (h : slash ∈ l) :
    ∃ a b, l = a ++ slash :: b ∧ slash ∉ b := by
  obtain ⟨b, a, hab, hb⟩ := List.eq_append_cons_of_mem (List.mem_reverse.mpr h)
  refine ⟨a.reverse, b.reverse, ?_, ?_⟩
  · rw [← List.reverse_reverse l, hab]
    simp
  · rwa [List.mem_reverse]

variable {σ : Type} {A : Allocator σ} {st : FsState σ}

theorem FsTree.fsChangeDir_root (h : FsTree st.fs) (hroot : st.currentDirectory = [slash]) :
    fsChangeDir [dot, dot] st = some (0, st) := by
  rw [fsChangeDir, h.not_initialized, if_neg Bool.false_ne_true]
  dsimp only
  rw [if_neg (by decide), if_pos rfl, if_pos hroot]

/-- `cd ..` cuts the text before its last slash. -/
theorem FsTree.fsChangeDir_dots {a b : List UInt8} (h : FsTree st.fs)
    (hroot : st.currentDirectory ≠ [slash]) (hab : st.currentDirectory = a ++ slash :: b)
    (hb : slash ∉ b) : fsChangeDir [dot, dot] st
      = some (0, { st with currentDirectory := if a = [] then [slash] else a }) := by
  rw [fsChangeDir, h.not_initialized, if_neg Bool.false_ne_true]
  dsimp only
  rw [if_neg (by decide), if_pos rfl, if_neg hroot, hab, fsDropLast_append hb]
  rfl

/-- `fs_change_dir` stays, or goes to the root, or cuts the text before its last slash, or goes
to the directory that the target path names. -/
theorem FsTree.fsChangeDir_cases (h : FsTree st.fs) (hc : IsCwd st.currentDirectory)
    {path : List UInt8} (hp : (0 : UInt8) ∉ path) :
    (∃ r, fsChangeDir path st = some (r, st)) ∨
    fsChangeDir path st = some (0, { st with currentDirectory := [slash] }) ∨
    (path = [dot, dot] ∧ st.currentDirectory ≠ [slash] ∧ ∃ a b,
      st.currentDirectory = a ++ slash :: b ∧ slash ∉ b ∧ fsChangeDir path st
        = some (0, { st with currentDirectory := if a = [] then [slash] else a })) ∨
    ∃ i, lookup st.fs (fsTargetPath st.currentDirectory path) = some i ∧
      (st.fs.files i).type = .directory ∧ fsChangeDir path st
        = some (0, { st with currentDirectory := fsTargetPath st.currentDirectory path }) := by
  have htarget := isCwd_fsTargetPath hc hp
  by_cases hdots : path = [dot, dot]
  · subst hdots
    by_cases hroot : st.currentDirectory = [slash]
    · exact Or.inl ⟨0, h.fsChangeDir_root hroot⟩
    · obtain ⟨a, b, hab, hb⟩ := exists_last_slash (List.mem_of_mem_head? hc.absolute)
      exact Or.inr (Or.inr (Or.inl
        ⟨rfl, hroot, a, b, hab, hb, h.fsChangeDir_dots hroot hab hb⟩))
  · rw [fsChangeDir, h.not_initialized, if_neg Bool.false_ne_true]
    dsimp only
    rw [if_neg hdots]
    split
    · exact Or.inl ⟨0, rfl⟩
    · split
      · exact Or.inr (Or.inl rfl)
      · cases hl : lookup st.fs (fsTargetPath st.currentDirectory path) with
        | none =>
            obtain ⟨code, hcode, hfind⟩ := h.fsFind_of_none htarget.toIsPath hl
            rw [hfind, Option.bind_eq_bind, Option.bind_some, if_pos hcode]
            exact Or.inl ⟨-1, rfl⟩
        | some i =>
            have hlt := (h.lookup_some hl).2.2.1
            rw [h.fsFind_of_some htarget.toIsPath hl]
            simp only [Option.bind_eq_bind, Option.bind_some]
            rw [if_neg (Int.not_lt.mpr (Int.natCast_nonneg i)), Int.toNat_natCast,
              h.getFile_eq hlt, Option.bind_some]
            split
            · exact Or.inl ⟨-1, rfl⟩
            · rename_i htype
              exact Or.inr (Or.inr (Or.inr ⟨i, rfl, not_not.mp htype, rfl⟩))

/-- `fs_change_dir` only changes the current directory, to an absolute path. -/
theorem fsChangeDir_cwd (h : FsTree st.fs) (hc : IsCwd st.currentDirectory) {path : List UInt8}
    (hp : (0 : UInt8) ∉ path) : ∃ r cwd, IsCwd cwd ∧
      fsChangeDir path st = some (r, { st with currentDirectory := cwd }) := by
  rcases h.fsChangeDir_cases hc hp with ⟨r, he⟩ | he | ⟨-, -, a, b, hab, -, he⟩ | ⟨i, -, -, he⟩
  · exact ⟨r, _, hc, he⟩
  · exact ⟨0, _, isCwd_slash, he⟩
  · refine ⟨0, _, ?_, he⟩
    split
    · exact isCwd_slash
    · rename_i hne
      obtain ⟨c, a, rfl⟩ := List.exists_cons_of_ne_nil hne
      have hlen := hc.length_lt
      have h0 := hc.noNul
      have habs := hc.absolute
      rw [hab] at hlen h0 habs
      rw [List.length_append] at hlen
      exact ⟨⟨fun hmem => h0 (List.mem_append_left _ hmem), by omega⟩, habs⟩
  · exact ⟨0, _, isCwd_fsTargetPath hc hp, he⟩

/-! ### The tree along a run -/

/-- What every state has in common. -/
structure FsInv (st : FsState σ) : Prop where
  tree : FsTree st.fs
  cwd : IsCwd st.currentDirectory

theorem fsInitState_inv (heap : σ) (mem : Mem) : FsInv (fsInitState heap mem) :=
  ⟨fsInit_tree, isCwd_slash⟩

theorem FsInv.withHeap (h : FsInv st) (heap : σ) (mem : Mem) :
    FsInv { st with heap := heap, mem := mem } := ⟨h.tree, h.cwd⟩

theorem FsInv.create (h : FsInv st) {path : List UInt8} (hp : IsPath path) (size : Nat) :
    ∃ r st', fsCreate A path size st = some (r, st') ∧ FsInv st' := by
  rcases h.tree.fsCreate_cases (A := A) hp size with ⟨-, he⟩ | ⟨d, -, -, -, he⟩ |
    ⟨d, -, -, -, -, htree, he⟩ | ⟨d, -, -, -, htree, he⟩
  · exact ⟨_, _, he, h⟩
  · exact ⟨_, _, he, h.withHeap _ _⟩
  · exact ⟨_, _, he, htree, h.cwd⟩
  · exact ⟨_, _, he, htree, h.cwd⟩

@[simp] theorem FsState.release_currentDirectory (ptr : Nat) :
    (st.release A ptr).currentDirectory = st.currentDirectory := by
  rw [FsState.release]
  split <;> rfl

theorem FsInv.delete (h : FsInv st) {path : List UInt8} (hp : IsPath path) :
    ∃ r st', fsDelete A path st = some (r, st') ∧ FsInv st' := by
  rcases h.tree.fsDelete_cases (A := A) hp with ⟨he, -⟩ | ⟨i, -, -, htree, he⟩ |
    ⟨i, k, -, -, -, -, htree, he⟩
  · exact ⟨_, _, he, h⟩
  · refine ⟨_, _, he, htree, ?_⟩
    rw [FsState.release_currentDirectory]
    exact h.cwd
  · exact ⟨_, _, he, htree, h.cwd⟩

@[simp] theorem FsState.dropData_currentDirectory (i : Nat) :
    (st.dropData A i).currentDirectory = st.currentDirectory := by
  rw [FsState.dropData]
  dsimp only
  split <;> rfl

theorem FsState.writeData_currentDirectory (i : Nat) (data : List UInt8) :
    (st.writeData A i data).2.currentDirectory = st.currentDirectory := by
  rcases st.writeData_cases A i data with ⟨-, -, he⟩ | ⟨-, he⟩ | ⟨-, he⟩
  · rw [he]
  · rw [he]
    exact FsState.dropData_currentDirectory i
  · rw [he]
    exact FsState.dropData_currentDirectory i

theorem FsInv.write (h : FsInv st) {path : List UInt8} (hp : IsPath path) (data : List UInt8) :
    ∃ r st', fsWrite A path data st = some (r, st') ∧ FsInv st' := by
  rcases h.tree.fsWrite_cases (A := A) hp data with ⟨he, -⟩ | ⟨i, -, -, he⟩
  · exact ⟨_, _, he, h⟩
  · obtain ⟨ptr, size, hfs⟩ := st.writeData_fs (A := A) i data
    refine ⟨(st.writeData A i data).1, (st.writeData A i data).2, he, ?_, ?_⟩
    · rw [hfs]
      exact h.tree.setData i ptr size
    · rw [FsState.writeData_currentDirectory]
      exact h.cwd

/-- **One step.**  Every call that fits returns and keeps the tree. -/
theorem fsStep_inv (op : FsOp) (h : FsInv st) (hp : op.HasPaths) (hfit : MkdirFits op st) :
    ∃ r st', fsStep A op st = some (r, st') ∧ FsInv st' := by
  cases op with
  | mkdir path =>
      rw [fsStep]
      rcases h.tree.fsMkdir_cases (hp path (by simp [FsOp.paths])) hfit with ⟨-, he⟩ |
        ⟨d, -, -, -, htree, he⟩
      · exact ⟨-1, st, by rw [he]; rfl, h⟩
      · exact ⟨0, { st with fs := st.fs.addDir d (dirEntry st.fs path d) }, by rw [he]; rfl, htree,
          h.cwd⟩
  | create path size => exact h.create (hp path (by simp [FsOp.paths])) size
  | delete path => exact h.delete (hp path (by simp [FsOp.paths]))
  | write path data => exact h.write (hp path (by simp [FsOp.paths])) data
  | copy srcPath destPath =>
      have hd := hp destPath (by simp [FsOp.paths])
      exact fsCopy_keeps (fun _ h => h.tree) (fun _ _ _ h => h.withHeap _ _)
        (fun _ hp _ h => h.delete hp) (fun _ data _ hp _ h _ => h.write hp data)
        (fun i st h => h.create hd (st.fs.files i).size) (hp srcPath (by simp [FsOp.paths])) hd h
  | move srcPath destPath =>
      have hd := hp destPath (by simp [FsOp.paths])
      exact fsMove_keeps (fun _ h => h.tree) (fun _ _ _ h => h.withHeap _ _)
        (fun _ hp _ h => h.delete hp) (fun _ data _ hp _ h _ => h.write hp data)
        (fun i st h => h.create hd (st.fs.files i).size) (hp srcPath (by simp [FsOp.paths])) hd h
  | changeDir path =>
      obtain ⟨r, cwd, hcwd, he⟩ :=
        fsChangeDir_cwd h.tree h.cwd (hp path (by simp [FsOp.paths])).noNul
      exact ⟨r, _, he, h.tree, hcwd⟩

/-- **The run.** -/
theorem fsRun_inv {ops : List FsOp} (hp : ∀ op ∈ ops, op.HasPaths) (h : FsInv st)
    (hfit : Machine.Meets (fsStep A) MkdirFits ops st) :
    ∃ os st', Machine.run (fsStep A) ops st = some (os, st') ∧ FsInv st' := by
  have hG : Machine.Meets (fsStep A) (fun op st => op.HasPaths ∧ MkdirFits op st) ops st :=
    Machine.meets_and.mpr ⟨Machine.meets_of_forall (fun op hop _ => hp op hop) st, hfit⟩
  exact Machine.run_total (fun op _ h hG => fsStep_inv op h hG.1 hG.2) h hG

/-! ### Table bounds -/

structure InBounds (fs : Filesystem) : Prop where
  fileCount_le : fs.fileCount ≤ fsMaxFiles
  dirCount_le : fs.dirCount ≤ fsMaxDirectories
  length_le : ∀ d < fsMaxDirectories, (fs.directories d).files.length ≤ fsMaxFilesPerDir

theorem FsTree.inBounds {fs : Filesystem} (h : FsTree fs) : InBounds fs where
  fileCount_le := h.fileCount_le
  dirCount_le := h.dirCount_le
  length_le := by
    intro d _
    by_cases hd : d < fs.dirCount
    · exact h.length_le d hd
    · rw [h.fresh d (Nat.not_lt.mp hd)]
      exact Nat.zero_le _

/-- A `fs_mkdir` that passes its checks with 128 entries in use leaves the table. -/
theorem mkdirFits_of_step {op : FsOp} (h : FsInv st) (hp : op.HasPaths) {r : Int} {st' : FsState σ}
    (hstep : fsStep A op st = some (r, st')) : MkdirFits op st := by
  cases op with
  | mkdir path =>
      intro hd
      by_contra hfc
      rw [fsStep, h.tree.fsMkdir_eq (hp path (by simp [FsOp.paths]))] at hstep
      obtain ⟨d, hd⟩ := Option.ne_none_iff_exists'.mp hd
      rw [hd] at hstep
      dsimp only at hstep
      rw [if_neg hfc] at hstep
      exact absurd hstep (by simp)
  | _ => exact trivial

/-- **Table bounds.**  No access of a run leaves its array if and only if no `fs_mkdir`
passes its checks while all 128 entries are in use. -/
theorem fsRun_inBounds_iff (A : Allocator σ) (heap : σ) (mem : Mem) (ops : List FsOp)
    (hp : ∀ op ∈ ops, op.HasPaths) :
    (∃ os st, Machine.run (fsStep A) ops (fsInitState heap mem) = some (os, st) ∧
      InBounds st.fs) ↔ Machine.Meets (fsStep A) MkdirFits ops (fsInitState heap mem) := by
  have hinit := fsInitState_inv heap mem
  constructor
  · rintro ⟨os, st, hr, -⟩
    refine Machine.meets_of_run (I := FsInv) ?_ hp hinit hr
    intro op s r s' hop hI hstep
    have hfit := mkdirFits_of_step hI hop hstep
    obtain ⟨r', t, he, hI'⟩ := fsStep_inv (A := A) op hI hop hfit
    rw [hstep, Option.some.injEq, Prod.mk.injEq] at he
    exact ⟨hfit, he.2 ▸ hI'⟩
  · intro hfit
    obtain ⟨os, st, hr, hI⟩ := fsRun_inv hp hinit hfit
    exact ⟨os, st, hr, hI.tree.inBounds⟩

/-- An allocator that never has memory. -/
def noMemory : Allocator Unit := ⟨fun _ s m => (0, s, m), fun _ s m => (s, m)⟩

theorem fsInitState_mkdir {path : List UInt8} (hp : IsPath path)
    (hd : mkdirParent fsInit path = some 0) :
    fsStep noMemory (.mkdir path) (fsInitState () ⟨fun _ => 0⟩) = some (0,
      { fsInitState () ⟨fun _ => 0⟩ with fs := fsInit.addDir 0 (dirEntry fsInit path 0) }) := by
  have heq := fsInit_tree.fsMkdir_eq hp
  rw [hd] at heq
  dsimp only at heq
  rw [if_pos (by decide)] at heq
  rw [fsStep, show (fsInitState () ⟨fun _ => 0⟩).fs = fsInit from rfl, heq]
  rfl

theorem fsRun_inBounds_iff_mkdir : (∃ os st, Machine.run (fsStep noMemory)
      [.mkdir [slash, 97], .create [slash, 97, slash, 98] 0] (fsInitState () ⟨fun _ => 0⟩)
        = some (os, st) ∧ InBounds st.fs) ↔
    Machine.Meets (fsStep noMemory) MkdirFits [.mkdir [slash, 97], .create [slash, 97, slash, 98] 0]
      (fsInitState () ⟨fun _ => 0⟩) :=
  fsRun_inBounds_iff noMemory () ⟨fun _ => 0⟩ _ (by decide)

section Fill

/-- The path `"/a"`. -/
abbrev pathA : List UInt8 := [slash, 97]

/-- A file system with an empty root and `n` dead entries. -/
structure Blank (n : Nat) (st : FsState σ) : Prop extends FsInv st where
  fileCount : st.fs.fileCount = n
  dirCount : st.fs.dirCount = 1
  root : (st.fs.directories 0).files = []

theorem Blank.lookup_pathA {n : Nat} (h : Blank n st) : lookup st.fs pathA = none ∧
    parentOf st.fs (components pathA) = some 0 := by
  refine ⟨?_, rfl⟩
  have hfiles : entryIn st.fs 0 [97] = none := by
    rw [entryIn, h.root]
    rfl
  exact hfiles

theorem Blank.round {n : Nat} (h : Blank n st) (hn : n < fsMaxFiles) :
    ∃ st', Machine.run (fsStep A) [.create pathA 0, .delete pathA] st = some ([0, 0], st') ∧
      Blank (n + 1) st' := by
  obtain ⟨hl, hparent⟩ := h.lookup_pathA
  have hpath : IsPath pathA := by decide
  have hd : createParent st.fs pathA = some 0 := by
    rw [createParent_eq_some, hl, hparent, h.fileCount, h.root]
    exact ⟨rfl, hn, rfl, by decide⟩
  have hcreate : fsStep A (.create pathA 0) st = _ := h.tree.fsCreate_zero (A := A) hpath hd
  obtain ⟨-, htree⟩ := h.tree.addFile_of_createParent hd 0 0
  generalize he : fileEntry st.fs pathA 0 0 0 = e at hcreate htree
  have hename : e.name = [97] := by
    rw [← he]
    rfl
  have hetype : e.type = .file := by
    rw [← he]
    rfl
  have heparent : e.parentDir = 0 := by
    rw [← he]
    rfl
  have heptr : e.dataPointer = 0 := by
    rw [← he]
    rfl
  -- the file is found again
  have hfind : lookup (st.fs.addEntry 0 e) pathA = some n := by
    have hentry : entryIn (st.fs.addEntry 0 e) 0 [97] = some n := by
      rw [entryIn, addEntry_dir_self, h.root, h.fileCount, List.nil_append, List.find?_singleton,
        ← h.fileCount, addEntry_file_self, hename]
      rfl
    exact hentry
  have hdelete : fsStep A (.delete pathA) { st with fs := st.fs.addEntry 0 e } = _ :=
    FsTree.fsDelete_eq (A := A) htree hpath
  have hfile : (st.fs.addEntry 0 e).files n = e := by
    rw [← h.fileCount, addEntry_file_self]
  rw [hfind] at hdelete
  dsimp only at hdelete
  rw [hfile, hetype, if_neg (by decide), heptr, heparent] at hdelete
  obtain ⟨hmem, hlt, -, -, -⟩ := htree.lookup_some hfind
  rw [hfile, heparent] at hmem hlt
  refine ⟨_, Machine.run_cons_some.mpr ⟨0, _, [0], hcreate, Machine.run_cons_some.mpr
    ⟨0, _, [], hdelete, rfl, rfl⟩, rfl⟩, ⟨htree.removeEntry hlt hmem (Or.inl ?_), ?_⟩, ?_, ?_, ?_⟩
  · rw [hfile, hetype]
  · exact h.cwd
  · exact congrArg (· + 1) h.fileCount
  · exact h.dirCount
  · have hroot : ((st.fs.addEntry 0 e).directories 0).files = [n] := by
      rw [addEntry_dir_self, h.root, h.fileCount]
      rfl
    rw [removeEntry_files, if_pos rfl, hroot]
    exact List.erase_cons_head ..

theorem Blank.rounds (k : Nat) {n : Nat} (h : Blank n st) (hk : n + k ≤ fsMaxFiles) :
    ∃ os st', Machine.run (fsStep A)
      (List.replicate k [FsOp.create pathA 0, .delete pathA]).flatten st = some (os, st') ∧
      Blank (n + k) st' := by
  induction k generalizing n st with
  | zero => exact ⟨[], st, rfl, h⟩
  | succ k ih =>
      obtain ⟨t, hr, ht⟩ := h.round (A := A) (by omega)
      obtain ⟨os, st', hr', ht'⟩ := ih ht (by omega)
      refine ⟨[0, 0] ++ os, st', ?_, ?_⟩
      · rw [List.replicate_succ, List.flatten_cons]
        exact Machine.run_append_some.mpr ⟨_, t, os, hr, hr', rfl⟩
      · rwa [Nat.add_assoc, Nat.add_comm 1 k] at ht'

/-- 128 files made and deleted, and then a directory. -/
def fillOps : List FsOp :=
  (List.replicate 128 [FsOp.create pathA 0, .delete pathA]).flatten ++ [.mkdir pathA]

theorem fillOps_hasPaths : ∀ op ∈ fillOps, op.HasPaths := by
  intro op hop
  rw [fillOps, List.mem_append, List.mem_flatten] at hop
  rcases hop with ⟨l, hl, hop⟩ | hop
  · rw [List.eq_of_mem_replicate hl, List.mem_cons, List.mem_singleton] at hop
    rcases hop with rfl | rfl <;> decide
  · rw [List.mem_singleton.mp hop]
    decide

/-- The last call writes the 129th entry. -/
theorem fsRun_outOfBounds : (∀ op ∈ fillOps, op.HasPaths) ∧
    Machine.run (fsStep noMemory) fillOps (fsInitState () ⟨fun _ => 0⟩) = none := by
  refine ⟨fillOps_hasPaths, ?_⟩
  have hblank : Blank 0 (fsInitState () ⟨fun _ => 0⟩) := ⟨fsInitState_inv _ _, rfl, rfl, rfl⟩
  obtain ⟨os, st, hr, hst⟩ := hblank.rounds (A := noMemory) 128 (by decide)
  obtain ⟨hl, hparent⟩ := hst.lookup_pathA
  have hd : mkdirParent st.fs pathA = some 0 := by
    rw [mkdirParent_eq_some, hl, hparent, hst.dirCount, hst.root]
    exact ⟨rfl, by decide, rfl, by decide⟩
  have hstep : fsStep noMemory (.mkdir pathA) st = none := by
    rw [fsStep, hst.tree.fsMkdir_eq (by decide), hd]
    dsimp only
    rw [hst.fileCount]
    rfl
  cases hrun : Machine.run (fsStep noMemory) fillOps (fsInitState () ⟨fun _ => 0⟩) with
  | none => rfl
  | some p =>
      obtain ⟨os', st'⟩ := p
      obtain ⟨os₁, t, os₂, h₁, h₂, -⟩ := Machine.run_append_some.mp hrun
      rw [hr, Option.some.injEq, Prod.mk.injEq] at h₁
      obtain ⟨o, u, os₃, hs, -, -⟩ := Machine.run_cons_some.mp h₂
      rw [← h₁.2, hstep] at hs
      exact absurd hs (by simp)

end Fill

/-! ### The tree -/

/-- The tree as a reader of the tables sees it. -/
structure FsConsistent (fs : Filesystem) : Prop where
  listed_lt : ∀ d < fs.dirCount, ∀ i ∈ (fs.directories d).files, i < fs.fileCount
  listed_once : ∀ d < fs.dirCount, ∀ i ∈ (fs.directories d).files,
    (fs.directories d).files.count i = 1 ∧
      ∀ c < fs.dirCount, i ∈ (fs.directories c).files → c = d
  listed_parent : ∀ d < fs.dirCount, ∀ i ∈ (fs.directories d).files, (fs.files i).parentDir = d
  named_listed : ∀ i < fs.fileCount, (fs.files i).name ≠ [] →
    ∃ d < fs.dirCount, i ∈ (fs.directories d).files
  slot : ∀ d < fs.dirCount, ∀ i ∈ (fs.directories d).files, (fs.files i).type = .directory →
    (fs.files i).name ≠ [] → ∃! k, k < fs.dirCount ∧
      (fs.directories k).name = (fs.files i).name ∧ (fs.directories k).parentDir = d
  parent_lt : ∀ k < fs.dirCount, k ≠ 0 → (fs.directories k).parentDir < k
  /-- The parents of a live directory are live, and one of them is the root. -/
  chain : ∀ k < fs.dirCount, (fs.directories k).name ≠ [] →
    (∀ n, (fun k => (fs.directories k).parentDir)^[n] k < fs.dirCount ∧
      (fs.directories ((fun k => (fs.directories k).parentDir)^[n] k)).name ≠ []) ∧
    ∃ n, (fun k => (fs.directories k).parentDir)^[n] k = 0

theorem FsTree.parent_live {fs : Filesystem} (h : FsTree fs) {k : Nat} (hk : k < fs.dirCount)
    (hne : (fs.directories k).name ≠ []) : (fs.directories k).parentDir < fs.dirCount ∧
      (fs.directories (fs.directories k).parentDir).name ≠ [] := by
  by_cases h0 : k = 0
  · rw [h0, h.root_parent]
    refine ⟨h.dirCount_pos, ?_⟩
    rw [h.root_name]
    simp
  · have hpos := Nat.pos_of_ne_zero h0
    exact ⟨Nat.lt_trans (h.slot_parent_lt k hk hpos) hk, h.slot_live k hk hpos hne⟩

theorem FsTree.consistent {fs : Filesystem} (h : FsTree fs) : FsConsistent fs where
  listed_lt := h.listed_lt
  listed_once := by
    intro d hd i hi
    refine ⟨List.count_eq_one_of_mem (h.nodup d hd) hi, ?_⟩
    intro c hc hic
    exact h.listed_unique hc hd hic hi
  listed_parent := h.listed_parent
  named_listed := h.named_listed
  slot := by
    intro d hd i hi hdir hne
    obtain ⟨k, hk, hkname, hkparent⟩ := h.slot d hd i hi hdir hne
    refine ⟨k, ⟨hk, hkname, hkparent⟩, ?_⟩
    rintro l ⟨hl, hlname, hlparent⟩
    exact h.slot_unique l hl k hk (hlname ▸ hne) (hlname.trans hkname.symm)
      (hlparent.trans hkparent.symm)
  parent_lt := by
    intro k hk h0
    exact h.slot_parent_lt k hk (Nat.pos_of_ne_zero h0)
  chain := by
    intro k hk hne
    constructor
    · intro n
      induction n with
      | zero => exact ⟨hk, hne⟩
      | succ n ih =>
          rw [Function.iterate_succ_apply']
          exact h.parent_live ih.1 ih.2
    · clear hne
      induction k using Nat.strongRecOn with
      | ind k ih =>
          by_cases h0 : k = 0
          · exact ⟨0, h0⟩
          · have hlt := h.slot_parent_lt k hk (Nat.pos_of_ne_zero h0)
            obtain ⟨n, hn⟩ := ih _ hlt (Nat.lt_trans hlt hk)
            exact ⟨n + 1, hn⟩

/-- **Tree consistency.**  Up to a `fs_mkdir` with all 128 entries in use, a run returns
and leaves a tree. -/
theorem fsRun_consistent (A : Allocator σ) (heap : σ) (mem : Mem) (ops : List FsOp)
    (hp : ∀ op ∈ ops, op.HasPaths)
    (hspare : Machine.Meets (fsStep A) Spare ops (fsInitState heap mem)) :
    ∃ os st, Machine.run (fsStep A) ops (fsInitState heap mem) = some (os, st) ∧
      FsConsistent st.fs := by
  obtain ⟨os, st, hr, hI⟩ := fsRun_inv hp (fsInitState_inv heap mem)
    (hspare.mono fun _ _ h => h.mkdirFits)
  exact ⟨os, st, hr, hI.tree.consistent⟩

theorem fsRun_consistent_mkdir : ∃ os st, Machine.run (fsStep noMemory)
    [.mkdir [slash, 97], .mkdir [slash, 97, slash, 98], .delete [slash, 97]]
      (fsInitState () ⟨fun _ => 0⟩) = some (os, st) ∧ FsConsistent st.fs :=
  fsRun_consistent noMemory () ⟨fun _ => 0⟩ _ (by decide) (by decide +kernel)

end AceOS.Drivers.Fs
