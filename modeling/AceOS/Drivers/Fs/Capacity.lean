import AceOS.Drivers.Fs.Data

/-!
# Capacity

A deletion empties names and gives no place of the tables back: `fs_create` and
`fs_mkdir` look at the counters only, and the counters only grow.
-/

namespace AceOS.Drivers.Fs

open Filesystem Memory

/-! ### Paths that do not fit -/

section Long

variable {fs : Filesystem} {path : List UInt8} {σ : Type} {A : Allocator σ} {st : FsState σ}

/-- A path that fills the buffers names nothing, or is read beyond them. -/
theorem fsFind_of_le (hlen : fsMaxPathLen ≤ path.length) (h0 : (0 : UInt8) ∉ path) {code : Int}
    (h : fsFind fs path = some code) :
    code = -1 ∧ ∃ p, p < 0 ∧ fsFindParentDir fs path = some p := by
  have hroot : ¬fsIsRoot path = true := by
    rw [fsIsRoot, decide_eq_true_iff]
    rintro (rfl | rfl) <;> exact absurd hlen (by decide)
  rw [fsFind, if_neg hroot, Option.bind_eq_bind] at h
  cases hp : fsFindParentDir fs path with
  | none =>
      rw [hp] at h
      exact absurd h (by simp)
  | some p =>
      rw [hp, Option.bind_some] at h
      split at h
      · rename_i hneg
        rw [Option.some.injEq] at h
        exact ⟨h.symm, p, hneg, rfl⟩
      · have hname : fsGetFilename path = none := by
          rw [fsGetFilename, fsParsePath_of_le hlen h0]
          rfl
        rw [hname] at h
        exact absurd h (by simp)

theorem fsCreate_of_le (hlen : fsMaxPathLen ≤ path.length) (h0 : (0 : UInt8) ∉ path) {size : Nat}
    {r : Int × FsState σ} (h : fsCreate A path size st = some r) : r = (-1, st) := by
  rw [fsCreate] at h
  split at h
  · exact (Option.some.inj h).symm
  · rw [Option.bind_eq_bind, Option.bind_eq_some_iff] at h
    obtain ⟨code, hcode, h⟩ := h
    obtain ⟨rfl, p, hp, hparent⟩ := fsFind_of_le hlen h0 hcode
    rw [if_neg (by decide), hparent] at h
    simp only [Option.bind_eq_bind, Option.bind_some, if_pos hp] at h
    exact (Option.some.inj h).symm

theorem fsMkdir_of_le (hlen : fsMaxPathLen ≤ path.length) (h0 : (0 : UInt8) ∉ path)
    {r : Int × Filesystem} (h : fsMkdir path fs = some r) : r = (-1, fs) := by
  rw [fsMkdir] at h
  split at h
  · exact (Option.some.inj h).symm
  · rw [Option.bind_eq_bind, Option.bind_eq_some_iff] at h
    obtain ⟨code, hcode, h⟩ := h
    obtain ⟨rfl, p, hp, hparent⟩ := fsFind_of_le hlen h0 hcode
    rw [if_neg (by decide), hparent] at h
    simp only [Option.bind_eq_bind, Option.bind_some, if_pos hp] at h
    exact (Option.some.inj h).symm

theorem fsDelete_of_le (hlen : fsMaxPathLen ≤ path.length) (h0 : (0 : UInt8) ∉ path)
    {r : Int × FsState σ} (h : fsDelete A path st = some r) : r = (-1, st) := by
  rw [fsDelete] at h
  split at h
  · exact (Option.some.inj h).symm
  · split at h
    · exact (Option.some.inj h).symm
    · rw [Option.bind_eq_bind, Option.bind_eq_some_iff] at h
      obtain ⟨code, hcode, h⟩ := h
      rw [(fsFind_of_le hlen h0 hcode).1, if_pos (by decide)] at h
      exact (Option.some.inj h).symm

theorem fsWrite_of_le (hlen : fsMaxPathLen ≤ path.length) (h0 : (0 : UInt8) ∉ path)
    {data : List UInt8} {r : Int × FsState σ} (h : fsWrite A path data st = some r) :
    r = (-1, st) := by
  rw [fsWrite] at h
  split at h
  · exact (Option.some.inj h).symm
  · rw [Option.bind_eq_bind, Option.bind_eq_some_iff] at h
    obtain ⟨code, hcode, h⟩ := h
    rw [(fsFind_of_le hlen h0 hcode).1, if_pos (by decide)] at h
    exact (Option.some.inj h).symm

theorem fsCopy_of_le {srcPath destPath : List UInt8} (h0 : (0 : UInt8) ∉ srcPath)
    (h0' : (0 : UInt8) ∉ destPath)
    (hlen : fsMaxPathLen ≤ srcPath.length ∨ fsMaxPathLen ≤ destPath.length)
    {r : Int × FsState σ} (h : fsCopy A srcPath destPath st = some r) : r = (-1, st) := by
  rw [fsCopy] at h
  split at h
  · exact (Option.some.inj h).symm
  · rw [Option.bind_eq_bind, Option.bind_eq_some_iff] at h
    obtain ⟨code, hcode, h⟩ := h
    rcases hlen with hlen | hlen
    · rw [(fsFind_of_le hlen h0 hcode).1, if_pos (by decide)] at h
      exact (Option.some.inj h).symm
    · split at h
      · exact (Option.some.inj h).symm
      · rw [Option.bind_eq_bind, Option.bind_eq_some_iff] at h
        obtain ⟨src, -, h⟩ := h
        split at h
        · exact (Option.some.inj h).symm
        · rw [Option.bind_eq_bind, Option.bind_eq_some_iff] at h
          obtain ⟨code', hcode', h⟩ := h
          rw [(fsFind_of_le hlen h0' hcode').1, if_neg (by decide),
            Option.bind_eq_some_iff] at h
          -- `fs_create` refuses the path
          obtain ⟨r', hr', h⟩ := h
          rw [fsCreate_of_le hlen h0' hr'] at h
          exact (Option.some.inj h).symm

theorem FsOp.exists_long {op : FsOp} (h0 : ∀ path ∈ op.paths, (0 : UInt8) ∉ path)
    (hlong : ¬op.HasPaths) : ∃ path ∈ op.paths, fsMaxPathLen ≤ path.length := by
  by_contra hcon
  refine hlong fun path hpath => ⟨h0 path hpath, ?_⟩
  exact Nat.not_le.mp fun hlen => hcon ⟨path, hpath, hlen⟩

/-- A call with such a path returns `-1`, or is undefined. -/
theorem fsStep_of_le {op : FsOp} (h0 : ∀ path ∈ op.paths, (0 : UInt8) ∉ path)
    (hcd : ∀ path, op ≠ .changeDir path) (hlong : ¬op.HasPaths) {r : Int × FsState σ}
    (h : fsStep A op st = some r) : r = (-1, st) := by
  obtain ⟨path, hpath, hlen⟩ := FsOp.exists_long h0 hlong
  cases op with
  | mkdir p =>
      rw [List.mem_singleton.mp hpath] at hlen
      rw [fsStep, Option.map_eq_some_iff] at h
      obtain ⟨a, ha, rfl⟩ := h
      rw [fsMkdir_of_le hlen (h0 p (by simp [FsOp.paths])) ha]
  | create p size =>
      rw [List.mem_singleton.mp hpath] at hlen
      exact fsCreate_of_le hlen (h0 p (by simp [FsOp.paths])) h
  | delete p =>
      rw [List.mem_singleton.mp hpath] at hlen
      exact fsDelete_of_le hlen (h0 p (by simp [FsOp.paths])) h
  | write p data =>
      rw [List.mem_singleton.mp hpath] at hlen
      exact fsWrite_of_le hlen (h0 p (by simp [FsOp.paths])) h
  | copy srcPath destPath =>
      have hor : fsMaxPathLen ≤ srcPath.length ∨ fsMaxPathLen ≤ destPath.length := by
        simp only [FsOp.paths, List.mem_cons, List.not_mem_nil, or_false] at hpath
        rcases hpath with rfl | rfl
        · exact Or.inl hlen
        · exact Or.inr hlen
      exact fsCopy_of_le (h0 srcPath (by simp [FsOp.paths])) (h0 destPath (by simp [FsOp.paths]))
        hor h
  | move srcPath destPath =>
      have hor : fsMaxPathLen ≤ srcPath.length ∨ fsMaxPathLen ≤ destPath.length := by
        simp only [FsOp.paths, List.mem_cons, List.not_mem_nil, or_false] at hpath
        rcases hpath with rfl | rfl
        · exact Or.inl hlen
        · exact Or.inr hlen
      rw [fsStep, fsMove] at h
      split at h
      · exact (Option.some.inj h).symm
      · rw [Option.bind_eq_bind, Option.bind_eq_some_iff] at h
        obtain ⟨r', hr', h⟩ := h
        rw [fsCopy_of_le (h0 srcPath (by simp [FsOp.paths])) (h0 destPath (by simp [FsOp.paths]))
          hor hr'] at h
        exact (Option.some.inj h).symm
  | changeDir p => exact absurd rfl (hcd p)

theorem fsStep_text {op : FsOp} (hI : FsInv st) (h0 : ∀ path ∈ op.paths, (0 : UInt8) ∉ path)
    {r : Int} {st' : FsState σ} (h : fsStep A op st = some (r, st')) : FsInv st' := by
  by_cases hp : op.HasPaths
  · obtain ⟨r', t, he, hI'⟩ := fsStep_inv (A := A) op hI hp (mkdirFits_of_step hI hp h)
    rw [h, Option.some.injEq, Prod.mk.injEq] at he
    exact he.2 ▸ hI'
  · cases op with
    | changeDir path =>
        obtain ⟨r', cwd, hcwd, he⟩ :=
          fsChangeDir_cwd hI.tree hI.cwd (h0 path (by simp [FsOp.paths]))
        rw [fsStep, he, Option.some.injEq, Prod.mk.injEq] at h
        exact h.2 ▸ ⟨hI.tree, hcwd⟩
    | _ =>
        have hr := fsStep_of_le h0 (by simp) hp h
        rw [Prod.mk.injEq] at hr
        exact hr.2 ▸ hI

/-- **The run** with any strings. -/
theorem fsRun_text {ops : List FsOp} (h0 : ∀ op ∈ ops, ∀ path ∈ op.paths, (0 : UInt8) ∉ path)
    (hI : FsInv st) {os : List Int} {st' : FsState σ}
    (h : Machine.run (fsStep A) ops st = some (os, st')) : FsInv st' := by
  refine Machine.run_inv (G := fun op _ => ∀ path ∈ op.paths, (0 : UInt8) ∉ path)
    (fun op s r s' hI h0 h => fsStep_text hI h0 h) hI ?_ h
  exact Machine.meets_of_forall (fun op hop _ => h0 op hop) st

end Long

/-! ### What is live -/

section Live

variable (fs : Filesystem)

def liveEntries : Nat := (List.range fs.fileCount).countP fun i => Listed fs i

/-- The number of directories: the root and the listed ones. -/
def liveDirs : Nat :=
  (List.range fs.fileCount).countP (fun i => Listed fs i ∧ (fs.files i).type = .directory) + 1

/-- By what is live, there is room for a new entry at the path. -/
structure HasSpace (path : List UInt8) : Prop where
  live : liveEntries fs < fsMaxFiles
  parent : ∃ d : Nat, fsFindParentDir fs path = some (d : Int) ∧
    (fs.directories d).files.length < fsMaxFilesPerDir
  free : fsFind fs path = some (-1)
  named : ∃ name, fsGetFilename path = some name ∧ name ≠ []

end Live

section Space

variable {σ : Type} {A : Allocator σ} {st : FsState σ} {path : List UInt8}

theorem HasSpace.isPath {fs : Filesystem} (h : HasSpace fs path) (h0 : (0 : UInt8) ∉ path) :
    IsPath path := by
  refine ⟨h0, ?_⟩
  by_contra hlen
  obtain ⟨d, hd, -⟩ := h.parent
  obtain ⟨-, p, hp, hparent⟩ := fsFind_of_le (Nat.not_lt.mp hlen) h0 h.free
  rw [hd, Option.some.injEq] at hparent
  omega

theorem HasSpace.lookup_parent {fs : Filesystem} (htree : FsTree fs) (h : HasSpace fs path)
    (hp : IsPath path) : ∃ d, lookup fs path = none ∧ parentOf fs (components path) = some d ∧
      (fs.directories d).files.length < fsMaxFilesPerDir := by
  obtain ⟨d, hd, hlen⟩ := h.parent
  rw [htree.fsFindParentDir_eq hp, Option.some.injEq] at hd
  have hfree : lookup fs path = none := by
    cases hl : lookup fs path with
    | none => rfl
    | some i =>
        have hfind := h.free
        rw [htree.fsFind_of_some hp hl, Option.some.injEq] at hfind
        omega
  refine ⟨d, hfree, ?_, hlen⟩
  cases hparent : parentOf fs (components path) with
  | none =>
      rw [hparent] at hd
      exact absurd hd (by simp [codeOf])
  | some c =>
      rw [hparent, codeOf] at hd
      rw [Int.ofNat.inj hd]

/-- With room, `fs_create` succeeds as long as the entries were never 128. -/
theorem HasSpace.fsCreate_iff (htree : FsTree st.fs) (h : HasSpace st.fs path) (hp : IsPath path) :
    (∃ st', fsCreate A path 0 st = some (0, st')) ↔ st.fs.fileCount < fsMaxFiles := by
  obtain ⟨d, hl, hparent, hlen⟩ := h.lookup_parent htree hp
  constructor
  · rintro ⟨st', he⟩
    by_contra hfc
    have hnone : createParent st.fs path = none := by
      rw [createParent, if_neg fun hcon => hfc hcon.2]
    rw [htree.fsCreate_eq hp, hnone, Option.some.injEq, Prod.mk.injEq] at he
    exact absurd he.1 (by decide)
  · intro hfc
    exact ⟨_, htree.fsCreate_zero hp (createParent_eq_some.mpr ⟨hl, hfc, hparent, hlen⟩)⟩

/-- The same for `fs_mkdir` and both counters. -/
theorem HasSpace.fsMkdir_iff (htree : FsTree st.fs) (h : HasSpace st.fs path) (hp : IsPath path) :
    (∃ fs', fsMkdir path st.fs = some (0, fs')) ↔
      st.fs.fileCount < fsMaxFiles ∧ st.fs.dirCount < fsMaxDirectories := by
  obtain ⟨d, hl, hparent, hlen⟩ := h.lookup_parent htree hp
  constructor
  · rintro ⟨fs', he⟩
    rw [htree.fsMkdir_eq hp] at he
    cases hm : mkdirParent st.fs path with
    | none =>
        rw [hm, Option.some.injEq, Prod.mk.injEq] at he
        exact absurd he.1 (by decide)
    | some c =>
        rw [hm] at he
        dsimp only at he
        refine ⟨?_, (mkdirParent_eq_some.mp hm).2.1⟩
        by_contra hfc
        rw [if_neg hfc] at he
        exact absurd he (by simp)
  · rintro ⟨hfc, hdc⟩
    refine ⟨st.fs.addDir d (dirEntry st.fs path d), ?_⟩
    rw [htree.fsMkdir_eq hp, mkdirParent_eq_some.mpr ⟨hl, hdc, hparent, hlen⟩]
    exact if_pos hfc

end Space

/-- **Capacity.**  In every state a run reaches, where there is room by what is live,
`fs_create` succeeds if and only if fewer than 128 entries were ever made, and
`fs_mkdir` if and only if in addition fewer than 32 directories were. -/
theorem fsRun_capacity {σ : Type} (A : Allocator σ) (heap : σ) (mem : Mem) (ops : List FsOp)
    (h0 : ∀ op ∈ ops, ∀ path ∈ op.paths, (0 : UInt8) ∉ path) (os : List Int) (st : FsState σ)
    (hrun : Machine.run (fsStep A) ops (fsInitState heap mem) = some (os, st))
    (path : List UInt8) (hpath : (0 : UInt8) ∉ path) (h : HasSpace st.fs path) :
    ((∃ st', fsCreate A path 0 st = some (0, st')) ↔ st.fs.fileCount < fsMaxFiles) ∧
    (liveDirs st.fs < fsMaxDirectories → ((∃ fs', fsMkdir path st.fs = some (0, fs')) ↔
      st.fs.fileCount < fsMaxFiles ∧ st.fs.dirCount < fsMaxDirectories)) := by
  have hI := fsRun_text h0 (fsInitState_inv heap mem) hrun
  have hp := h.isPath hpath
  exact ⟨h.fsCreate_iff hI.tree hp, fun _ => h.fsMkdir_iff hI.tree hp⟩

/-- A file and a directory are made and deleted again: there is room for a new file and for a
new directory. -/
theorem fsRun_capacity_reused : ∃ os st, Machine.run (fsStep noMemory)
      [.create pathA 0, .mkdir [slash, 98], .delete pathA, .delete [slash, 98]]
      (fsInitState () ⟨fun _ => 0⟩) = some (os, st) ∧
    os = [0, 0, 0, 0] ∧ liveEntries st.fs = 0 ∧ st.fs.fileCount = 2 ∧
    (∃ st', fsCreate noMemory pathA 0 st = some (0, st')) ∧
    ∃ fs', fsMkdir pathA st.fs = some (0, fs') := by
  have hcode : (Machine.run (fsStep noMemory)
      [.create pathA 0, .mkdir [slash, 98], .delete pathA, .delete [slash, 98]]
      (fsInitState () ⟨fun _ => 0⟩)).map (fun r => decide ((r.1 = [0, 0, 0, 0] ∧
        liveEntries r.2.fs = 0 ∧ liveDirs r.2.fs = 1) ∧
        (r.2.fs.fileCount = 2 ∧ r.2.fs.dirCount = 2) ∧ fsFindParentDir r.2.fs pathA = some 0 ∧
        (r.2.fs.directories 0).files = [] ∧ fsFind r.2.fs pathA = some (-1))) = some true := by
    decide +kernel
  obtain ⟨⟨os, st⟩, hrun, hst⟩ := Option.map_eq_some_iff.mp hcode
  obtain ⟨⟨hos, hlive, hdirs⟩, ⟨hfc, hdc⟩, hparent, hroot, hfree⟩ := of_decide_eq_true hst
  have hspace : HasSpace st.fs pathA := by
    refine ⟨?_, ⟨0, hparent, ?_⟩, hfree, ⟨[97], by decide +kernel, by decide⟩⟩
    · rw [hlive]
      decide
    · rw [hroot]
      decide
  obtain ⟨hcreate, hmkdir⟩ :=
    fsRun_capacity noMemory () ⟨fun _ => 0⟩ _ (by decide) os st hrun pathA (by decide) hspace
  have hroom : st.fs.fileCount < fsMaxFiles ∧ st.fs.dirCount < fsMaxDirectories := by
    rw [hfc, hdc]
    decide
  refine ⟨os, st, hrun, hos, hlive, hfc, hcreate.mpr hroom.1, (hmkdir ?_).mpr hroom⟩
  rw [hdirs]
  decide

/-- After 128 files made and deleted, nothing is live and no file can be made. -/
theorem fsRun_capacity_lost : ∃ os st, Machine.run (fsStep noMemory)
      (List.replicate 128 [FsOp.create pathA 0, .delete pathA]).flatten
      (fsInitState () ⟨fun _ => 0⟩) = some (os, st) ∧
    liveEntries st.fs = 0 ∧ HasSpace st.fs pathA ∧
    fsCreate noMemory pathA 0 st = some (-1, st) := by
  have hblank : Blank 0 (fsInitState () ⟨fun _ => 0⟩) := ⟨fsInitState_inv _ _, rfl, rfl, rfl⟩
  obtain ⟨os, st, hr, hst⟩ := hblank.rounds (A := noMemory) 128 (by decide)
  obtain ⟨hl, hparent⟩ := hst.lookup_pathA
  have hpath : IsPath pathA := by decide
  have hnone : ∀ i, ¬Listed st.fs i := by
    rintro i ⟨d, hd, hi⟩
    rw [hst.dirCount, Nat.lt_one_iff] at hd
    rw [hd, hst.root] at hi
    exact List.not_mem_nil hi
  have hlive : liveEntries st.fs = 0 := by
    rw [liveEntries, List.countP_eq_zero]
    intro i _
    simp [hnone i]
  refine ⟨os, st, hr, hlive, ⟨?_, ⟨0, ?_, ?_⟩, ?_, ⟨[97], by decide +kernel, by decide⟩⟩, ?_⟩
  · rw [hlive]
    decide
  · rw [hst.tree.fsFindParentDir_eq hpath, hparent]
    rfl
  · rw [hst.root]
    decide
  · have hresolve : resolve st.fs (components pathA) = none := by
      rw [lookup_of_ne_nil (by decide)] at hl
      exact hl
    rw [hst.tree.fsFind_eq hpath, hresolve]
    rfl
  · have hfull : createParent st.fs pathA = none := by
      rw [createParent, if_neg]
      rintro ⟨-, hlt⟩
      rw [hst.fileCount] at hlt
      exact absurd hlt (by decide)
    rw [hst.tree.fsCreate_eq hpath, hfull]

end AceOS.Drivers.Fs
