import AceOS.Drivers.Fs.Capacity
import AceOS.Drivers.Fs.CurrentDir

/-!
# New directories

`fs_mkdir` stores the last component of its path cut to 31 bytes, and `fs_find` looks it up
cut the same way.  `fs_find_parent_dir` compares components as they are.  So a directory made
under a longer name is found, but nothing can be put into it under that name: `Usable` holds
of a new directory if and only if its name fits (`fsMkdir_usable_iff`).
-/

namespace AceOS.Drivers.Fs

open Filesystem Memory

variable {σ : Type} {A : Allocator σ} {st st' : FsState σ} {fs : Filesystem}
  {path : List UInt8} {d k : Nat} {c : List UInt8} {qs : List (List UInt8)}

/-- The path of the file `x` in the directory `path`. -/
def fileIn (path : List UInt8) : List UInt8 := path ++ [slash, 120]

/-- `path` names the directory with entry `i` and slot `k`, also as the parent of a file, and
a file can be made there while an entry is free. -/
structure Usable (A : Allocator σ) (path : List UInt8) (i k : Nat) (st : FsState σ) : Prop where
  found : fsFind st.fs path = some (i : Int)
  directory : (st.fs.files i).type = .directory
  slot : EntryOfSlot st.fs i k
  parent : fsFindParentDir st.fs (fileIn path) = some (k : Int)
  create : st.fs.fileCount < fsMaxFiles →
    ∃ st', fsCreate A (fileIn path) 0 st = some (0, st')

theorem codeOf_eq_natCast {o : Option Nat} : codeOf o = (k : Int) ↔ o = some k := by
  cases o with
  | none =>
      refine iff_of_false ?_ (by simp)
      rw [codeOf]
      omega
  | some i => rw [codeOf, Int.natCast_inj, Option.some.injEq]

theorem isComponent_x : IsComponent [120] := ⟨by decide, by decide⟩

theorem components_fileIn (path : List UInt8) :
    components (fileIn path) = components path ++ [[120]] := by
  rw [fileIn, components_append, components_of_isComponent isComponent_x]

/-- The parent of `path/x` is what the whole of `path` leads to. -/
theorem parentOf_fileIn : parentOf fs (components (fileIn path)) = walk fs (components path) 0 := by
  rw [components_fileIn, parentOf, List.dropLast_concat]

section NewDir

variable (h : FsTree fs) (htree : FsTree (fs.addDir d (dirEntry fs path d)))
  (hnew : NewEntry fs path d) (hparts : components path = qs ++ [c])

include h htree hnew hparts

/-- **The new slot is reached under the name it has**, which is cut to 31 bytes. -/
theorem walk_newDir : walk (fs.addDir d (dirEntry fs path d)) (components path) 0
      = some fs.dirCount ↔ c.length ≤ fsMaxFilenameLen - 1 := by
  have hc : IsComponent c := isParts_components path c (by simp [hparts])
  have hqs : IsParts qs := by
    intro p hp
    exact isParts_components path p (by simp [hparts, hp])
  have hd : walk fs qs 0 = some d := by
    have hparent := hnew.parent
    rw [parentOf, hparts, List.dropLast_concat] at hparent
    exact hparent
  have hd' := (h.walk_addDir htree hqs h.dirCount_pos hnew.lt).mpr hd
  have hname : (dirEntry fs path d).name = c.take (fsMaxFilenameLen - 1) := by
    rw [dirEntry, hparts, lastName_append]
  rw [hparts, walk_concat, hd', Option.bind_some, htree.subdir_eq_some_iff hc, addDir_name_self,
    addDir_parentDir_self, hname, List.take_eq_self_iff]
  exact ⟨fun hsub => hsub.2.1, fun hle => ⟨Nat.lt_succ_self _, hle, rfl⟩⟩

theorem lookup_newDir :
    lookup (fs.addDir d (dirEntry fs path d)) path = some fs.fileCount := by
  have hne : components path ≠ [] := by simp [hparts]
  have hfree : resolve fs (components path) = none := by
    rw [← lookup_of_ne_nil hne]
    exact hnew.free
  rw [lookup_of_ne_nil hne, h.resolve_addDir htree hnew.lt (isParts_components path),
    if_pos ⟨hnew.parent, rfl⟩, hfree]
  rfl

end NewDir

theorem files_newDir (h : FsTree fs) (hnew : NewEntry fs path d) :
    ((fs.addDir d (dirEntry fs path d)).directories fs.dirCount).files = [] := by
  refine List.eq_nil_iff_forall_not_mem.mpr ?_
  intro i hi
  rcases mem_addDir.mp hi with hi | ⟨hdc, -⟩
  · rw [h.fresh fs.dirCount (Nat.le_refl _)] at hi
    exact List.not_mem_nil hi
  · exact Nat.ne_of_gt hnew.lt hdc

/-- **A new directory is usable** if and only if its name fits. -/
theorem FsTree.usable_iff (h : FsTree st.fs)
    (htree : FsTree (st.fs.addDir d (dirEntry st.fs path d))) (hnew : NewEntry st.fs path d)
    (hparts : components path = qs ++ [c]) (hp : IsPath (fileIn path)) :
    Usable A path st.fs.fileCount st.fs.dirCount
        { st with fs := st.fs.addDir d (dirEntry st.fs path d) } ↔
      c.length ≤ fsMaxFilenameLen - 1 := by
  have hwalk := walk_newDir h htree hnew hparts
  have hparent : fsFindParentDir (st.fs.addDir d (dirEntry st.fs path d)) (fileIn path)
      = some (st.fs.dirCount : Int) ↔ c.length ≤ fsMaxFilenameLen - 1 := by
    rw [htree.fsFindParentDir_eq hp, parentOf_fileIn, Option.some.injEq, codeOf_eq_natCast]
    exact hwalk
  constructor
  · intro huse
    exact hparent.mp huse.parent
  · intro hle
    have hpath : IsPath path := by
      refine ⟨fun hmem => hp.noNul (List.mem_append_left _ hmem), ?_⟩
      have hlen := hp.length_lt
      rw [fileIn, List.length_append] at hlen
      omega
    have hfile : (st.fs.addDir d (dirEntry st.fs path d)).files st.fs.fileCount
        = dirEntry st.fs path d := addDir_file_self
    refine ⟨htree.fsFind_of_some hpath (lookup_newDir h htree hnew hparts), ?_, ⟨?_, ?_⟩,
      hparent.mpr hle, ?_⟩
    · rw [hfile]
      rfl
    · rw [hfile, addDir_name_self]
    · rw [hfile, addDir_parentDir_self]
      rfl
    · intro hroom
      have hslot : parentOf (st.fs.addDir d (dirEntry st.fs path d)) (components (fileIn path))
          = some st.fs.dirCount := by
        rw [parentOf_fileIn]
        exact hwalk.mpr hle
      have hempty := files_newDir h hnew
      have hfree : lookup (st.fs.addDir d (dirEntry st.fs path d)) (fileIn path) = none := by
        rw [lookup_of_ne_nil (by rw [components_fileIn]; simp), resolve, hslot, Option.bind_some,
          entryIn, hempty]
        rfl
      have hcreate : createParent (st.fs.addDir d (dirEntry st.fs path d)) (fileIn path)
          = some st.fs.dirCount := by
        rw [createParent_eq_some, hempty]
        exact ⟨hfree, hroom, hslot, by decide⟩
      exact ⟨_, htree.fsCreate_zero hp hcreate⟩

/-- **A directory that `fs_mkdir` makes can be used under the name it was made with** if and
only if the last component of that name has at most 31 bytes. -/
theorem fsMkdir_usable_iff (A : Allocator σ) (heap : σ) (mem : Mem) (ops : List FsOp)
    (h0 : ∀ op ∈ ops, ∀ path ∈ op.paths, (0 : UInt8) ∉ path) (os : List Int) (st : FsState σ)
    (hrun : Machine.run (fsStep A) ops (fsInitState heap mem) = some (os, st))
    (path : List UInt8) (hp0 : (0 : UInt8) ∉ path) (hlen : path.length ≤ 253)
    (hne : components path ≠ []) (st' : FsState σ)
    (hmk : fsStep A (.mkdir path) st = some (0, st')) :
    Usable A path st.fs.fileCount st.fs.dirCount st' ↔
      ((components path).getLast hne).length ≤ fsMaxFilenameLen - 1 := by
  have hI := fsRun_text h0 (fsInitState_inv heap mem) hrun
  have hp : IsPath (fileIn path) := by
    refine ⟨?_, ?_⟩
    · rw [fileIn, List.mem_append, not_or]
      exact ⟨hp0, by decide⟩
    · rw [fileIn, List.length_append]
      exact Nat.lt_of_le_of_lt (Nat.add_le_add_right hlen 2) (by decide)
  have hpath : IsPath path := ⟨hp0, Nat.lt_of_le_of_lt hlen (by decide)⟩
  have hpaths : FsOp.HasPaths (.mkdir path) := fun q hq => List.mem_singleton.mp hq ▸ hpath
  have hfit := mkdirFits_of_step hI hpaths hmk
  rw [fsStep] at hmk
  rcases hI.tree.fsMkdir_cases hpath hfit with ⟨-, he⟩ | ⟨d, -, hnew, -, htree, he⟩
  · rw [he, Option.map_some, Option.some.injEq, Prod.mk.injEq] at hmk
    exact absurd hmk.1 (by simp)
  · rw [he, Option.map_some, Option.some.injEq, Prod.mk.injEq] at hmk
    rw [← hmk.2]
    exact hI.tree.usable_iff htree hnew (List.dropLast_append_getLast hne).symm hp

/-- Theorem `fsMkdir_usable_iff` for `fs_mkdir("/a")`. -/
theorem fsMkdir_usable_pathA : ∃ st', fsStep noMemory (.mkdir pathA) (fsInitState () ⟨fun _ => 0⟩)
      = some (0, st') ∧ Usable noMemory pathA 0 1 st' := by
  have hmk := fsInitState_mkdir (show IsPath pathA by decide) (by decide)
  exact ⟨_, hmk, (fsMkdir_usable_iff noMemory () ⟨fun _ => 0⟩ [] (by decide) [] _ rfl pathA
    (by decide) (by decide) (by decide) _ hmk).mpr (by decide)⟩

abbrev longPath : List UInt8 := slash :: List.replicate 32 97

/-- `fs_mkdir` of a name of 32 bytes succeeds, but the directory cannot be used under it. -/
theorem fsMkdir_longPath : ∃ st', fsStep noMemory (.mkdir longPath) (fsInitState () ⟨fun _ => 0⟩)
      = some (0, st') ∧ fsFindParentDir st'.fs (fileIn longPath) = some (-1) ∧
      ¬Usable noMemory longPath 0 1 st' := by
  have hmk := fsInitState_mkdir (show IsPath longPath by decide) (by decide)
  have hparent : fsFindParentDir (fsInit.addDir 0 (dirEntry fsInit longPath 0)) (fileIn longPath)
      = some (-1) := by decide +kernel
  refine ⟨_, hmk, hparent, ?_⟩
  intro huse
  have hsome := huse.parent
  rw [show fsFindParentDir _ _ = _ from hparent] at hsome
  exact absurd hsome (by decide)

end AceOS.Drivers.Fs
