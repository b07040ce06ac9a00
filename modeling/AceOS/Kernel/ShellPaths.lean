import AceOS.Kernel.Shell
import AceOS.Drivers.Fs.Run

/-!
# Relative paths in the shell

A relative path `p` in the directory `d` should mean `d/p`.  `shell_agrees_iff` says for
which commands and directories it does.  The commands that disagree do so in one of two
small file systems, for every directory but the root.
-/

namespace AceOS.Kernel

open Memory Drivers.Fs

/-- The commands that put the current directory before the path, and the root directory.
`tree` is out even there: it goes on with a path that is not written. -/
def Resolves (c : PathCommand) (d : List UInt8) : Prop :=
  c = .touch ∨ c = .cat ∨ c = .write ∨ (components d = [] ∧ c ≠ .tree)

/-- The command does the same with `p` in `d` as with `d/p`. -/
def Agrees {σ : Type} (A : Allocator σ) (c : PathCommand) (d : List UInt8) : Prop :=
  ∀ (stack : List UInt8 → Nat → List UInt8) (st : FsState σ) (p other : List UInt8),
    st.currentDirectory = d → IsRelative d p → OtherOk other c →
      executeCommand A stack (c.line p other) st =
        executeCommand A stack (c.line (joinPath d p) other) st

section Agree

variable {σ : Type} {A : Allocator σ} {st : FsState σ} {c : PathCommand}
  {d p q other : List UInt8}

theorem agrees_fullPath (hd : IsDirText d) (hc : c = .touch ∨ c = .cat ∨ c = .write) :
    Agrees A c d := by
  intro stack st p other hst h _
  have hfull : fullPath st.currentDirectory p = fullPath st.currentDirectory (joinPath d p) := by
    rw [hst]
    exact h.fullPath_join hd
  rw [executeCommand_line, executeCommand_line]
  rcases hc with rfl | rfl | rfl
  · simp only [shellTouch, hfull]
  · simp only [shellCat, hfull]
  · simp only [shellWrite_line h.isArg, shellWrite_line (h.isArg_join hd), hfull]

theorem agrees_root (hd : IsDirText d) (hroot : components d = []) (hc : c ≠ .tree) :
    Agrees A c d := by
  intro stack st p other hst h hother
  have hp := h.isArg
  have hj := h.isArg_join hd
  have hsame := h.samePath hd hroot
  rw [executeCommand_line, executeCommand_line]
  cases c with
  | mkdir => simp only [shellMkdir, hsame.fsMkdir]
  | touch | cat | write =>
      have hagree := agrees_fullPath (A := A) hd (by simp) stack st p other hst h hother
      rwa [executeCommand_line, executeCommand_line] at hagree
  | rm => simp only [shellRm, hsame.fsDelete]
  | cpSource =>
      have hcopy : ∀ q st, fsCopy A p q st = fsCopy A (joinPath d p) q st :=
        fun _ _ => hsame.fsCopy (.refl _)
      simp only [shellCp, shellTwoPaths_line hp, shellTwoPaths_line hj, hcopy]
  | mvSource =>
      have hmove : ∀ q st, fsMove A p q st = fsMove A (joinPath d p) q st :=
        fun _ _ => hsame.fsMove (.refl _)
      simp only [shellMv, shellTwoPaths_line hp, shellTwoPaths_line hj, hmove]
  | cpTarget =>
      simp only [shellCp]
      rw [shellTwoPaths_args hother hp, shellTwoPaths_args hother hj,
        (SamePath.refl other).fsCopy hsame]
  | mvTarget =>
      simp only [shellMv]
      rw [shellTwoPaths_args hother hp, shellTwoPaths_args hother hj,
        (SamePath.refl other).fsMove hsame]
  | stat => simp only [shellStat, hsame.fsStat]
  | ls =>
      simp only [shellLs, skipSpaces_arg hp, skipSpaces_arg hj, hp.ne_nil, hj.ne_nil, if_false,
        hsame.fsListDir]
  | tree => exact absurd rfl hc

end Agree

/-! ### Where they do not -/

/-- The file system with the file `/f`. -/
@[irreducible] def fileFs : Filesystem :=
  ((fsCreate noMemory [slash, 102] 0 (fsInitState () ⟨fun _ => 0⟩)).map (·.2.fs)).getD fsInit

/-- The file system with the directories `/a` and `/a/b`. -/
@[irreducible] def nestedFs : Filesystem :=
  (do
    let (_, fs) ← fsMkdir [slash, 97] fsInit
    let (_, fs) ← fsMkdir [slash, 97, slash, 98] fs
    some fs).getD fsInit

instance (fs : Filesystem) : Decidable (FsBounds fs) :=
  decidable_of_iff (0 < fs.dirCount ∧ fs.dirCount ≤ fsMaxDirectories ∧ fs.fileCount ≤ fsMaxFiles ∧
      ∀ d < fs.dirCount, ∀ i ∈ (fs.directories d).files, i < fs.fileCount)
    ⟨fun h => ⟨h.1, h.2.1, h.2.2.1, h.2.2.2⟩,
      fun h => ⟨h.dirCount_pos, h.dirCount_le, h.fileCount_le, h.listed_lt⟩⟩

/-- Nothing below the root directory has this name. -/
def OnlyInRoot (fs : Filesystem) (name : List UInt8) : Prop :=
  ∀ d < fs.dirCount, ∀ i ∈ (fs.directories d).files,
    ∀ k ∈ slotOf fs (fs.files i).name d, entryIn fs k name = none

instance (fs : Filesystem) (name : List UInt8) : Decidable (OnlyInRoot fs name) := by
  unfold OnlyInRoot
  infer_instance

section Below

variable {fs : Filesystem} {d p name : List UInt8}

/-- A path below a directory that is not the root does not lead to such a name. -/
theorem OnlyInRoot.resolve_eq_none (h : OnlyInRoot fs name) (hb : FsBounds fs)
    {parts : List (List UInt8)} (hne : parts ≠ []) (hname : name.length ≤ 31) :
    resolve fs (parts ++ [name]) = none := by
  rw [resolve, parentOf, List.dropLast_concat, Option.bind_eq_none_iff]
  intro k hk
  obtain ⟨parts', part, rfl⟩ : ∃ ps c, parts = ps ++ [c] :=
    ⟨parts.dropLast, parts.getLast hne, (List.dropLast_append_getLast hne).symm⟩
  rw [walk_concat, Option.bind_eq_some_iff] at hk
  obtain ⟨e, he, hk⟩ := hk
  obtain ⟨i, hi, hslot⟩ := List.exists_of_findSome?_eq_some hk
  have hlast : lastName (parts' ++ [part] ++ [name]) = name := by
    rw [lastName_append]
    exact List.take_of_length_le hname
  rw [hlast]
  split at hslot
  · rename_i hc
    refine h e (walk_lt hb.dirCount_pos he) i hi k ?_
    rw [hc.2]
    exact hslot
  · cases hslot

theorem IsRelative.isPath_join (hp : IsRelative d p) (hd : IsDirText d) : IsPath (joinPath d p) :=
  ⟨(hp.isArg_join hd).noNul, Nat.lt_succ_of_le hp.join_length_le⟩

theorem OnlyInRoot.lookup_join (h : OnlyInRoot fs p) (hb : FsBounds fs)
    (hp : IsRelative d p) (hcomp : IsComponent p) (hplen : p.length ≤ 31)
    (hroot : components d ≠ []) : lookup fs (joinPath d p) = none := by
  rw [lookup, hp.join_not_root, if_neg Bool.false_ne_true, components_joinPath,
    components_of_isComponent hcomp, h.resolve_eq_none hb hroot hplen]

/-- Where no entry of the root is a directory, nothing is below it. -/
theorem parentOf_join (hcomp : IsComponent p)
    (hflat : ∀ i ∈ (fs.directories 0).files, (fs.files i).type ≠ .directory)
    (hroot : components d ≠ []) : parentOf fs (components (joinPath d p)) = none := by
  rw [components_joinPath, components_of_isComponent hcomp, parentOf, List.dropLast_concat]
  obtain ⟨part, parts, hparts⟩ := List.exists_cons_of_ne_nil hroot
  have hsub : subdir fs 0 part = none := by
    rw [subdir, List.findSome?_eq_none_iff]
    intro i hi
    rw [if_neg fun hc => hflat i hi hc.1]
  rw [hparts, walk, hsub]
  rfl

end Below

section Disagree

variable {σ : Type} {A : Allocator σ} {st : FsState σ} {c : PathCommand} {d p other : List UInt8}

theorem IsDirText.isRelative (hd : IsDirText d) {x : UInt8} (hx : x ≠ space ∧ x ≠ 0 ∧ x ≠ slash) :
    IsRelative d [x] where
  noSpace := by
    rw [List.mem_singleton]
    exact hx.1.symm
  noNul := by
    rw [List.mem_singleton]
    exact hx.2.1.symm
  ne_nil := List.cons_ne_nil x []
  relative := by
    rw [List.head?_cons, ne_eq, Option.some.injEq]
    exact hx.2.2
  join_length_le := by
    have hlen := hd.length_le
    rw [joinPath]
    split
    · simp
    · simp only [List.length_append, List.length_cons, List.length_nil]
      omega

theorem Agrees.printed (h : Agrees A c d) (stack : List UInt8 → Nat → List UInt8) (st : FsState σ)
    (p other : List UInt8) (hst : st.currentDirectory = d) (hp : IsRelative d p)
    (ho : OtherOk other c) :
    (executeCommand A stack (c.line p other) st).map Prod.fst
      = (executeCommand A stack (c.line (joinPath d p) other) st).map Prod.fst :=
  congrArg _ (h stack st p other hst hp ho)

/-! ### One file -/

theorem fsTree_fileFs : FsTree fileFs := by
  obtain ⟨r, st, he, hI⟩ := (fsInitState_inv () ⟨fun _ => 0⟩).create (A := noMemory)
    (show IsPath [slash, 102] by decide) 0
  rw [fileFs, he]
  exact hI.tree

/-- The state with `/f` and the current directory `d`. -/
def fileState (σ : Type) [Inhabited σ] (d : List UInt8) : FsState σ :=
  ⟨fileFs, d, default, ⟨fun _ => 0⟩⟩

/-- The file system once `/f` is copied to `/g`. -/
def copyFs : Filesystem := fileFs.addEntry 0 (fileEntry fileFs [103] 0 0 0)

def copyState (σ : Type) [Inhabited σ] (d : List UInt8) : FsState σ :=
  ⟨copyFs, d, default, ⟨fun _ => 0⟩⟩

theorem fileFs_eval : FsBounds fileFs ∧ OnlyInRoot fileFs [102] ∧
    (∀ i ∈ (fileFs.directories 0).files, (fileFs.files i).type ≠ .directory) ∧
    fileFs.fileCount < fsMaxFiles ∧ createParent fileFs [103] = some 0 ∧
    mkdirParent fileFs [103] = some 0 ∧ lookup fileFs [102] = some 0 ∧
    fileFs.files 0 = ⟨[102], .file, 0, 0, 0, 0⟩ ∧ lookup copyFs [102] = some 0 ∧
    copyFs.getFile 0 = some ⟨[102], .file, 0, 0, 0, 0⟩ ∧
    fsStat [102] fileFs = some (0, some ⟨[102], .file, 0, 0, 0, 0⟩) := by decide +kernel

theorem fsBounds_fileFs : FsBounds fileFs := fileFs_eval.1

theorem createParent_fileFs_g : createParent fileFs [103] = some 0 := fileFs_eval.2.2.2.2.1

theorem mkdirParent_fileFs_g : mkdirParent fileFs [103] = some 0 := fileFs_eval.2.2.2.2.2.1

theorem lookup_fileFs_f : lookup fileFs [102] = some 0 := fileFs_eval.2.2.2.2.2.2.1

theorem file_fileFs_f : fileFs.files 0 = ⟨[102], .file, 0, 0, 0, 0⟩ := fileFs_eval.2.2.2.2.2.2.2.1

theorem lookup_copyFs_f : lookup copyFs [102] = some 0 := fileFs_eval.2.2.2.2.2.2.2.2.1

theorem getFile_copyFs_f : copyFs.getFile 0 = some ⟨[102], .file, 0, 0, 0, 0⟩ :=
  fileFs_eval.2.2.2.2.2.2.2.2.2.1

theorem fsStat_fileFs_f : fsStat [102] fileFs = some (0, some ⟨[102], .file, 0, 0, 0, 0⟩) :=
  fileFs_eval.2.2.2.2.2.2.2.2.2.2

theorem file_copyFs_f : copyFs.files 0 = ⟨[102], .file, 0, 0, 0, 0⟩ := by
  have hget := getFile_copyFs_f
  rwa [Filesystem.getFile, if_pos (by decide), Option.some.injEq] at hget

section Calls

variable [Inhabited σ]

theorem fsTree_fileState (d : List UInt8) : FsTree (fileState σ d).fs := fsTree_fileFs

theorem fsCreate_fileState : fsCreate A [103] 0 (fileState σ d) = some (0, copyState σ d) :=
  (fsTree_fileState d).fsCreate_zero (by decide) createParent_fileFs_g

theorem fsTree_copyState (d : List UInt8) : FsTree (copyState σ d).fs := by
  have hinv : FsInv (fileState Unit [slash]) := ⟨fsTree_fileFs, isCwd_slash⟩
  obtain ⟨r, st, he, hI⟩ := hinv.create (A := noMemory) (show IsPath [103] by decide) 0
  rw [fsCreate_fileState, Option.some.injEq, Prod.mk.injEq] at he
  have htree := hI.tree
  rwa [← he.2] at htree

theorem fsDelete_fileState : ∃ st, fsDelete A [102] (fileState σ d) = some (0, st) := by
  have heq := (fsTree_fileState (σ := σ) d).fsDelete_eq (A := A) (show IsPath [102] by decide)
  rw [show lookup (fileState σ d).fs [102] = some 0 from lookup_fileFs_f] at heq
  simp only [show (fileState σ d).fs.files 0 = _ from file_fileFs_f] at heq
  exact ⟨_, heq⟩

theorem fsDelete_copyState : ∃ st, fsDelete A [102] (copyState σ d) = some (0, st) := by
  have heq := (fsTree_copyState (σ := σ) d).fsDelete_eq (A := A) (show IsPath [102] by decide)
  rw [show lookup (copyState σ d).fs [102] = some 0 from lookup_copyFs_f] at heq
  simp only [show (copyState σ d).fs.files 0 = _ from file_copyFs_f] at heq
  exact ⟨_, heq⟩

theorem fsCopy_fileState : fsCopy A [102] [103] (fileState σ d) = some (0, copyState σ d) := by
  rw [(fsTree_fileState d).fsCopy_eq (by decide) (by decide),
    show lookup (fileState σ d).fs [102] = some 0 from lookup_fileFs_f]
  simp only [show (fileState σ d).fs.files 0 = _ from file_fileFs_f, if_true, fsCreate_fileState,
    Option.bind_some, ne_eq, not_true_eq_false, if_false]
  rw [fsCopyData, copyState, getFile_copyFs_f]
  rfl

theorem fsMove_fileState : ∃ st, fsMove A [102] [103] (fileState σ d) = some (0, st) := by
  have hinit : (fileState σ d).fs.initialized = true := fsTree_fileFs.initialized
  obtain ⟨st, hdelete⟩ := fsDelete_copyState (A := A) (d := d)
  rw [fsMove, hinit, fsCopy_fileState]
  simp only [Bool.not_true, Bool.false_eq_true, if_false, Option.bind_eq_bind, Option.bind_some,
    ne_eq, not_true_eq_false, hdelete]
  exact ⟨_, rfl⟩

theorem fsMkdir_fileFs : ∃ fs, fsMkdir [103] fileFs = some (0, fs) := by
  have heq := fsTree_fileFs.fsMkdir_eq (show IsPath [103] by decide)
  rw [mkdirParent_fileFs_g] at heq
  simp only at heq
  rw [if_pos fileFs_eval.2.2.2.1] at heq
  exact ⟨_, heq⟩

/-! The same calls with the absolute path. -/

variable (hd : IsDirText d) (hroot : components d ≠ [])

include hd hroot

omit [Inhabited σ] hd in
theorem parentOf_fileFs_join : parentOf fileFs (components (joinPath d [103])) = none :=
  parentOf_join ⟨by decide, by decide⟩ fileFs_eval.2.2.1 hroot

omit [Inhabited σ] in
theorem lookup_fileFs_join : lookup fileFs (joinPath d [102]) = none := by
  exact fileFs_eval.2.1.lookup_join fsBounds_fileFs (hd.isRelative (by decide))
    ⟨by decide, by decide⟩
    (by decide) hroot

omit [Inhabited σ] in
theorem fsMkdir_fileFs_join : fsMkdir (joinPath d [103]) fileFs = some (-1, fileFs) := by
  have hp : IsRelative d [103] := hd.isRelative (by decide)
  rw [fsTree_fileFs.fsMkdir_eq (hp.isPath_join hd), mkdirParent, parentOf_fileFs_join hroot]
  split
  · rfl
  · rename_i k hk
    split at hk
    · cases hk
    · cases hk

theorem fsDelete_fileState_join :
    fsDelete A (joinPath d [102]) (fileState σ d) = some (-1, fileState σ d) := by
  have hp : IsRelative d [102] := hd.isRelative (by decide)
  rw [(fsTree_fileState d).fsDelete_eq (hp.isPath_join hd),
    show lookup (fileState σ d).fs (joinPath d [102]) = none from lookup_fileFs_join hd hroot]

theorem fsCopy_fileState_source :
    fsCopy A (joinPath d [102]) [103] (fileState σ d) = some (-1, fileState σ d) := by
  have hp : IsRelative d [102] := hd.isRelative (by decide)
  rw [(fsTree_fileState d).fsCopy_eq (hp.isPath_join hd) (by decide),
    show lookup (fileState σ d).fs (joinPath d [102]) = none from lookup_fileFs_join hd hroot]

theorem fsCopy_fileState_target :
    fsCopy A [102] (joinPath d [103]) (fileState σ d) = some (-1, fileState σ d) := by
  have hp : IsRelative d [103] := hd.isRelative (by decide)
  have hnone : createParent (fileState σ d).fs (joinPath d [103]) = none := by
    rw [createParent, show parentOf (fileState σ d).fs _ = none from parentOf_fileFs_join hroot]
    split
    · rfl
    · rfl
  rw [(fsTree_fileState d).fsCopy_eq (by decide) (hp.isPath_join hd),
    show lookup (fileState σ d).fs [102] = some 0 from lookup_fileFs_f]
  simp only [show (fileState σ d).fs.files 0 = _ from file_fileFs_f, if_true,
    (fsTree_fileState d).fsCreate_eq (hp.isPath_join hd), hnone]
  rfl

omit [Inhabited σ] in
theorem fsStat_fileFs_join : fsStat (joinPath d [102]) fileFs = some (-1, none) := by
  have hp : IsRelative d [102] := hd.isRelative (by decide)
  obtain ⟨code, hcode, hfind⟩ :=
    fsTree_fileFs.fsFind_of_none (hp.isPath_join hd) (lookup_fileFs_join hd hroot)
  rw [fsStat, fsTree_fileFs.initialized, hp.join_not_root, hfind]
  simp only [Bool.not_true, Bool.false_eq_true, if_false, Option.bind_eq_bind, Option.bind_some,
    if_pos hcode]

end Calls

/-! ### Two directories -/

/-- A stack that holds `"/"` in the first call if its path is absolute, and `"x"` otherwise. -/
def treeStack (path : List UInt8) (depth : Nat) : List UInt8 :=
  if depth = 0 ∧ path.head? = some slash then [slash] else [120]

def nestedState (σ : Type) [Inhabited σ] (d : List UInt8) : FsState σ :=
  ⟨nestedFs, d, default, ⟨fun _ => 0⟩⟩

/-- The listing of `/a` is `"b (DIR) size: 0 bytes\n"`; in the second tree the root directory is
printed again below `b`. -/
theorem nestedFs_eval : FsBounds nestedFs ∧ OnlyInRoot nestedFs [97] ∧ nestedFs.initialized = true ∧
    fsListDir [97] 1024 nestedFs = some (22, [98, 32, 40, 68, 73, 82, 41, 32, 115, 105, 122,
      101, 58, 32, 48, 32, 98, 121, 116, 101, 115, 10]) ∧
    fsTree treeStack [97] 2048 nestedFs = some [47, 10, 32, 32, 98, 47, 10] ∧
    fsTree treeStack [slash, 97] 2048 nestedFs
      = some [47, 10, 32, 32, 98, 47, 10, 32, 32, 32, 32, 32, 32, 97, 47, 10] := by decide +kernel

section Nested

variable (hd : IsDirText d)

include hd

theorem fsFind_nestedFs_join (hroot : components d ≠ []) :
    fsFind nestedFs (joinPath d [97]) = some (-1) := by
  have hp : IsRelative d [97] := hd.isRelative (by decide)
  obtain ⟨hbounds, honly, -⟩ := nestedFs_eval
  have hnone := honly.lookup_join hbounds hp ⟨by decide, by decide⟩ (by decide) hroot
  rw [lookup, hp.join_not_root, if_neg Bool.false_ne_true] at hnone
  rw [hbounds.fsFind_eq (hp.isPath_join hd), hp.join_not_root, hnone]
  rfl

theorem fsListDir_nestedFs_join (hroot : components d ≠ []) :
    fsListDir (joinPath d [97]) 1024 nestedFs = some (-1, []) := by
  have hp : IsRelative d [97] := hd.isRelative (by decide)
  obtain ⟨-, -, hinit, -⟩ := nestedFs_eval
  rw [fsListDir, hinit, fsListSlot, hp.join_not_root, fsFind_nestedFs_join hd hroot]
  rfl

theorem fsTree_nestedFs_join (hroot : components d ≠ []) :
    fsTree treeStack (joinPath d [97]) 2048 nestedFs = some [] := by
  have hp : IsRelative d [97] := hd.isRelative (by decide)
  obtain ⟨-, -, hinit, -⟩ := nestedFs_eval
  rw [fsTree, fsTreeFrom, hinit, fsTreeSlot, hp.join_not_root, fsFind_nestedFs_join hd hroot]
  rfl

/-- Below the root directory the path on the stack makes the difference. -/
theorem fsTree_nestedFs_root (hroot : components d = []) :
    fsTree treeStack (joinPath d [97]) 2048 nestedFs
      = fsTree treeStack [slash, 97] 2048 nestedFs := by
  have hp : IsRelative d [97] := hd.isRelative (by decide)
  have hslash : IsDirText [slash] := ⟨⟨by decide, by decide⟩, rfl, by decide⟩
  have hsame : SamePath [97] [slash, 97] := (hslash.isRelative (by decide)).samePath hslash rfl
  refine ((hp.samePath hd hroot).symm.trans hsame).fsTree ?_ 2048
  rw [treeStack, if_pos ⟨rfl, joinPath_head? hd.absolute⟩]
  rfl

end Nested

/-! ### The commands -/

section Commands

variable [Inhabited σ] (hd : IsDirText d) (hroot : components d ≠ [])

include hd hroot

theorem not_agrees_mkdir : ¬Agrees A .mkdir d := by
  intro h
  obtain ⟨fs, hdone⟩ := fsMkdir_fileFs
  have he :=
    h.printed (fun _ _ => []) (fileState σ d) [103] [] rfl (hd.isRelative (by decide)) trivial
  rw [executeCommand_line, executeCommand_line] at he
  simp only [shellMkdir] at he
  rw [show (fileState σ d).fs = fileFs from rfl, hdone, fsMkdir_fileFs_join hd hroot] at he
  exact absurd he (by simp)

theorem not_agrees_stat : ¬Agrees A .stat d := by
  intro h
  have he :=
    h.printed (fun _ _ => []) (fileState σ d) [102] [] rfl (hd.isRelative (by decide)) trivial
  rw [executeCommand_line, executeCommand_line] at he
  simp only [shellStat] at he
  rw [show (fileState σ d).fs = fileFs from rfl, fsStat_fileFs_f, fsStat_fileFs_join hd hroot] at he
  exact absurd he (by simp)

theorem not_agrees_rm : ¬Agrees A .rm d := by
  intro h
  obtain ⟨st, hdone⟩ := fsDelete_fileState (A := A) (d := d)
  have he :=
    h.printed (fun _ _ => []) (fileState σ d) [102] [] rfl (hd.isRelative (by decide)) trivial
  rw [executeCommand_line, executeCommand_line] at he
  simp only [shellRm] at he
  rw [hdone, fsDelete_fileState_join hd hroot] at he
  exact absurd he (by simp)

omit [Inhabited σ] hd hroot in
/-- Two calls with different results are told apart by what is printed. -/
theorem shellTwoPaths_ne {call : List UInt8 → List UInt8 → FsState σ → Option (Int × FsState σ)}
    {done failed usage : String} {a b a' b' : List UInt8} {st₁ st₂ : FsState σ} (ha : IsArg a)
    (hb : IsArg b) (ha' : IsArg a') (hb' : IsArg b') (h₁ : call a b st = some (0, st₁))
    (h₂ : call a' b' st = some (-1, st₂)) (hne : done ≠ failed) :
    shellTwoPaths call done failed usage (a ++ space :: b) st
      ≠ shellTwoPaths call done failed usage (a' ++ space :: b') st := by
  rw [shellTwoPaths_args ha hb, shellTwoPaths_args ha' hb', h₁, h₂]
  simp [hne]

/-- A copy or a move of the file, with either path under `d`. -/
theorem not_agrees_twoPaths : ¬Agrees A .cpSource d ∧ ¬Agrees A .cpTarget d ∧
    ¬Agrees A .mvSource d ∧ ¬Agrees A .mvTarget d := by
  have hf : IsRelative d [102] := hd.isRelative (by decide)
  have hg : IsRelative d [103] := hd.isRelative (by decide)
  have hinit : (fileState σ d).fs.initialized = true := fsTree_fileFs.initialized
  obtain ⟨st, hmove⟩ := fsMove_fileState (A := A) (d := d)
  have hmoveSource :
      fsMove A (joinPath d [102]) [103] (fileState σ d) = some (-1, fileState σ d) := by
    rw [fsMove, hinit, fsCopy_fileState_source hd hroot]
    rfl
  have hmoveTarget :
      fsMove A [102] (joinPath d [103]) (fileState σ d) = some (-1, fileState σ d) := by
    rw [fsMove, hinit, fsCopy_fileState_target hd hroot]
    rfl
  refine ⟨?_, ?_, ?_, ?_⟩
  · intro h
    have he := h (fun _ _ => []) (fileState σ d) [102] [103] rfl hf trivial
    rw [executeCommand_line, executeCommand_line] at he
    exact shellTwoPaths_ne hf.isArg hg.isArg (hf.isArg_join hd) hg.isArg fsCopy_fileState
      (fsCopy_fileState_source hd hroot) (by decide) he
  · intro h
    have he := h (fun _ _ => []) (fileState σ d) [103] [102] rfl hg hf.isArg
    rw [executeCommand_line, executeCommand_line] at he
    exact shellTwoPaths_ne hf.isArg hg.isArg hf.isArg (hg.isArg_join hd) fsCopy_fileState
      (fsCopy_fileState_target hd hroot) (by decide) he
  · intro h
    have he := h (fun _ _ => []) (fileState σ d) [102] [103] rfl hf trivial
    rw [executeCommand_line, executeCommand_line] at he
    exact shellTwoPaths_ne hf.isArg hg.isArg (hf.isArg_join hd) hg.isArg hmove hmoveSource
      (by decide) he
  · intro h
    have he := h (fun _ _ => []) (fileState σ d) [103] [102] rfl hg hf.isArg
    rw [executeCommand_line, executeCommand_line] at he
    exact shellTwoPaths_ne hf.isArg hg.isArg hf.isArg (hg.isArg_join hd) hmove hmoveTarget
      (by decide) he

theorem not_agrees_ls : ¬Agrees A .ls d := by
  intro h
  have hp : IsRelative d [97] := hd.isRelative (by decide)
  have hj := hp.isArg_join hd
  have he := h.printed (fun _ _ => []) (nestedState σ d) [97] [] rfl hp trivial
  rw [executeCommand_line, executeCommand_line] at he
  simp only [shellLs, skipSpaces_arg hp.isArg, skipSpaces_arg hj, hp.ne_nil, hj.ne_nil,
    if_false] at he
  obtain ⟨-, -, -, hlist, -⟩ := nestedFs_eval
  rw [show (nestedState σ d).fs = nestedFs from rfl, hlist, fsListDir_nestedFs_join hd hroot] at he
  exact absurd he (by simp)

omit hroot in
/-- With an unfortunate stack `tree` disagrees in every directory. -/
theorem not_agrees_tree : ¬Agrees A .tree d := by
  intro h
  have hp : IsRelative d [97] := hd.isRelative (by decide)
  have hj := hp.isArg_join hd
  have he := h.printed treeStack (nestedState σ d) [97] [] rfl hp trivial
  rw [executeCommand_line, executeCommand_line] at he
  simp only [shellTree, hp.ne_nil, hj.ne_nil, if_false] at he
  obtain ⟨-, -, -, -, htree, hslash⟩ := nestedFs_eval
  rw [show (nestedState σ d).fs = nestedFs from rfl, htree] at he
  by_cases hroot : components d = []
  · rw [fsTree_nestedFs_root hd hroot, hslash] at he
    exact absurd he (by simp)
  · rw [fsTree_nestedFs_join hd hroot] at he
    exact absurd he (by simp)

end Commands

/-- **A command agrees in a directory** if and only if it puts the current directory before
the path, or the directory is the root and the command is not `tree`. -/
theorem shell_agrees_iff [Inhabited σ] (A : Allocator σ) (c : PathCommand) (d : List UInt8)
    (hd : IsDirText d) : Agrees A c d ↔ Resolves c d := by
  constructor
  · intro h
    -- what is not `touch`, `cat`, `write` or `tree` needs the root
    have hneed : ¬(c = .touch ∨ c = .cat ∨ c = .write ∨ c = .tree) → components d = [] := by
      intro hc
      by_contra hroot
      obtain ⟨h₁, h₂, h₃, h₄⟩ := not_agrees_twoPaths (A := A) hd hroot
      cases c with
      | mkdir => exact not_agrees_mkdir hd hroot h
      | rm => exact not_agrees_rm hd hroot h
      | cpSource => exact h₁ h
      | cpTarget => exact h₂ h
      | mvSource => exact h₃ h
      | mvTarget => exact h₄ h
      | stat => exact not_agrees_stat hd hroot h
      | ls => exact not_agrees_ls hd hroot h
      | touch | cat | write | tree => exact hc (by simp)
    cases c with
    | touch => exact Or.inl rfl
    | cat => exact Or.inr (Or.inl rfl)
    | write => exact Or.inr (Or.inr (Or.inl rfl))
    | tree => exact absurd h (not_agrees_tree hd)
    | mkdir | rm | cpSource | cpTarget | mvSource | mvTarget | stat | ls =>
        exact Or.inr (Or.inr (Or.inr ⟨hneed (by simp), by simp⟩))
  · intro h
    rcases h with rfl | rfl | rfl | ⟨hroot, hc⟩
    · exact agrees_fullPath hd (by simp)
    · exact agrees_fullPath hd (by simp)
    · exact agrees_fullPath hd (by simp)
    · exact agrees_root hd hroot hc

theorem shell_agrees_iff_home :
    Agrees noMemory .touch [slash, 104, 111, 109, 101] ↔
      Resolves .touch [slash, 104, 111, 109, 101] :=
  shell_agrees_iff noMemory .touch _ ⟨⟨by decide, by decide⟩, rfl, by decide⟩

/-- `"/home"` and `"test.txt"`. -/
abbrev home : List UInt8 := [slash, 104, 111, 109, 101]

abbrev testTxt : List UInt8 := [116, 101, 115, 116, 46, 116, 120, 116]

/-- `mkdir /home`, `cd /home` and `touch test.txt`. -/
def homeState : Option (FsState Unit) := do
  let (_, st) ← executeCommand noMemory (fun _ _ => []) (PathCommand.mkdir.line home [])
    (fsInitState () ⟨fun _ => 0⟩)
  let (_, st) ← fsChangeDir home st
  let (_, st) ← executeCommand noMemory (fun _ _ => []) (PathCommand.touch.line testTxt []) st
  some st

/-- The first line `stat` prints. -/
def statPrints (path : List UInt8) (st : FsState Unit) : Option (Option Printed) :=
  (executeCommand noMemory (fun _ _ => []) (PathCommand.stat.line path []) st).map (·.1.head?)

/-- What `touch test.txt` creates in `/home`, `stat test.txt` does not find. -/
theorem shell_stat_home :
    homeState.map (fun st =>
        (st.currentDirectory, statPrints testTxt st, statPrints (joinPath home testTxt) st)) =
      some (home, some (some (.string "Error: Could not get file information")),
        some (some (.string "File information:"))) ∧
    ¬∀ (c : PathCommand) (d : List UInt8), IsDirText d → Agrees noMemory c d := by
  have heval : homeState.map (fun st =>
        (st.currentDirectory, statPrints testTxt st, statPrints (joinPath home testTxt) st)) =
      some (home, some (some (.string "Error: Could not get file information")),
        some (some (.string "File information:"))) := by decide +kernel
  refine ⟨heval, ?_⟩
  intro h
  obtain ⟨st, -, he⟩ := Option.map_eq_some_iff.mp heval
  rw [Prod.mk.injEq, Prod.mk.injEq] at he
  have hrel : IsRelative home testTxt :=
    ⟨⟨by decide, by decide⟩, by decide, by decide, by decide⟩
  have hsame := h .stat home ⟨⟨by decide, by decide⟩, rfl, by decide⟩ (fun _ _ => []) st testTxt []
    he.1 hrel trivial
  have hprints : statPrints testTxt st = statPrints (joinPath home testTxt) st := by
    rw [statPrints, statPrints, hsame]
  rw [he.2.1, he.2.2] at hprints
  exact absurd hprints (by decide)

end Disagree

end AceOS.Kernel
