import AceOS.Drivers.Fs.Ops

/-!
# The calls keep the tree

`fsMkdir_cases`, `fsCreate_cases`, `fsDelete_cases` and `fsWrite_cases` list what one
call can do, with the tree after it.  `fs_copy` and `fs_move` are made of these calls,
so what the calls keep they keep (`fsCopy_keeps`, `fsMove_keeps`).
-/

namespace AceOS.Drivers.Fs

open Filesystem Memory

variable {σ : Type} {A : Allocator σ} {st : FsState σ} {fs : Filesystem}
  {path : List UInt8} {d i : Nat}

/-! ### New entries -/

/-- The name and the place of a new entry. -/
structure NewEntry (fs : Filesystem) (path : List UInt8) (d : Nat) : Prop where
  free : lookup fs path = none
  parent : parentOf fs (components path) = some d
  lt : d < fs.dirCount
  live : (fs.directories d).name ≠ []
  name : IsName (lastName (components path))
  unique : ∀ j ∈ (fs.directories d).files, (fs.files j).name = lastName (components path) →
    lastName (components path) = []
  empty : lastName (components path) = [] → d = 0

theorem FsTree.newEntry (h : FsTree fs) (hl : lookup fs path = none)
    (hd : parentOf fs (components path) = some d) : NewEntry fs path d where
  free := hl
  parent := hd
  lt := h.parentOf_lt hd
  live := h.parentOf_live (isParts_components path) hd
  name := (isParts_components path).isName_lastName
  unique := by
    intro j hj hjname
    rw [(isParts_components path).lastName_eq_nil]
    by_contra hne
    rw [lookup_of_ne_nil hne, resolve, hd, Option.bind_some] at hl
    exact List.find?_eq_none.mp hl j hj (decide_eq_true hjname)
  empty := by
    intro hnil
    rw [(isParts_components path).lastName_eq_nil] at hnil
    rw [hnil, parentOf, List.dropLast_nil, walk, Option.some.injEq] at hd
    exact hd.symm

theorem FsTree.addDir_of_mkdirParent (h : FsTree fs) (hd : mkdirParent fs path = some d)
    (hfc : fs.fileCount < fsMaxFiles) :
    NewEntry fs path d ∧ FsTree (fs.addDir d (dirEntry fs path d)) := by
  obtain ⟨hl, hdc, hparent, hlen⟩ := mkdirParent_eq_some.mp hd
  have hnew := h.newEntry hl hparent
  exact ⟨hnew, h.addDir hnew.lt hnew.live hfc hdc hlen rfl rfl hnew.name hnew.unique hnew.empty⟩

theorem FsTree.addFile_of_createParent (h : FsTree fs) (hd : createParent fs path = some d)
    (size ptr : Nat) :
    NewEntry fs path d ∧ FsTree (fs.addEntry d (fileEntry fs path d size ptr)) := by
  obtain ⟨hl, hfc, hparent, hlen⟩ := createParent_eq_some.mp hd
  have hnew := h.newEntry hl hparent
  exact ⟨hnew, h.addFile hnew.lt hnew.live hfc hlen rfl rfl hnew.name hnew.unique hnew.empty⟩

/-- `fs_mkdir` is refused, or makes a directory. -/
theorem FsTree.fsMkdir_cases (h : FsTree fs) (hp : IsPath path)
    (hfc : mkdirParent fs path ≠ none → fs.fileCount < fsMaxFiles) :
    (mkdirParent fs path = none ∧ fsMkdir path fs = some (-1, fs)) ∨
      ∃ d, mkdirParent fs path = some d ∧ NewEntry fs path d ∧ fs.fileCount < fsMaxFiles ∧
        FsTree (fs.addDir d (dirEntry fs path d)) ∧
        fsMkdir path fs = some (0, fs.addDir d (dirEntry fs path d)) := by
  have heq := h.fsMkdir_eq hp
  cases hd : mkdirParent fs path with
  | none =>
      rw [hd] at heq
      exact Or.inl ⟨rfl, heq⟩
  | some d =>
      have hlt := hfc (by simp [hd])
      obtain ⟨hnew, htree⟩ := h.addDir_of_mkdirParent hd hlt
      rw [hd] at heq
      dsimp only at heq
      rw [if_pos hlt] at heq
      exact Or.inr ⟨d, rfl, hnew, hlt, htree, heq⟩

/-- `fs_create` is refused, or lacks memory, or makes a file. -/
theorem FsTree.fsCreate_cases (h : FsTree st.fs) (hp : IsPath path) (size : Nat) :
    (createParent st.fs path = none ∧ fsCreate A path size st = some (-1, st)) ∨
    (∃ d, createParent st.fs path = some d ∧ 0 < size ∧ (st.malloc A size).1 = 0 ∧
      fsCreate A path size st = some (-1, (st.malloc A size).2)) ∨
    (∃ d, createParent st.fs path = some d ∧ NewEntry st.fs path d ∧ 0 < size ∧
      (st.malloc A size).1 ≠ 0 ∧
      FsTree (st.fs.addEntry d (fileEntry st.fs path d size (st.malloc A size).1)) ∧
      fsCreate A path size st = some (0, { (st.malloc A size).2 with
        fs := st.fs.addEntry d (fileEntry st.fs path d size (st.malloc A size).1) })) ∨
    ∃ d, createParent st.fs path = some d ∧ NewEntry st.fs path d ∧ size = 0 ∧
      FsTree (st.fs.addEntry d (fileEntry st.fs path d 0 0)) ∧
      fsCreate A path size st = some (0, { st with
        fs := st.fs.addEntry d (fileEntry st.fs path d 0 0) }) := by
  have heq := h.fsCreate_eq (A := A) hp size
  cases hd : createParent st.fs path with
  | none =>
      rw [hd] at heq
      exact Or.inl ⟨rfl, heq⟩
  | some d =>
      rw [hd] at heq
      dsimp only at heq
      right
      by_cases hsize : 0 < size
      · rw [if_pos hsize] at heq
        obtain ⟨hnew, htree⟩ := h.addFile_of_createParent hd size (st.malloc A size).1
        by_cases hptr : (st.malloc A size).1 = 0
        · rw [if_pos ⟨hsize, hptr⟩] at heq
          exact Or.inl ⟨d, rfl, hsize, hptr, heq⟩
        · rw [if_neg fun h => hptr h.2] at heq
          exact Or.inr (Or.inl ⟨d, rfl, hnew, hsize, hptr, htree, heq⟩)
      · obtain rfl : size = 0 := Nat.eq_zero_of_not_pos hsize
        obtain ⟨hnew, htree⟩ := h.addFile_of_createParent hd 0 0
        rw [if_neg hsize, if_neg fun h => hsize h.1] at heq
        exact Or.inr (Or.inr ⟨d, rfl, hnew, rfl, htree, heq⟩)

/-! ### Deletion -/

/-- The slot `fs_delete` finds for a directory entry, when it may go. -/
theorem FsTree.removeDir_of_slotOf (h : FsTree fs) (hl : lookup fs path = some i) {k : Nat}
    (hk : slotOf fs (fs.files i).name (fs.files i).parentDir = some k)
    (hempty : (fs.directories k).files = []) :
    FsTree (fs.removeDir k i (fs.files i).parentDir) := by
  obtain ⟨hi, hd, -, -, -⟩ := h.lookup_some hl
  obtain ⟨hk, hkname, hkparent⟩ := slotOf_some hk
  by_cases hne : (fs.files i).name = []
  · rw [Filesystem.removeDir, clearSlot_eq_self (hkname.trans hne)]
    exact h.removeEntry hd hi (Or.inr hne)
  · exact h.removeDir hd hi hne hk hkname hkparent hempty

/-- `fs_delete` is refused, or takes a file or a directory away. -/
theorem FsTree.fsDelete_cases (h : FsTree st.fs) (hp : IsPath path) :
    (fsDelete A path st = some (-1, st) ∧ ∀ i, lookup st.fs path = some i →
      (st.fs.files i).type = .directory ∧ ∀ k, slotOf st.fs (st.fs.files i).name
        (st.fs.files i).parentDir = some k → (st.fs.directories k).files ≠ []) ∨
    (∃ i, lookup st.fs path = some i ∧ (st.fs.files i).type = .file ∧
      FsTree (st.fs.removeEntry i (st.fs.files i).parentDir) ∧
      fsDelete A path st = some (0, { st.release A (st.fs.files i).dataPointer with
        fs := st.fs.removeEntry i (st.fs.files i).parentDir })) ∨
    ∃ i k, lookup st.fs path = some i ∧ (st.fs.files i).type = .directory ∧
      slotOf st.fs (st.fs.files i).name (st.fs.files i).parentDir = some k ∧
      (st.fs.directories k).files = [] ∧
      FsTree (st.fs.removeDir k i (st.fs.files i).parentDir) ∧
      fsDelete A path st = some (0, { st with
        fs := st.fs.removeDir k i (st.fs.files i).parentDir }) := by
  have heq := h.fsDelete_eq (A := A) hp
  cases hl : lookup st.fs path with
  | none =>
      rw [hl] at heq
      refine Or.inl ⟨heq, ?_⟩
      intro i hi
      exact absurd hi (by simp)
  | some i =>
      obtain ⟨hi, hd, -, -, -⟩ := h.lookup_some hl
      rw [hl] at heq
      dsimp only at heq
      by_cases htype : (st.fs.files i).type = .directory
      · rw [if_pos htype] at heq
        cases hk : slotOf st.fs (st.fs.files i).name (st.fs.files i).parentDir with
        | none =>
            rw [hk] at heq
            refine Or.inl ⟨heq, ?_⟩
            intro j hj
            rw [Option.some.injEq] at hj
            subst hj
            refine ⟨htype, ?_⟩
            intro k hk'
            rw [hk] at hk'
            exact absurd hk' (by simp)
        | some k =>
            rw [hk] at heq
            dsimp only at heq
            by_cases hnil : (st.fs.directories k).files = []
            · rw [if_pos hnil] at heq
              exact Or.inr (Or.inr ⟨i, k, rfl, htype, hk, hnil,
                h.removeDir_of_slotOf hl hk hnil, heq⟩)
            · rw [if_neg hnil] at heq
              refine Or.inl ⟨heq, ?_⟩
              intro j hj
              rw [Option.some.injEq] at hj
              subst hj
              refine ⟨htype, ?_⟩
              intro k' hk'
              rw [hk, Option.some.injEq] at hk'
              exact hk' ▸ hnil
      · have hfile : (st.fs.files i).type = .file := by
          cases htype' : (st.fs.files i).type with
          | file => rfl
          | directory => exact absurd htype' htype
        rw [if_neg htype] at heq
        exact Or.inr (Or.inl ⟨i, rfl, hfile, h.removeEntry hd hi (Or.inl hfile), heq⟩)

/-! ### Contents -/

theorem FsState.writeData_fs (i : Nat) (data : List UInt8) :
    ∃ ptr size, (st.writeData A i data).2.fs = st.fs.setData i ptr size := by
  rcases st.writeData_cases A i data with ⟨-, -, he⟩ | ⟨-, he⟩ | ⟨-, he⟩
  · rw [he]
    exact ⟨_, _, setData_self.symm⟩
  · rw [he]
    exact ⟨_, _, FsState.dropData_fs⟩
  · rw [he]
    exact ⟨_, _, rfl⟩

/-- `fs_write` is refused, or sets the data of a file. -/
theorem FsTree.fsWrite_cases (h : FsTree st.fs) (hp : IsPath path) (data : List UInt8) :
    (fsWrite A path data st = some (-1, st) ∧
      ∀ i, lookup st.fs path = some i → (st.fs.files i).type ≠ .file) ∨
    ∃ i, lookup st.fs path = some i ∧ (st.fs.files i).type = .file ∧
      fsWrite A path data st = some (st.writeData A i data) := by
  have heq := h.fsWrite_eq (A := A) hp data
  cases hl : lookup st.fs path with
  | none =>
      rw [hl] at heq
      refine Or.inl ⟨heq, ?_⟩
      intro i hi
      exact absurd hi (by simp)
  | some i =>
      rw [hl] at heq
      dsimp only at heq
      by_cases htype : (st.fs.files i).type = .file
      · rw [if_pos htype] at heq
        exact Or.inr ⟨i, rfl, htype, heq⟩
      · rw [if_neg htype] at heq
        refine Or.inl ⟨heq, ?_⟩
        intro j hj
        rw [Option.some.injEq] at hj
        exact hj ▸ htype

/-! ### Copies and moves -/

theorem FsTree.fsCopy_source (h : FsTree st.fs) {srcPath : List UInt8} (hs : IsPath srcPath)
    (destPath : List UInt8) : fsCopy A srcPath destPath st = match lookup st.fs srcPath with
      | none => some (-1, st)
      | some s =>
          if (st.fs.files s).type = .file then
            (fsFind st.fs destPath).bind fun existing =>
              if 0 ≤ existing then some (-1, st)
              else (fsCreate A destPath (st.fs.files s).size st).bind fun r =>
                if r.1 ≠ 0 then some (-1, r.2) else fsCopyData A s destPath r.2
          else some (-1, st) := by
  have hinit := h.not_initialized
  rw [fsCopy, hinit, if_neg Bool.false_ne_true]
  cases hl : lookup st.fs srcPath with
  | none =>
      obtain ⟨code, hcode, hfind⟩ := h.fsFind_of_none hs hl
      rw [hfind, Option.bind_eq_bind, Option.bind_some, if_pos hcode]
  | some s =>
      obtain ⟨-, -, hlt, -, -⟩ := h.lookup_some hl
      rw [h.fsFind_of_some hs hl]
      simp only [Option.bind_eq_bind, Option.bind_some]
      rw [if_neg (Int.not_lt.mpr (Int.natCast_nonneg s)), Int.toNat_natCast, h.getFile_eq hlt,
        Option.bind_some]
      by_cases htype : (st.fs.files s).type = .file
      · rw [if_neg (not_not.mpr htype), if_pos htype]
      · rw [if_pos htype, if_neg htype]

theorem FsTree.fsCopy_eq (h : FsTree st.fs) {srcPath destPath : List UInt8} (hs : IsPath srcPath)
    (hd : IsPath destPath) : fsCopy A srcPath destPath st = match lookup st.fs srcPath with
      | none => some (-1, st)
      | some s =>
          if (st.fs.files s).type = .file then
            (fsCreate A destPath (st.fs.files s).size st).bind fun r =>
              if r.1 ≠ 0 then some (-1, r.2) else fsCopyData A s destPath r.2
          else some (-1, st) := by
  rw [h.fsCopy_source hs destPath]
  cases lookup st.fs srcPath with
  | none => rfl
  | some s =>
      dsimp only
      cases hl : lookup st.fs destPath with
      | none =>
          obtain ⟨code, hcode, hfind⟩ := h.fsFind_of_none hd hl
          rw [hfind, Option.bind_some, if_neg (Int.not_le.mpr hcode)]
      | some i =>
          -- `fs_create` would refuse too
          have hm : createParent st.fs destPath = none := by
            refine Option.eq_none_iff_forall_ne_some.mpr ?_
            intro c hc
            rw [createParent_eq_some, hl] at hc
            exact absurd hc.1 (by simp)
          rw [h.fsFind_of_some hd hl, Option.bind_some, if_pos (Int.natCast_nonneg i),
            h.fsCreate_eq hd, hm]
          rfl

section Keeps

variable {I : FsState σ → Prop} {srcPath destPath : List UInt8}
  (htree : ∀ st, I st → FsTree st.fs)
  (hheap : ∀ st heap mem, I st → I { st with heap := heap, mem := mem })
  (hdelete : ∀ path, IsPath path → ∀ st, I st →
    ∃ r st', fsDelete A path st = some (r, st') ∧ I st')
  (hwrite : ∀ path data i, IsPath path → ∀ st, I st → data.length = (st.fs.files i).size →
    ∃ r st', fsWrite A path data st = some (r, st') ∧ I st')
  (hcreate : ∀ i st, I st →
    ∃ r st', fsCreate A destPath (st.fs.files i).size st = some (r, st') ∧ I st')

include hheap hdelete hwrite in
theorem fsCopyData_keeps (hd : IsPath destPath) {s : Nat} (hs : s < fsMaxFiles) (hI : I st) :
    ∃ r st', fsCopyData A s destPath st = some (r, st') ∧ I st' := by
  rw [fsCopyData, getFile, if_pos hs]
  simp only [Option.bind_eq_bind, Option.bind_some]
  split
  · have hI₁ : I (st.malloc A (st.fs.files s).size).2 := hheap st _ _ hI
    split
    · obtain ⟨r, st₂, he, hI₂⟩ := hdelete destPath hd _ hI₁
      exact ⟨-1, st₂, by rw [he]; rfl, hI₂⟩
    · generalize storeBytes (st.malloc A (st.fs.files s).size).2.mem _ _ = mem
      obtain ⟨r, st₂, he, hI₂⟩ := hwrite destPath
        (loadBytes mem (st.malloc A (st.fs.files s).size).1 (st.fs.files s).size) s hd
        { (st.malloc A (st.fs.files s).size).2 with mem := mem } (hheap _ _ _ hI₁)
        (loadBytes_length ..)
      rw [he]
      have hI₃ : I (st₂.free A (st.malloc A (st.fs.files s).size).1) := hheap st₂ _ _ hI₂
      rw [Option.bind_some]
      dsimp only
      split
      · obtain ⟨r', st₄, he', hI₄⟩ := hdelete destPath hd _ hI₃
        exact ⟨-1, st₄, by rw [he']; rfl, hI₄⟩
      · exact ⟨0, _, rfl, hI₃⟩
  · exact ⟨0, st, rfl, hI⟩

include htree hheap hdelete hwrite hcreate

/-- **What the calls keep, a copy keeps.** -/
theorem fsCopy_keeps (hs : IsPath srcPath) (hd : IsPath destPath) (hI : I st) :
    ∃ r st', fsCopy A srcPath destPath st = some (r, st') ∧ I st' := by
  have h := htree st hI
  rw [h.fsCopy_eq hs hd]
  cases hl : lookup st.fs srcPath with
  | none => exact ⟨-1, st, rfl, hI⟩
  | some s =>
      have hlt : s < fsMaxFiles := Nat.lt_of_lt_of_le (h.lookup_some hl).2.2.1 h.fileCount_le
      dsimp only
      split
      · obtain ⟨r, st₁, he, hI₁⟩ := hcreate s st hI
        rw [he, Option.bind_some]
        dsimp only
        split
        · exact ⟨-1, st₁, rfl, hI₁⟩
        · exact fsCopyData_keeps hheap hdelete hwrite hd hlt hI₁
      · exact ⟨-1, st, rfl, hI⟩

/-- **What the calls keep, a move keeps.** -/
theorem fsMove_keeps (hs : IsPath srcPath) (hd : IsPath destPath) (hI : I st) :
    ∃ r st', fsMove A srcPath destPath st = some (r, st') ∧ I st' := by
  have hinit : (!st.fs.initialized) = false := by
    rw [(htree st hI).initialized]
    rfl
  obtain ⟨r, st₁, he, hI₁⟩ := fsCopy_keeps htree hheap hdelete hwrite hcreate hs hd hI
  rw [fsMove, hinit, if_neg Bool.false_ne_true, he]
  simp only [Option.bind_eq_bind, Option.bind_some]
  split
  · exact ⟨-1, st₁, rfl, hI₁⟩
  · obtain ⟨r', st₂, he', hI₂⟩ := hdelete srcPath hs st₁ hI₁
    rw [he', Option.bind_some]
    dsimp only
    split
    · obtain ⟨r'', st₃, he'', hI₃⟩ := hdelete destPath hd st₂ hI₂
      exact ⟨-1, st₃, by rw [he'']; rfl, hI₃⟩
    · exact ⟨0, st₂, rfl, hI₂⟩

end Keeps

end AceOS.Drivers.Fs
