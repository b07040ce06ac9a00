import AceOS.Drivers.Fs.Resolve

/-!
# What the calls do

Each call of the file system as lookups, checks and one of the updates, in a state
whose tables are a tree and for a path that fits the buffers.  `lookup` is what the
existence checks see: the spellings of the root that `fs_find` knows name nothing.
`mkdirParent` and `createParent` are the checks of the two creating calls.
-/

namespace AceOS.Drivers.Fs

open Filesystem Memory

/-! ### Checks -/

section Checks

variable (fs : Filesystem)

def lookup (path : List UInt8) : Option Nat :=
  if fsIsRoot path then none else resolve fs (components path)

/-- The directory a new directory goes into. -/
def mkdirParent (path : List UInt8) : Option Nat :=
  if lookup fs path = none ∧ fs.dirCount < fsMaxDirectories then
    (parentOf fs (components path)).filter fun d =>
      (fs.directories d).files.length < fsMaxFilesPerDir
  else none

/-- The directory a new file goes into. -/
def createParent (path : List UInt8) : Option Nat :=
  if lookup fs path = none ∧ fs.fileCount < fsMaxFiles then
    (parentOf fs (components path)).filter fun d =>
      (fs.directories d).files.length < fsMaxFilesPerDir
  else none

/-- The entry `fs_mkdir` makes. -/
def dirEntry (path : List UInt8) (d : Nat) : FsEntry :=
  { fs.files fs.fileCount with
    name := lastName (components path), type := .directory, size := 0, parentDir := d,
    creationTime := 0 }

/-- The entry `fs_create` makes. -/
def fileEntry (path : List UInt8) (d size ptr : Nat) : FsEntry :=
  { fs.files fs.fileCount with
    name := lastName (components path), type := .file, size := size, dataPointer := ptr,
    parentDir := d, creationTime := 0 }

end Checks

section Lookup

variable {fs : Filesystem} {path : List UInt8} {d i : Nat}

theorem lookup_eq_some : lookup fs path = some i ↔
    fsIsRoot path = false ∧ resolve fs (components path) = some i := by
  rw [lookup]
  split
  · rename_i h
    simp [h]
  · rename_i h
    simp [h]

theorem lookup_of_ne_nil (h : components path ≠ []) :
    lookup fs path = resolve fs (components path) := by
  rw [lookup, if_neg]
  intro hroot
  exact h (components_of_fsIsRoot hroot)

theorem mkdirParent_eq_some : mkdirParent fs path = some d ↔
    lookup fs path = none ∧ fs.dirCount < fsMaxDirectories ∧
      parentOf fs (components path) = some d ∧
      (fs.directories d).files.length < fsMaxFilesPerDir := by
  rw [mkdirParent]
  split
  · rename_i h
    rw [Option.filter_eq_some_iff, decide_eq_true_iff]
    exact ⟨fun h' => ⟨h.1, h.2, h'⟩, fun h' => h'.2.2⟩
  · rename_i h
    refine ⟨fun h' => absurd h' (by simp), fun h' => absurd ⟨h'.1, h'.2.1⟩ h⟩

theorem createParent_eq_some : createParent fs path = some d ↔
    lookup fs path = none ∧ fs.fileCount < fsMaxFiles ∧
      parentOf fs (components path) = some d ∧
      (fs.directories d).files.length < fsMaxFilesPerDir := by
  rw [createParent]
  split
  · rename_i h
    rw [Option.filter_eq_some_iff, decide_eq_true_iff]
    exact ⟨fun h' => ⟨h.1, h.2, h'⟩, fun h' => h'.2.2⟩
  · rename_i h
    refine ⟨fun h' => absurd h' (by simp), fun h' => absurd ⟨h'.1, h'.2.1⟩ h⟩

namespace FsBounds

variable (h : FsBounds fs) (hp : IsPath path)

include h hp

theorem fsFind_of_some (hl : lookup fs path = some i) : fsFind fs path = some (i : Int) := by
  obtain ⟨hroot, hr⟩ := lookup_eq_some.mp hl
  rw [h.fsFind_eq hp, hroot, hr]
  rfl

theorem fsFind_of_none (hl : lookup fs path = none) :
    ∃ code, code < 0 ∧ fsFind fs path = some code := by
  rw [h.fsFind_eq hp]
  rw [lookup] at hl
  split at hl
  · rename_i hroot
    exact ⟨-2, by decide, by rw [if_pos hroot]⟩
  · rename_i hroot
    exact ⟨-1, by decide, by rw [if_neg hroot, hl]; rfl⟩

end FsBounds

end Lookup

/-! ### Creation -/

section Eq

variable {fs : Filesystem} {path : List UInt8} {d i : Nat}

theorem FsBounds.fsAddEntry_eq (h : FsBounds fs) (hd : d < fs.dirCount)
    (hlen : (fs.directories d).files.length < fsMaxFilesPerDir) (f : FsEntry → FsEntry) :
    fsAddEntry d f fs = if fs.fileCount < fsMaxFiles
      then some (fs.addEntry d (f (fs.files fs.fileCount))) else none := by
  have hd' : d < fsMaxDirectories := Nat.lt_of_lt_of_le hd h.dirCount_le
  rw [fsAddEntry]
  simp only [getFile, getDir, setFile, setDir, Option.bind_eq_bind]
  by_cases hfc : fs.fileCount < fsMaxFiles
  · rw [if_pos hfc, if_pos hfc, Option.bind_some, if_pos hd', Option.bind_some, if_pos hlen]
    rfl
  · rw [if_neg hfc, if_neg hfc]
    rfl

/-- **What `fs_mkdir` does.** -/
theorem FsTree.fsMkdir_eq (h : FsTree fs) (hp : IsPath path) :
    fsMkdir path fs = match mkdirParent fs path with
      | none => some (-1, fs)
      | some d => if fs.fileCount < fsMaxFiles
          then some (0, fs.addDir d (dirEntry fs path d)) else none := by
  have hinit := h.not_initialized
  have hnone : (∀ d, mkdirParent fs path ≠ some d) → mkdirParent fs path = none :=
    Option.eq_none_iff_forall_ne_some.mpr
  rw [fsMkdir, hinit, if_neg Bool.false_ne_true]
  cases hl : lookup fs path with
  | some i =>
      have hm : mkdirParent fs path = none := by
        refine hnone ?_
        intro d hd
        rw [mkdirParent_eq_some, hl] at hd
        exact absurd hd.1 (by simp)
      rw [h.fsFind_of_some hp hl, hm, Option.bind_eq_bind, Option.bind_some,
        if_pos (Int.natCast_nonneg i)]
  | none =>
      obtain ⟨code, hcode, hfind⟩ := h.fsFind_of_none hp hl
      simp only [hfind, Option.bind_eq_bind, Option.bind_some, if_neg (Int.not_le.mpr hcode),
        h.fsFindParentDir_eq hp]
      cases hd : parentOf fs (components path) with
      | none =>
          have hm : mkdirParent fs path = none := by
            refine hnone ?_
            intro d hd'
            rw [mkdirParent_eq_some, hd] at hd'
            exact absurd hd'.2.2.1 (by simp)
          rw [hm, if_pos (codeOf_neg.mpr rfl)]
      | some d =>
          have hlt := h.parentOf_lt hd
          have hmem : ∀ d', mkdirParent fs path = some d' ↔ fs.dirCount < fsMaxDirectories ∧
              d = d' ∧ (fs.directories d').files.length < fsMaxFilesPerDir := by
            intro d'
            rw [mkdirParent_eq_some, hl, hd, Option.some.injEq]
            exact and_iff_right rfl
          rw [if_neg (by rw [codeOf_neg]; simp), codeOf, Int.toNat_natCast]
          by_cases hdc : fs.dirCount < fsMaxDirectories
          · by_cases hlen : (fs.directories d).files.length < fsMaxFilesPerDir
            · rw [(hmem d).mpr ⟨hdc, rfl, hlen⟩, if_neg (Nat.not_le.mpr hdc), h.getDir_eq hlt,
                Option.bind_some, if_neg (Nat.not_le.mpr hlen), fsGetFilename_eq hp,
                Option.bind_some, h.fsAddEntry_eq hlt hlen]
              by_cases hfc : fs.fileCount < fsMaxFiles
              · simp only [if_pos hfc, Option.bind_some, getDir]
                rw [if_pos (show (fs.addEntry d _).dirCount < fsMaxDirectories from hdc)]
                rfl
              · simp only [if_neg hfc, Option.bind_none]
            · have hm : mkdirParent fs path = none := by
                refine hnone ?_
                intro d' hd'
                obtain ⟨-, rfl, hlen'⟩ := (hmem d').mp hd'
                exact hlen hlen'
              rw [hm, if_neg (Nat.not_le.mpr hdc), h.getDir_eq hlt, Option.bind_some,
                if_pos (Nat.not_lt.mp hlen)]
          · have hm : mkdirParent fs path = none := by
              refine hnone ?_
              intro d' hd'
              exact hdc ((hmem d').mp hd').1
            rw [hm, if_pos (Nat.not_lt.mp hdc)]

variable {σ : Type} {A : Allocator σ} {st : FsState σ}

/-- **What `fs_create` does.** -/
theorem FsTree.fsCreate_eq (h : FsTree st.fs) (hp : IsPath path) (size : Nat) :
    fsCreate A path size st = match createParent st.fs path with
      | none => some (-1, st)
      | some d =>
          let r := if 0 < size then st.malloc A size else (0, st)
          if 0 < size ∧ r.1 = 0 then some (-1, r.2)
          else some (0, { r.2 with fs := st.fs.addEntry d (fileEntry st.fs path d size r.1) }) := by
  have hinit := h.not_initialized
  have hnone : (∀ d, createParent st.fs path ≠ some d) → createParent st.fs path = none :=
    Option.eq_none_iff_forall_ne_some.mpr
  rw [fsCreate, hinit, if_neg Bool.false_ne_true]
  cases hl : lookup st.fs path with
  | some i =>
      have hm : createParent st.fs path = none := by
        refine hnone ?_
        intro d hd
        rw [createParent_eq_some, hl] at hd
        exact absurd hd.1 (by simp)
      rw [h.fsFind_of_some hp hl, hm, Option.bind_eq_bind, Option.bind_some,
        if_pos (Int.natCast_nonneg i)]
  | none =>
      obtain ⟨code, hcode, hfind⟩ := h.fsFind_of_none hp hl
      simp only [hfind, Option.bind_eq_bind, Option.bind_some, if_neg (Int.not_le.mpr hcode),
        h.fsFindParentDir_eq hp]
      cases hd : parentOf st.fs (components path) with
      | none =>
          have hm : createParent st.fs path = none := by
            refine hnone ?_
            intro d hd'
            rw [createParent_eq_some, hd] at hd'
            exact absurd hd'.2.2.1 (by simp)
          rw [hm, if_pos (codeOf_neg.mpr rfl)]
      | some d =>
          have hlt := h.parentOf_lt hd
          have hmem : ∀ d', createParent st.fs path = some d' ↔ st.fs.fileCount < fsMaxFiles ∧
              d = d' ∧ (st.fs.directories d').files.length < fsMaxFilesPerDir := by
            intro d'
            rw [createParent_eq_some, hl, hd, Option.some.injEq]
            exact and_iff_right rfl
          rw [if_neg (by rw [codeOf_neg]; simp), codeOf, Int.toNat_natCast]
          by_cases hfc : st.fs.fileCount < fsMaxFiles
          · by_cases hlen : (st.fs.directories d).files.length < fsMaxFilesPerDir
            · rw [(hmem d).mpr ⟨hfc, rfl, hlen⟩, if_neg (Nat.not_le.mpr hfc), h.getDir_eq hlt,
                Option.bind_some, if_neg (Nat.not_le.mpr hlen), fsGetFilename_eq hp,
                Option.bind_some]
              by_cases hsize : 0 < size
              · simp only [if_pos hsize, FsState.malloc]
                rw [h.fsAddEntry_eq hlt hlen, if_pos hfc]
                rfl
              · simp only [if_neg hsize]
                rw [h.fsAddEntry_eq hlt hlen, if_pos hfc]
                rfl
            · have hm : createParent st.fs path = none := by
                refine hnone ?_
                intro d' hd'
                obtain ⟨-, rfl, hlen'⟩ := (hmem d').mp hd'
                exact hlen hlen'
              rw [hm, if_neg (Nat.not_le.mpr hfc), h.getDir_eq hlt, Option.bind_some,
                if_pos (Nat.not_lt.mp hlen)]
          · have hm : createParent st.fs path = none := by
              refine hnone ?_
              intro d' hd'
              exact hfc ((hmem d').mp hd').1
            rw [hm, if_pos (Nat.not_lt.mp hfc)]

theorem FsTree.fsCreate_zero (h : FsTree st.fs) (hp : IsPath path)
    (hd : createParent st.fs path = some d) : fsCreate A path 0 st = some (0, { st with
      fs := st.fs.addEntry d (fileEntry st.fs path d 0 0) }) := by
  rw [h.fsCreate_eq hp, hd]
  rfl

/-! ### Deletion -/

/-- `free` of a data pointer, if there is one. -/
def FsState.release (A : Allocator σ) (ptr : Nat) (st : FsState σ) : FsState σ :=
  if ptr ≠ 0 then st.free A ptr else st

@[simp] theorem FsState.malloc_fs (n : Nat) : (st.malloc A n).2.fs = st.fs := rfl

@[simp] theorem FsState.release_fs (ptr : Nat) : (st.release A ptr).fs = st.fs := by
  rw [FsState.release]
  split <;> rfl

theorem FsBounds.fsRemoveEntry_eq (h : FsBounds fs) (hd : d < fs.dirCount) (hi : i < fs.fileCount) :
    fsRemoveEntry i d fs = some (fs.removeEntry i d) := by
  rw [fsRemoveEntry, h.getDir_eq hd]
  simp only [Option.bind_eq_bind, Option.bind_some, getFile]
  rw [if_pos (Nat.lt_of_lt_of_le hi h.fileCount_le)]
  rfl

theorem FsTree.lookup_some (h : FsTree fs) (hl : lookup fs path = some i) :
    i ∈ (fs.directories (fs.files i).parentDir).files ∧ (fs.files i).parentDir < fs.dirCount ∧
      i < fs.fileCount ∧ parentOf fs (components path) = some (fs.files i).parentDir ∧
      (fs.files i).name = lastName (components path) := by
  obtain ⟨d, hd, hlt, hi, hname, hparent⟩ := h.resolve_some (lookup_eq_some.mp hl).2
  rw [hparent]
  exact ⟨hi, hlt, h.listed_lt d hlt i hi, hd, hname⟩

/-- **What `fs_delete` does.** -/
theorem FsTree.fsDelete_eq (h : FsTree st.fs) (hp : IsPath path) :
    fsDelete A path st = match lookup st.fs path with
      | none => some (-1, st)
      | some i =>
          let e := st.fs.files i
          if e.type = .directory then
            match slotOf st.fs e.name e.parentDir with
            | none => some (-1, st)
            | some k =>
                if (st.fs.directories k).files = [] then
                  some (0, { st with fs := st.fs.removeDir k i e.parentDir })
                else some (-1, st)
          else some (0,
            { st.release A e.dataPointer with fs := st.fs.removeEntry i e.parentDir }) := by
  have hinit := h.not_initialized
  rw [fsDelete, hinit, if_neg Bool.false_ne_true]
  by_cases hroot : fsIsRoot path = true
  · rw [if_pos hroot, lookup, if_pos hroot]
  · rw [if_neg hroot]
    cases hl : lookup st.fs path with
    | none =>
        obtain ⟨code, hcode, hfind⟩ := h.fsFind_of_none hp hl
        rw [hfind, Option.bind_eq_bind, Option.bind_some, if_pos hcode]
    | some i =>
        obtain ⟨hi, hd, hlt, -, -⟩ := h.lookup_some hl
        rw [h.fsFind_of_some hp hl]
        simp only [Option.bind_eq_bind, Option.bind_some]
        rw [if_neg (Int.not_lt.mpr (Int.natCast_nonneg i)), Int.toNat_natCast, h.getFile_eq hlt,
          Option.bind_some]
        split
        · rw [h.fsFindSlot_eq, Option.bind_some]
          cases hk : slotOf st.fs (st.fs.files i).name (st.fs.files i).parentDir with
          | none => rfl
          | some k =>
              have hkd := (slotOf_some hk).1
              simp only [h.getDir_eq hkd, Option.bind_some]
              by_cases hnil : (st.fs.directories k).files = []
              · have hbounds : FsBounds (st.fs.clearSlot k) := h.toFsLists.clearSlot.toFsBounds
                rw [if_neg (by simp [hnil]), if_pos hnil]
                rw [show st.fs.setDir k { st.fs.directories k with name := [] }
                  = st.fs.clearSlot k from rfl, hbounds.fsRemoveEntry_eq hd hlt]
                rfl
              · rw [if_pos (List.length_pos_iff.mpr hnil), if_neg hnil]
        · have hfs : (st.release A (st.fs.files i).dataPointer).fs = st.fs := FsState.release_fs _
          rw [show (if (st.fs.files i).dataPointer ≠ 0 then st.free A (st.fs.files i).dataPointer
            else st) = st.release A (st.fs.files i).dataPointer from rfl, hfs,
            h.fsRemoveEntry_eq hd hlt, Option.bind_some]

/-! ### Contents -/

/-- Give the block of entry `i` back. -/
def FsState.dropData (A : Allocator σ) (i : Nat) (st : FsState σ) : FsState σ :=
  let e := st.fs.files i
  if e.dataPointer ≠ 0 then
    { st.free A e.dataPointer with fs := st.fs.setData i 0 e.size }
  else st

/-- Write the data of entry `i`: over the old block if the size is the same, else into a
new one. -/
def FsState.writeData (A : Allocator σ) (i : Nat) (data : List UInt8) (st : FsState σ) :
    Int × FsState σ :=
  let e := st.fs.files i
  if e.dataPointer ≠ 0 ∧ e.size = data.length then
    (0, { st with mem := storeBytes st.mem e.dataPointer data })
  else
    let r := (st.dropData A i).malloc A data.length
    if r.1 = 0 then (-1, r.2)
    else (0, { r.2 with
      fs := st.fs.setData i r.1 data.length
      mem := storeBytes r.2.mem r.1 data })

theorem FsState.dropData_of_zero (h : (st.fs.files i).dataPointer = 0) : st.dropData A i = st := by
  rw [FsState.dropData]
  exact if_neg (not_not.mpr h)

theorem FsState.dropData_of_ne (h : (st.fs.files i).dataPointer ≠ 0) :
    st.dropData A i = { st.free A (st.fs.files i).dataPointer with
      fs := st.fs.setData i 0 (st.fs.files i).size } := by
  rw [FsState.dropData]
  exact if_pos h

theorem setData_self : fs.setData i (fs.files i).dataPointer (fs.files i).size = fs := by
  simp [setData, setFile]

@[simp] theorem FsState.dropData_fs :
    (st.dropData A i).fs = st.fs.setData i 0 (st.fs.files i).size := by
  by_cases h : (st.fs.files i).dataPointer = 0
  · rw [FsState.dropData_of_zero h, ← h, setData_self]
  · rw [FsState.dropData_of_ne h]

/-- Data are written over, or there is no memory for them, or they get a new block. -/
theorem FsState.writeData_cases (A : Allocator σ) (i : Nat) (data : List UInt8) (st : FsState σ) :
    ((st.fs.files i).dataPointer ≠ 0 ∧ (st.fs.files i).size = data.length ∧
      st.writeData A i data
        = (0, { st with mem := storeBytes st.mem (st.fs.files i).dataPointer data })) ∨
    (((st.dropData A i).malloc A data.length).1 = 0 ∧
      st.writeData A i data = (-1, ((st.dropData A i).malloc A data.length).2)) ∨
    (((st.dropData A i).malloc A data.length).1 ≠ 0 ∧ st.writeData A i data
      = (0, { ((st.dropData A i).malloc A data.length).2 with
        fs := st.fs.setData i ((st.dropData A i).malloc A data.length).1 data.length
        mem := storeBytes ((st.dropData A i).malloc A data.length).2.mem
          ((st.dropData A i).malloc A data.length).1 data })) := by
  rw [FsState.writeData]
  dsimp only
  by_cases hreuse : (st.fs.files i).dataPointer ≠ 0 ∧ (st.fs.files i).size = data.length
  · rw [if_pos hreuse]
    exact Or.inl ⟨hreuse.1, hreuse.2, rfl⟩
  · rw [if_neg hreuse]
    right
    by_cases hptr : ((st.dropData A i).malloc A data.length).1 = 0
    · rw [if_pos hptr]
      exact Or.inl ⟨hptr, rfl⟩
    · rw [if_neg hptr]
      exact Or.inr ⟨hptr, rfl⟩

/-- **What `fs_write` does.** -/
theorem FsTree.fsWrite_eq (h : FsTree st.fs) (hp : IsPath path) (data : List UInt8) :
    fsWrite A path data st = match lookup st.fs path with
      | none => some (-1, st)
      | some i =>
          if (st.fs.files i).type = .file then some (st.writeData A i data) else some (-1, st) := by
  have hinit := h.not_initialized
  rw [fsWrite, hinit, if_neg Bool.false_ne_true]
  cases hl : lookup st.fs path with
  | none =>
      obtain ⟨code, hcode, hfind⟩ := h.fsFind_of_none hp hl
      rw [hfind, Option.bind_eq_bind, Option.bind_some, if_pos hcode]
  | some i =>
      obtain ⟨-, -, hlt, -, -⟩ := h.lookup_some hl
      rw [h.fsFind_of_some hp hl]
      simp only [Option.bind_eq_bind, Option.bind_some]
      rw [if_neg (Int.not_lt.mpr (Int.natCast_nonneg i)), Int.toNat_natCast, h.getFile_eq hlt,
        Option.bind_some]
      by_cases htype : (st.fs.files i).type = .file
      · rw [if_neg (not_not.mpr htype), if_pos htype, FsState.writeData]
        by_cases hptr : (st.fs.files i).dataPointer = 0
        · have hstale : ¬((st.fs.files i).dataPointer ≠ 0 ∧ (st.fs.files i).size ≠ data.length) :=
            fun h => h.1 hptr
          have hreuse : ¬((st.fs.files i).dataPointer ≠ 0 ∧ (st.fs.files i).size = data.length) :=
            fun h => h.1 hptr
          simp only [if_neg hstale, if_neg hreuse, if_pos hptr, if_neg (not_not.mpr hptr),
            FsState.dropData]
          split <;> rfl
        · by_cases hsize : (st.fs.files i).size = data.length
          · have hstale : ¬((st.fs.files i).dataPointer ≠ 0 ∧ (st.fs.files i).size ≠ data.length) :=
              fun h => h.2 hsize
            have hself : st.fs.setFile i { st.fs.files i with size := data.length } = st.fs := by
              rw [← hsize]
              exact setData_self
            simp only [if_neg hstale, if_pos (And.intro hptr hsize), if_neg hptr, hself]
          · have hstale : (st.fs.files i).dataPointer ≠ 0 ∧ (st.fs.files i).size ≠ data.length :=
              ⟨hptr, hsize⟩
            have hreuse : ¬((st.fs.files i).dataPointer ≠ 0 ∧ (st.fs.files i).size = data.length) :=
              fun h => hsize h.2
            have hset : ∀ e e' : FsEntry, (st.fs.setFile i e).setFile i e'
                = st.fs.setFile i e' := by
              intro e e'
              simp [setFile]
            simp only [if_pos hstale, if_neg hreuse, if_pos hptr, if_true, FsState.malloc, hset,
              FsState.dropData]
            split <;> rfl
      · rw [if_pos htype, if_neg htype]

end Eq

end AceOS.Drivers.Fs
