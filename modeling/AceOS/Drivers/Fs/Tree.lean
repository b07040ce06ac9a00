import AceOS.Drivers.Fs.Lookup

/-!
# The tables are a tree

`FsTree` is what the entries and the slots have to do with each other in every
state the file system reaches.  Empty names are its exceptions: a deletion leaves
them in entries and slots, and a creation under a path without components puts an
entry with an empty name into the root.

The operations change the tables in four ways only: a new file, a new directory, a
file or a directory taken away, new data in a file.  Each keeps the tree.
-/

namespace AceOS.Drivers.Fs

/-! ### The four updates -/

namespace Filesystem

variable (fs : Filesystem)

/-- A new entry, at the end of the list of `d`. -/
def addEntry (d : Nat) (e : FsEntry) : Filesystem :=
  { fs with
    fileCount := fs.fileCount + 1
    files := Function.update fs.files fs.fileCount e
    directories := Function.update fs.directories d
      { fs.directories d with files := (fs.directories d).files ++ [fs.fileCount] } }

/-- A new slot below `d`. -/
def addSlot (d : Nat) (name : List UInt8) : Filesystem :=
  { fs with
    dirCount := fs.dirCount + 1
    directories := Function.update fs.directories fs.dirCount
      { fs.directories fs.dirCount with name := name, parentDir := d } }

/-- A new directory below `d`: its entry and its slot. -/
def addDir (d : Nat) (e : FsEntry) : Filesystem := (fs.addEntry d e).addSlot d e.name

/-- Entry `i` leaves the list of `d` and loses its name. -/
def removeEntry (i d : Nat) : Filesystem :=
  { fs with
    files := Function.update fs.files i { fs.files i with name := [] }
    directories := Function.update fs.directories d
      { fs.directories d with files := (fs.directories d).files.erase i } }

/-- Slot `k` loses its name. -/
def clearSlot (k : Nat) : Filesystem := fs.setDir k { fs.directories k with name := [] }

/-- An entry and its slot `k` are taken away. -/
def removeDir (k i d : Nat) : Filesystem := (fs.clearSlot k).removeEntry i d

/-- Entry `i` gets other data. -/
def setData (i ptr size : Nat) : Filesystem :=
  fs.setFile i { fs.files i with dataPointer := ptr, size := size }

variable {fs} {d i j k : Nat} {e : FsEntry} {name : List UInt8}

theorem addEntry_file_self : (fs.addEntry d e).files fs.fileCount = e := Function.update_self ..

theorem addEntry_file_of_ne (h : i ≠ fs.fileCount) : (fs.addEntry d e).files i = fs.files i :=
  Function.update_of_ne h ..

theorem addEntry_dir_of_ne (h : k ≠ d) :
    (fs.addEntry d e).directories k = fs.directories k := Function.update_of_ne h ..

theorem addEntry_dir_self : (fs.addEntry d e).directories d
    = { fs.directories d with files := (fs.directories d).files ++ [fs.fileCount] } :=
  Function.update_self ..

@[simp] theorem addEntry_dir_name :
    ((fs.addEntry d e).directories k).name = (fs.directories k).name := by
  by_cases h : k = d
  · rw [h, addEntry_dir_self]
  · rw [addEntry_dir_of_ne h]

@[simp] theorem addEntry_dir_parentDir :
    ((fs.addEntry d e).directories k).parentDir = (fs.directories k).parentDir := by
  by_cases h : k = d
  · rw [h, addEntry_dir_self]
  · rw [addEntry_dir_of_ne h]

theorem mem_addEntry : i ∈ ((fs.addEntry d e).directories k).files ↔
    i ∈ (fs.directories k).files ∨ (k = d ∧ i = fs.fileCount) := by
  by_cases h : k = d
  · subst h
    rw [addEntry_dir_self]
    simp
  · rw [addEntry_dir_of_ne h]
    simp [h]

@[simp] theorem removeEntry_dir_name :
    ((fs.removeEntry i d).directories k).name = (fs.directories k).name := by
  by_cases h : k = d
  · subst h
    simp [removeEntry]
  · simp [removeEntry, h]

@[simp] theorem removeEntry_dir_parentDir :
    ((fs.removeEntry i d).directories k).parentDir = (fs.directories k).parentDir := by
  by_cases h : k = d
  · subst h
    simp [removeEntry]
  · simp [removeEntry, h]

theorem removeEntry_files (k : Nat) : ((fs.removeEntry i d).directories k).files =
    if k = d then (fs.directories k).files.erase i else (fs.directories k).files := by
  by_cases h : k = d
  · subst h
    simp [removeEntry]
  · simp [removeEntry, h]

theorem removeEntry_file_of_ne (h : j ≠ i) : (fs.removeEntry i d).files j = fs.files j :=
  Function.update_of_ne h ..

theorem removeEntry_file_self :
    (fs.removeEntry i d).files i = { fs.files i with name := [] } := Function.update_self ..

@[simp] theorem clearSlot_files :
    ((fs.clearSlot k).directories j).files = (fs.directories j).files := by
  by_cases h : j = k
  · subst h
    simp [clearSlot, setDir]
  · simp [clearSlot, setDir, h]

@[simp] theorem clearSlot_parentDir :
    ((fs.clearSlot k).directories j).parentDir = (fs.directories j).parentDir := by
  by_cases h : j = k
  · subst h
    simp [clearSlot, setDir]
  · simp [clearSlot, setDir, h]

theorem clearSlot_name : ((fs.clearSlot k).directories j).name =
    if j = k then [] else (fs.directories j).name := by
  by_cases h : j = k
  · subst h
    simp [clearSlot, setDir]
  · simp [clearSlot, setDir, h]

@[simp] theorem addSlot_files :
    ((fs.addSlot d name).directories k).files = (fs.directories k).files := by
  by_cases h : k = fs.dirCount
  · subst h
    simp [addSlot]
  · simp [addSlot, h]

theorem addSlot_dir_of_ne (h : k ≠ fs.dirCount) :
    (fs.addSlot d name).directories k = fs.directories k := Function.update_of_ne h ..

theorem addSlot_dir_self : (fs.addSlot d name).directories fs.dirCount
    = { fs.directories fs.dirCount with name := name, parentDir := d } := Function.update_self ..

theorem addDir_dir_of_ne (h : k ≠ fs.dirCount) :
    (fs.addDir d e).directories k = (fs.addEntry d e).directories k := addSlot_dir_of_ne h

@[simp] theorem addDir_name_self : ((fs.addDir d e).directories fs.dirCount).name = e.name := by
  have h : (fs.addDir d e).directories (fs.addEntry d e).dirCount = _ := addSlot_dir_self
  exact congrArg FsDirectory.name h

@[simp] theorem addDir_parentDir_self :
    ((fs.addDir d e).directories fs.dirCount).parentDir = d := by
  have h : (fs.addDir d e).directories (fs.addEntry d e).dirCount = _ := addSlot_dir_self
  exact congrArg FsDirectory.parentDir h

theorem addDir_name_of_ne (h : k ≠ fs.dirCount) :
    ((fs.addDir d e).directories k).name = (fs.directories k).name := by
  rw [addDir_dir_of_ne h, addEntry_dir_name]

theorem addDir_parentDir_of_ne (h : k ≠ fs.dirCount) :
    ((fs.addDir d e).directories k).parentDir = (fs.directories k).parentDir := by
  rw [addDir_dir_of_ne h, addEntry_dir_parentDir]

theorem mem_addDir : i ∈ ((fs.addDir d e).directories k).files ↔
    i ∈ (fs.directories k).files ∨ (k = d ∧ i = fs.fileCount) := by
  rw [addDir, addSlot_files, mem_addEntry]

theorem addDir_file_self : (fs.addDir d e).files fs.fileCount = e :=
  addEntry_file_self (d := d)

theorem addDir_file_of_ne (h : i ≠ fs.fileCount) : (fs.addDir d e).files i = fs.files i :=
  addEntry_file_of_ne (d := d) h

theorem removeDir_name : ((fs.removeDir k i d).directories j).name =
    if j = k then [] else (fs.directories j).name := by
  rw [removeDir, removeEntry_dir_name, clearSlot_name]

@[simp] theorem removeDir_parentDir :
    ((fs.removeDir k i d).directories j).parentDir = (fs.directories j).parentDir := by
  rw [removeDir, removeEntry_dir_parentDir, clearSlot_parentDir]

theorem removeDir_files : ((fs.removeDir k i d).directories j).files =
    if j = d then (fs.directories j).files.erase i else (fs.directories j).files := by
  rw [removeDir, removeEntry_files, clearSlot_files]

theorem removeDir_file_of_ne (h : j ≠ i) : (fs.removeDir k i d).files j = fs.files j :=
  removeEntry_file_of_ne h

theorem setData_file_of_ne {ptr size : Nat} (h : j ≠ i) :
    (fs.setData i ptr size).files j = fs.files j := Function.update_of_ne h ..

theorem setData_file_self {ptr size : Nat} : (fs.setData i ptr size).files i
    = { fs.files i with dataPointer := ptr, size := size } := Function.update_self ..

@[simp] theorem setData_name {ptr size : Nat} :
    ((fs.setData i ptr size).files j).name = (fs.files j).name := by
  by_cases h : j = i
  · rw [h, setData_file_self]
  · rw [setData_file_of_ne h]

@[simp] theorem setData_type {ptr size : Nat} :
    ((fs.setData i ptr size).files j).type = (fs.files j).type := by
  by_cases h : j = i
  · rw [h, setData_file_self]
  · rw [setData_file_of_ne h]

@[simp] theorem setData_parentDir {ptr size : Nat} :
    ((fs.setData i ptr size).files j).parentDir = (fs.files j).parentDir := by
  by_cases h : j = i
  · rw [h, setData_file_self]
  · rw [setData_file_of_ne h]

theorem clearSlot_eq_self (h : (fs.directories k).name = []) : fs.clearSlot k = fs := by
  rw [clearSlot, setDir, ← h, Function.update_eq_self]

end Filesystem

open Filesystem

/-! ### The invariant -/

structure IsName (name : List UInt8) : Prop where
  noSlash : slash ∉ name
  length_le : name.length ≤ fsMaxFilenameLen - 1

/-- What the lists of the directories have to do with the entries. -/
structure FsLists (fs : Filesystem) : Prop extends FsBounds fs where
  initialized : fs.initialized = true
  length_le : ∀ d < fs.dirCount, (fs.directories d).files.length ≤ fsMaxFilesPerDir
  fresh : ∀ k, fs.dirCount ≤ k → (fs.directories k).files = []
  nodup : ∀ d < fs.dirCount, (fs.directories d).files.Nodup
  /-- An index occurs in the list of its parent only. -/
  listed_parent : ∀ d < fs.dirCount, ∀ i ∈ (fs.directories d).files, (fs.files i).parentDir = d
  named_listed : ∀ i < fs.fileCount, (fs.files i).name ≠ [] →
    ∃ d < fs.dirCount, i ∈ (fs.directories d).files
  listed_name : ∀ d < fs.dirCount, ∀ i ∈ (fs.directories d).files, IsName (fs.files i).name
  /-- Names in a directory are different, but for empty ones. -/
  unique_name : ∀ d < fs.dirCount, ∀ i ∈ (fs.directories d).files,
    ∀ j ∈ (fs.directories d).files, (fs.files i).name = (fs.files j).name →
      (fs.files i).name ≠ [] → i = j
  /-- Empty names occur in the root only. -/
  empty_name : ∀ d < fs.dirCount, ∀ i ∈ (fs.directories d).files, (fs.files i).name = [] → d = 0

/-- **The tables are a tree**: the slots and the directory entries match. -/
structure FsTree (fs : Filesystem) : Prop extends FsLists fs where
  root_name : (fs.directories 0).name = [slash]
  root_parent : (fs.directories 0).parentDir = 0
  /-- A directory has a slot with its name and parent. -/
  slot : ∀ d < fs.dirCount, ∀ i ∈ (fs.directories d).files, (fs.files i).type = .directory →
    (fs.files i).name ≠ [] → ∃ k < fs.dirCount,
      (fs.directories k).name = (fs.files i).name ∧ (fs.directories k).parentDir = d
  slot_unique : ∀ k < fs.dirCount, ∀ l < fs.dirCount, (fs.directories k).name ≠ [] →
    (fs.directories k).name = (fs.directories l).name →
    (fs.directories k).parentDir = (fs.directories l).parentDir → k = l
  slot_parent_lt : ∀ k < fs.dirCount, 0 < k → (fs.directories k).parentDir < k
  /-- A live slot has its directory in the list of a live parent. -/
  slot_live : ∀ k < fs.dirCount, 0 < k → (fs.directories k).name ≠ [] →
    (fs.directories (fs.directories k).parentDir).name ≠ []
  slot_entry : ∀ k < fs.dirCount, 0 < k → (fs.directories k).name ≠ [] →
    ∃ i ∈ (fs.directories (fs.directories k).parentDir).files,
      (fs.files i).type = .directory ∧ (fs.files i).name = (fs.directories k).name
  /-- A slot without a name lists nothing. -/
  tombstone : ∀ k < fs.dirCount, (fs.directories k).name = [] → (fs.directories k).files = []

theorem fsInit_files (d : Nat) : (fsInit.directories d).files = [] := by
  by_cases h : d = 0
  · subst h
    rfl
  · simp [fsInit, h]

theorem fsInit_lists : FsLists fsInit where
  dirCount_pos := by decide
  dirCount_le := by decide
  fileCount_le := by decide
  listed_lt := by simp [fsInit_files]
  initialized := rfl
  length_le := by simp [fsInit_files]
  fresh := fun k _ => fsInit_files k
  nodup := by simp [fsInit_files]
  listed_parent := by simp [fsInit_files]
  named_listed := fun i hi => absurd hi (Nat.not_lt_zero i)
  listed_name := by simp [fsInit_files]
  unique_name := by simp [fsInit_files]
  empty_name := by simp [fsInit_files]

theorem fsInit_tree : FsTree fsInit where
  toFsLists := fsInit_lists
  root_name := rfl
  root_parent := rfl
  slot := by simp [fsInit_files]
  slot_unique := by
    intro k hk l hl _ _ _
    rw [Nat.lt_one_iff.mp hk, Nat.lt_one_iff.mp hl]
  slot_parent_lt := fun k hk h0 => absurd (Nat.lt_one_iff.mp hk) (Nat.ne_of_gt h0)
  slot_live := fun k hk h0 => absurd (Nat.lt_one_iff.mp hk) (Nat.ne_of_gt h0)
  slot_entry := fun k hk h0 => absurd (Nat.lt_one_iff.mp hk) (Nat.ne_of_gt h0)
  tombstone := fun k _ _ => fsInit_files k

section Lists

variable {fs : Filesystem} {d i j k : Nat} {e : FsEntry} {name : List UInt8}

namespace FsLists

theorem not_initialized (h : FsLists fs) : (!fs.initialized) = false := by
  rw [h.initialized]
  rfl

theorem listed_unique (h : FsLists fs) {d d' : Nat} (hd : d < fs.dirCount) (hd' : d' < fs.dirCount)
    (hi : i ∈ (fs.directories d).files) (hi' : i ∈ (fs.directories d').files) : d = d' := by
  rw [← h.listed_parent d hd i hi, h.listed_parent d' hd' i hi']

theorem listed_ne (h : FsLists fs) (hd : d < fs.dirCount) (hi : i ∈ (fs.directories d).files) :
    i ≠ fs.fileCount := Nat.ne_of_lt (h.listed_lt d hd i hi)

/-- A new entry that belongs to `d` and has a name of its own there. -/
theorem addEntry (h : FsLists fs) (hd : d < fs.dirCount) (hfc : fs.fileCount < fsMaxFiles)
    (hlen : (fs.directories d).files.length < fsMaxFilesPerDir) (hparent : e.parentDir = d)
    (hname : IsName e.name)
    (hnew : ∀ j ∈ (fs.directories d).files, (fs.files j).name = e.name → e.name = [])
    (hempty : e.name = [] → d = 0) : FsLists (fs.addEntry d e) where
  dirCount_pos := h.dirCount_pos
  dirCount_le := h.dirCount_le
  fileCount_le := hfc
  listed_lt := by
    intro c hc i hi
    rcases mem_addEntry.mp hi with hi | ⟨-, rfl⟩
    · exact Nat.lt_succ_of_lt (h.listed_lt c hc i hi)
    · exact Nat.lt_succ_self _
  initialized := h.initialized
  length_le := by
    intro c hc
    by_cases hcd : c = d
    · subst hcd
      rw [addEntry_dir_self, List.length_append]
      exact hlen
    · rw [addEntry_dir_of_ne hcd]
      exact h.length_le c hc
  fresh := by
    intro k hk
    have hkd : k ≠ d := Nat.ne_of_gt (Nat.lt_of_lt_of_le hd hk)
    rw [addEntry_dir_of_ne hkd]
    exact h.fresh k hk
  nodup := by
    intro c hc
    by_cases hcd : c = d
    · subst hcd
      rw [addEntry_dir_self]
      refine List.nodup_append.mpr ⟨h.nodup c hc, List.pairwise_singleton _ _, ?_⟩
      intro i hi j hj
      rw [List.mem_singleton.mp hj]
      exact h.listed_ne hc hi
    · rw [addEntry_dir_of_ne hcd]
      exact h.nodup c hc
  listed_parent := by
    intro c hc i hi
    rcases mem_addEntry.mp hi with hi | ⟨rfl, rfl⟩
    · rw [addEntry_file_of_ne (h.listed_ne hc hi)]
      exact h.listed_parent c hc i hi
    · rw [addEntry_file_self, hparent]
  named_listed := by
    intro i hi hne
    by_cases hnew : i = fs.fileCount
    · exact ⟨d, hd, mem_addEntry.mpr (Or.inr ⟨rfl, hnew⟩)⟩
    · rw [addEntry_file_of_ne hnew] at hne
      obtain ⟨c, hc, hic⟩ := h.named_listed i
        (Nat.lt_of_le_of_ne (Nat.le_of_lt_succ hi) hnew) hne
      exact ⟨c, hc, mem_addEntry.mpr (Or.inl hic)⟩
  listed_name := by
    intro c hc i hi
    rcases mem_addEntry.mp hi with hi | ⟨-, rfl⟩
    · rw [addEntry_file_of_ne (h.listed_ne hc hi)]
      exact h.listed_name c hc i hi
    · rw [addEntry_file_self]
      exact hname
  unique_name := by
    intro c hc i hi j hj heq hne
    rcases mem_addEntry.mp hi with hold | ⟨rfl, rfl⟩
    · rw [addEntry_file_of_ne (h.listed_ne hc hold)] at heq hne
      rcases mem_addEntry.mp hj with hj | ⟨rfl, rfl⟩
      · rw [addEntry_file_of_ne (h.listed_ne hc hj)] at heq
        exact h.unique_name c hc i hold j hj heq hne
      · rw [addEntry_file_self] at heq
        exact absurd (heq.trans (hnew i hold heq)) hne
    · rw [addEntry_file_self] at heq hne
      rcases mem_addEntry.mp hj with hj | ⟨-, rfl⟩
      · rw [addEntry_file_of_ne (h.listed_ne hc hj)] at heq
        exact absurd (hnew j hj heq.symm) hne
      · rfl
  empty_name := by
    intro c hc i hi he
    rcases mem_addEntry.mp hi with hi | ⟨rfl, rfl⟩
    · rw [addEntry_file_of_ne (h.listed_ne hc hi)] at he
      exact h.empty_name c hc i hi he
    · rw [addEntry_file_self] at he
      exact hempty he

theorem addSlot (h : FsLists fs) (hdc : fs.dirCount < fsMaxDirectories) :
    FsLists (fs.addSlot d name) := by
  have hold : ∀ c < fs.dirCount + 1, ∀ i ∈ (fs.directories c).files, c < fs.dirCount := by
    intro c hc i hi
    by_contra hcd
    rw [h.fresh c (Nat.not_lt.mp hcd)] at hi
    exact List.not_mem_nil hi
  refine
    { dirCount_pos := Nat.succ_pos _
      dirCount_le := hdc
      fileCount_le := h.fileCount_le
      listed_lt := ?_
      initialized := h.initialized
      length_le := ?_
      fresh := ?_
      nodup := ?_
      listed_parent := ?_
      named_listed := ?_
      listed_name := ?_
      unique_name := ?_
      empty_name := ?_ }
  all_goals simp only [addSlot_files]
  · intro c hc i hi
    exact h.listed_lt c (hold c hc i hi) i hi
  · intro c hc
    by_cases hcd : c < fs.dirCount
    · exact h.length_le c hcd
    · rw [h.fresh c (Nat.not_lt.mp hcd)]
      exact Nat.zero_le _
  · intro k hk
    exact h.fresh k (Nat.le_of_succ_le hk)
  · intro c hc
    by_cases hcd : c < fs.dirCount
    · exact h.nodup c hcd
    · rw [h.fresh c (Nat.not_lt.mp hcd)]
      exact List.nodup_nil
  · intro c hc i hi
    exact h.listed_parent c (hold c hc i hi) i hi
  · intro i hi hne
    obtain ⟨c, hc, hic⟩ := h.named_listed i hi hne
    exact ⟨c, Nat.lt_succ_of_lt hc, hic⟩
  · intro c hc i hi
    exact h.listed_name c (hold c hc i hi) i hi
  · intro c hc i hi
    exact h.unique_name c (hold c hc i hi) i hi
  · intro c hc i hi
    exact h.empty_name c (hold c hc i hi) i hi

theorem mem_removeEntry (h : FsLists fs) (hd : d < fs.dirCount) (hi : i ∈ (fs.directories d).files)
    (hk : k < fs.dirCount) : j ∈ ((fs.removeEntry i d).directories k).files ↔
      j ∈ (fs.directories k).files ∧ j ≠ i := by
  rw [removeEntry_files]
  by_cases hkd : k = d
  · subst hkd
    rw [if_pos rfl, (h.nodup k hk).mem_erase_iff, and_comm]
  · rw [if_neg hkd]
    refine (and_iff_left_of_imp ?_).symm
    rintro hj rfl
    exact hkd (h.listed_unique hk hd hj hi)

theorem removeEntry (h : FsLists fs) (hd : d < fs.dirCount) (hi : i ∈ (fs.directories d).files) :
    FsLists (fs.removeEntry i d) := by
  have hmem : ∀ c < fs.dirCount, ∀ j ∈ ((fs.removeEntry i d).directories c).files,
      j ∈ (fs.directories c).files ∧ (fs.removeEntry i d).files j = fs.files j := by
    intro c hc j hj
    obtain ⟨hj, hne⟩ := (h.mem_removeEntry hd hi hc).mp hj
    exact ⟨hj, removeEntry_file_of_ne hne⟩
  refine
    { dirCount_pos := h.dirCount_pos
      dirCount_le := h.dirCount_le
      fileCount_le := h.fileCount_le
      listed_lt := ?_
      initialized := h.initialized
      length_le := ?_
      fresh := ?_
      nodup := ?_
      listed_parent := ?_
      named_listed := ?_
      listed_name := ?_
      unique_name := ?_
      empty_name := ?_ }
  · intro c hc j hj
    exact h.listed_lt c hc j (hmem c hc j hj).1
  · intro c hc
    have hle := h.length_le c hc
    rw [removeEntry_files]
    split
    · exact Nat.le_trans (List.erase_sublist.length_le) hle
    · exact hle
  · intro k hk
    rw [removeEntry_files, h.fresh k hk]
    split <;> rfl
  · intro c hc
    rw [removeEntry_files]
    split
    · exact (h.nodup c hc).erase i
    · exact h.nodup c hc
  · intro c hc j hj
    obtain ⟨hj, hfile⟩ := hmem c hc j hj
    rw [hfile]
    exact h.listed_parent c hc j hj
  · intro j hj hne
    have hji : j ≠ i := by
      rintro rfl
      rw [removeEntry_file_self] at hne
      exact hne rfl
    rw [removeEntry_file_of_ne hji] at hne
    obtain ⟨c, hc, hjc⟩ := h.named_listed j hj hne
    exact ⟨c, hc, (h.mem_removeEntry hd hi hc).mpr ⟨hjc, hji⟩⟩
  · intro c hc j hj
    obtain ⟨hj, hfile⟩ := hmem c hc j hj
    rw [hfile]
    exact h.listed_name c hc j hj
  · intro c hc j hj l hl
    obtain ⟨hj, hfile⟩ := hmem c hc j hj
    obtain ⟨hl, hfile'⟩ := hmem c hc l hl
    rw [hfile, hfile']
    exact h.unique_name c hc j hj l hl
  · intro c hc j hj
    obtain ⟨hj, hfile⟩ := hmem c hc j hj
    rw [hfile]
    exact h.empty_name c hc j hj

theorem clearSlot (h : FsLists fs) : FsLists (fs.clearSlot k) := by
  refine
    { dirCount_pos := h.dirCount_pos
      dirCount_le := h.dirCount_le
      fileCount_le := h.fileCount_le
      listed_lt := ?_
      initialized := h.initialized
      length_le := ?_
      fresh := ?_
      nodup := ?_
      listed_parent := ?_
      named_listed := ?_
      listed_name := ?_
      unique_name := ?_
      empty_name := ?_ }
  all_goals simp only [clearSlot_files]
  · exact h.listed_lt
  · exact h.length_le
  · exact h.fresh
  · exact h.nodup
  · exact h.listed_parent
  · exact h.named_listed
  · exact h.listed_name
  · exact h.unique_name
  · exact h.empty_name

end FsLists

end Lists

end AceOS.Drivers.Fs
