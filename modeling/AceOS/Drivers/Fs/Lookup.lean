import AceOS.Drivers.Fs.Model

/-!
# What the lookups of the file system compute

`walk`, `entryIn` and `resolve` are the lookups as functions of a list of path
components, without codes and without accesses that could leave a table.
`fsFindParentDir_eq`, `fsGetFilename_eq` and `fsFind_eq` say that the code computes
them, in a file system whose counters and lists stay in bounds (`FsBounds`) and for
every path that fits the buffers (`IsPath`).
-/

namespace AceOS.Drivers.Fs

/-! ### Paths -/

/-- A C string that fits the path buffers. -/
structure IsPath (path : List UInt8) : Prop where
  noNul : (0 : UInt8) ∉ path
  length_lt : path.length < fsMaxPathLen

instance (path : List UInt8) : Decidable (IsPath path) :=
  decidable_of_iff ((0 : UInt8) ∉ path ∧ path.length < fsMaxPathLen)
    ⟨fun h => ⟨h.1, h.2⟩, fun h => ⟨h.noNul, h.length_lt⟩⟩

/-- The components of a path are not empty and contain bytes of the path only. -/
theorem isComponent_of_mem {path : List UInt8} : ∀ c ∈ components path,
    IsComponent c ∧ ∀ b ∈ c, b ∈ path := by
  induction hn : path.length using Nat.strongRecOn generalizing path with
  | ind n ih =>
      intro c hc
      rcases path_cases path with ⟨k, rfl⟩ | ⟨k, t, ht, rfl | ⟨r, rfl⟩⟩
      · rw [← List.append_nil (List.replicate k slash), components_slashes_append] at hc
        exact absurd hc (by simp)
      · rw [components_slashes_append, components_of_isComponent ht, List.mem_singleton] at hc
        subst hc
        exact ⟨ht, fun b hb => List.mem_append_right _ hb⟩
      · rw [components_slashes_append, components_append_slash ht, List.mem_cons] at hc
        rcases hc with rfl | hc
        · exact ⟨ht, fun b hb => by simp [hb]⟩
        · obtain ⟨h₁, h₂⟩ := ih r.length (by rw [← hn]; simp; omega) rfl c hc
          exact ⟨h₁, fun b hb => by simp [h₂ b hb]⟩

/-- The name the last component is stored and looked up under. -/
def lastName (parts : List (List UInt8)) : List UInt8 :=
  (parts.getLast?.getD []).take (fsMaxFilenameLen - 1)

theorem components_of_fsIsRoot {path : List UInt8} (h : fsIsRoot path = true) :
    components path = [] := by
  rw [fsIsRoot, decide_eq_true_iff] at h
  rcases h with rfl | rfl <;> rfl

theorem fsGetFilename_eq {path : List UInt8} (h : IsPath path) :
    fsGetFilename path = some (lastName (components path)) := by
  rw [fsGetFilename, fsParsePath_eq h.length_lt h.noNul]
  simp only [Option.bind_eq_bind, Option.bind_some, lastName]
  cases (components path).getLast? <;> rfl

/-! ### Lookups on components -/

section Spec

variable (fs : Filesystem)

/-- The slot with this name and parent. -/
def slotOf (name : List UInt8) (parentDir : Nat) : Option Nat :=
  (List.range fs.dirCount).find? fun k =>
    (fs.directories k).name = name ∧ (fs.directories k).parentDir = parentDir

/-- The slot of the subdirectory `part` of `d`. -/
def subdir (d : Nat) (part : List UInt8) : Option Nat :=
  (fs.directories d).files.findSome? fun i =>
    if (fs.files i).type = .directory ∧ (fs.files i).name = part then slotOf fs part d else none

/-- The slot reached from `d`. -/
def walk : List (List UInt8) → Nat → Option Nat
  | [], d => some d
  | part :: parts, d => (subdir fs d part).bind (walk parts)

/-- The entry of `d` with this name. -/
def entryIn (d : Nat) (name : List UInt8) : Option Nat :=
  (fs.directories d).files.find? fun i => (fs.files i).name = name

/-- The slot all but the last component lead to. -/
def parentOf (parts : List (List UInt8)) : Option Nat := walk fs parts.dropLast 0

/-- The entry a list of components names. -/
def resolve (parts : List (List UInt8)) : Option Nat :=
  (parentOf fs parts).bind fun d => entryIn fs d (lastName parts)

/-- Counters and lists stay inside the tables. -/
structure FsBounds : Prop where
  dirCount_pos : 0 < fs.dirCount
  dirCount_le : fs.dirCount ≤ fsMaxDirectories
  fileCount_le : fs.fileCount ≤ fsMaxFiles
  listed_lt : ∀ d < fs.dirCount, ∀ i ∈ (fs.directories d).files, i < fs.fileCount

end Spec

/-- An index, or `-1`. -/
def codeOf : Option Nat → Int
  | some i => i
  | none => -1

theorem codeOf_neg {o : Option Nat} : codeOf o < 0 ↔ o = none := by
  cases o with
  | none => simp [codeOf]
  | some i =>
      simp only [codeOf, reduceCtorEq, iff_false]
      omega

section Eq

variable {fs : Filesystem}

theorem slotOf_some {name : List UInt8} {d k : Nat} (h : slotOf fs name d = some k) :
    k < fs.dirCount ∧ (fs.directories k).name = name ∧ (fs.directories k).parentDir = d := by
  have h₁ := List.find?_some h
  rw [decide_eq_true_iff] at h₁
  exact ⟨List.mem_range.mp (List.mem_of_find?_eq_some h), h₁⟩

theorem subdir_some {d k : Nat} {part : List UInt8} (h : subdir fs d part = some k) :
    slotOf fs part d = some k := by
  obtain ⟨i, -, hi⟩ := List.exists_of_findSome?_eq_some h
  split at hi
  · exact hi
  · exact absurd hi (by simp)

theorem walk_lt {parts : List (List UInt8)} {d k : Nat} (hd : d < fs.dirCount)
    (hw : walk fs parts d = some k) : k < fs.dirCount := by
  induction parts generalizing d with
  | nil =>
      rw [walk, Option.some.injEq] at hw
      exact hw ▸ hd
  | cons part parts ih =>
      rw [walk, Option.bind_eq_some_iff] at hw
      obtain ⟨e, he, hw⟩ := hw
      exact ih (slotOf_some (subdir_some he)).1 hw

namespace FsBounds

variable (h : FsBounds fs)

include h

theorem getDir_eq {d : Nat} (hd : d < fs.dirCount) : fs.getDir d = some (fs.directories d) := by
  have := h.dirCount_le
  rw [Filesystem.getDir, if_pos (by omega)]

theorem getFile_eq {i : Nat} (hi : i < fs.fileCount) : fs.getFile i = some (fs.files i) := by
  have := h.fileCount_le
  rw [Filesystem.getFile, if_pos (by omega)]

theorem fsFindSlot_range (name : List UInt8) (d : Nat) {k n : Nat} (hk : k + n ≤ fs.dirCount) :
    fsFindSlot fs name d k n = some ((List.range' k n).find? fun k =>
      (fs.directories k).name = name ∧ (fs.directories k).parentDir = d) := by
  induction n generalizing k with
  | zero => rfl
  | succ n ih =>
      rw [fsFindSlot, h.getDir_eq (by omega), List.range'_succ, List.find?_cons]
      simp only [Option.bind_eq_bind, Option.bind_some]
      split
      · rename_i hc
        rw [decide_eq_true hc]
      · rename_i hc
        rw [decide_eq_false hc, ih (by omega)]

theorem fsFindSlot_eq (name : List UInt8) (d : Nat) :
    fsFindSlot fs name d 0 fs.dirCount = some (slotOf fs name d) := by
  rw [h.fsFindSlot_range name d (by omega), slotOf, List.range_eq_range']

theorem fsFindSubdir_eq (part : List UInt8) (d : Nat) {l : List Nat}
    (hl : ∀ i ∈ l, i < fs.fileCount) :
    fsFindSubdir fs part d l = some (l.findSome? fun i =>
      if (fs.files i).type = .directory ∧ (fs.files i).name = part then slotOf fs part d
      else none) := by
  induction l with
  | nil => rfl
  | cons i l ih =>
      have hrec := ih fun j hj => hl j (List.mem_cons_of_mem i hj)
      rw [fsFindSubdir, h.getFile_eq (hl i (List.mem_cons_self ..)), List.findSome?_cons]
      simp only [Option.bind_eq_bind, Option.bind_some, h.fsFindSlot_eq]
      split
      · generalize slotOf fs part d = o at hrec ⊢
        cases o with
        | none => exact hrec
        | some k => rfl
      · exact hrec

theorem parentOf_lt {parts : List (List UInt8)} {d : Nat} (hp : parentOf fs parts = some d) :
    d < fs.dirCount := walk_lt h.dirCount_pos hp

theorem fsWalk_eq (parts : List (List UInt8)) {d : Nat} (hd : d < fs.dirCount) :
    fsWalk fs parts d = some (codeOf (walk fs parts d)) := by
  induction parts generalizing d with
  | nil => rfl
  | cons part parts ih =>
      have hsub : fsFindSubdir fs part d (fs.directories d).files = some (subdir fs d part) :=
        h.fsFindSubdir_eq part d (h.listed_lt d hd)
      rw [fsWalk, h.getDir_eq hd, walk]
      simp only [Option.bind_eq_bind, Option.bind_some, hsub]
      cases hs : subdir fs d part with
      | none => rfl
      | some k => exact ih (slotOf_some (subdir_some hs)).1

theorem fsFindParentDir_eq {path : List UInt8} (hp : IsPath path) :
    fsFindParentDir fs path = some (codeOf (parentOf fs (components path))) := by
  rw [fsFindParentDir]
  split
  · rename_i hroot
    rw [components_of_fsIsRoot hroot]
    rfl
  · have hlen := hp.length_lt
    rw [List.take_of_length_le (by simp only [fsMaxPathLen] at hlen ⊢; omega),
      fsParsePath_eq hlen hp.noNul]
    exact h.fsWalk_eq _ h.dirCount_pos

theorem fsFindEntry_eq (name : List UInt8) {l : List Nat} (hl : ∀ i ∈ l, i < fs.fileCount) :
    fsFindEntry fs name l = some (codeOf (l.find? fun i => (fs.files i).name = name)) := by
  induction l with
  | nil => rfl
  | cons i l ih =>
      have hrec := ih fun j hj => hl j (List.mem_cons_of_mem i hj)
      rw [fsFindEntry, h.getFile_eq (hl i (List.mem_cons_self ..)), List.find?_cons]
      simp only [Option.bind_eq_bind, Option.bind_some]
      split
      · rename_i hc
        rw [decide_eq_true hc]
        rfl
      · rename_i hc
        rw [decide_eq_false hc]
        exact hrec

/-- **What `fs_find` computes.** -/
theorem fsFind_eq {path : List UInt8} (hp : IsPath path) :
    fsFind fs path =
      some (if fsIsRoot path then -2 else codeOf (resolve fs (components path))) := by
  rw [fsFind]
  split
  · rfl
  · rw [h.fsFindParentDir_eq hp, fsGetFilename_eq hp, resolve]
    simp only [Option.bind_eq_bind, Option.bind_some]
    cases hd : parentOf fs (components path) with
    | none => rfl
    | some d =>
        have hlt := h.parentOf_lt hd
        rw [if_neg (by rw [codeOf_neg]; simp), codeOf, Int.toNat_natCast, h.getDir_eq hlt]
        exact h.fsFindEntry_eq _ (h.listed_lt d hlt)

theorem entryIn_lt {d i : Nat} {name : List UInt8} (hd : d < fs.dirCount)
    (he : entryIn fs d name = some i) : i < fs.fileCount :=
  h.listed_lt d hd i (List.mem_of_find?_eq_some he)

theorem resolve_lt {parts : List (List UInt8)} {i : Nat} (hr : resolve fs parts = some i) :
    i < fs.fileCount := by
  rw [resolve, Option.bind_eq_some_iff] at hr
  obtain ⟨d, hd, he⟩ := hr
  exact h.entryIn_lt (h.parentOf_lt hd) he

end FsBounds

end Eq

end AceOS.Drivers.Fs
