import AceOS.Drivers.Fs.ParseBounds

/-!
# Names

`fs_find` answers `-2` for the root, and the creating calls take every negative answer
for "not found".  So a creation under a spelling of the root is not refused: it puts an
entry with an empty name into the root.  `Named` says that no call of a run does that;
then names are never empty and never occur twice (`fsRun_names`).

A path of 256 characters or more that names something is read beyond a buffer, and the call is
undefined (`FsOp.Overruns`).
-/

namespace AceOS.Drivers.Fs

open Filesystem Memory

/-! ### The law -/

/-- No directory lists an empty name, or a name twice. -/
structure UniqueNames (fs : Filesystem) : Prop where
  nonempty : ∀ d < fs.dirCount, ∀ i ∈ (fs.directories d).files, (fs.files i).name ≠ []
  unique : ∀ d < fs.dirCount, ∀ i ∈ (fs.directories d).files,
    ∀ j ∈ (fs.directories d).files, (fs.files i).name = (fs.files j).name → i = j

def FsOp.dest : FsOp → Option (List UInt8)
  | .mkdir path => some path
  | .create path _ => some path
  | .copy _ destPath => some destPath
  | .move _ destPath => some destPath
  | _ => none

/-- The call would create what exists: the root under any of its spellings, or an entry. -/
def FsOp.NamesObject (op : FsOp) (fs : Filesystem) : Prop :=
  ∃ path ∈ op.dest, components path = [] ∨ lookup fs path ≠ none

section Named

variable {σ : Type} (A : Allocator σ)

/-- The call is refused and the tables stay as they were. -/
def Refused (op : FsOp) (st : FsState σ) : Prop :=
  ∃ st', fsStep A op st = some (-1, st') ∧ st'.fs = st.fs ∧
    st'.currentDirectory = st.currentDirectory

/-- There is an entry, a place in the directory and memory for a new file. -/
def HasRoom (path : List UInt8) (size : Nat) (st : FsState σ) : Prop :=
  createParent st.fs path ≠ none ∧ (0 < size → (st.malloc A size).1 ≠ 0)

instance (path : List UInt8) (size : Nat) (st : FsState σ) : Decidable (HasRoom A path size st) :=
  inferInstanceAs (Decidable (_ ∧ _))

/-- The source of a copy is a file, and there is room for another one. -/
def CopyHasRoom (srcPath destPath : List UInt8) (st : FsState σ) : Prop :=
  match lookup st.fs srcPath with
  | none => False
  | some s => (st.fs.files s).type = .file ∧ HasRoom A destPath (st.fs.files s).size st

instance (srcPath destPath : List UInt8) (st : FsState σ) :
    Decidable (CopyHasRoom A srcPath destPath st) := by
  rw [CopyHasRoom]
  split <;> infer_instance

/-- What a creating call creates has a name, or there is no room for it. -/
def Named : FsOp → FsState σ → Prop
  | .mkdir path, st => components path ≠ [] ∨ mkdirParent st.fs path = none
  | .create path size, st => components path ≠ [] ∨ ¬HasRoom A path size st
  | .copy srcPath destPath, st => components destPath ≠ [] ∨ ¬CopyHasRoom A srcPath destPath st
  | .move srcPath destPath, st => components destPath ≠ [] ∨ ¬CopyHasRoom A srcPath destPath st
  | _, _ => True

instance : ∀ (op : FsOp) (st : FsState σ), Decidable (Named A op st)
  | .mkdir _, _ => inferInstanceAs (Decidable (_ ∨ _))
  | .create _ _, _ => inferInstanceAs (Decidable (_ ∨ _))
  | .copy _ _, _ => inferInstanceAs (Decidable (_ ∨ _))
  | .move _ _, _ => inferInstanceAs (Decidable (_ ∨ _))
  | .delete _, _ | .write _ _, _ | .changeDir _, _ => inferInstanceAs (Decidable True)

end Named

section Overruns

variable (fs : Filesystem)

/-- `fs_find` reads the path beyond its buffer: it does not fit, and there is a directory for
its last component. -/
def PathOverruns (path : List UInt8) : Prop := fsMaxPathLen ≤ path.length ∧ ParentFound fs path

/-- It looks for the source and, if that is a file, for the destination. -/
def CopyOverruns (srcPath destPath : List UInt8) : Prop :=
  PathOverruns fs srcPath ∨
    (∃ s, lookup fs srcPath = some s ∧ (fs.files s).type = .file) ∧ PathOverruns fs destPath

def FsOp.Overruns : FsOp → Prop
  | .mkdir path => PathOverruns fs path
  | .create path _ => PathOverruns fs path
  | .copy srcPath destPath => CopyOverruns fs srcPath destPath
  | .move srcPath destPath => CopyOverruns fs srcPath destPath
  | _ => False

end Overruns

/-! ### Names that are not empty -/

def NoEmpty (fs : Filesystem) : Prop :=
  ∀ d < fs.dirCount, ∀ i ∈ (fs.directories d).files, (fs.files i).name ≠ []

section NoEmpty

variable {fs : Filesystem} {d i k : Nat} {e : FsEntry} {path : List UInt8}

theorem FsTree.uniqueNames (h : FsTree fs) (hn : NoEmpty fs) : UniqueNames fs where
  nonempty := hn
  unique := by
    intro d hd i hi j hj heq
    exact h.unique_name d hd i hi j hj heq (hn d hd i hi)

theorem NoEmpty.addEntry (hn : NoEmpty fs) (h : FsTree fs) (hne : e.name ≠ []) :
    NoEmpty (fs.addEntry d e) := by
  intro c hc i hi
  rcases mem_addEntry.mp hi with hi | ⟨-, rfl⟩
  · rw [addEntry_file_of_ne (h.listed_ne hc hi)]
    exact hn c hc i hi
  · rw [addEntry_file_self]
    exact hne

theorem NoEmpty.addDir (hn : NoEmpty fs) (h : FsTree fs) (hne : e.name ≠ []) :
    NoEmpty (fs.addDir d e) := by
  intro c hc i hi
  rcases mem_addDir.mp hi with hi | ⟨-, rfl⟩
  · have hc' : c < fs.dirCount := by
      by_contra hcn
      rw [h.fresh c (Nat.not_lt.mp hcn)] at hi
      exact List.not_mem_nil hi
    rw [addDir_file_of_ne (h.listed_ne hc' hi)]
    exact hn c hc' i hi
  · rw [addDir_file_self]
    exact hne

theorem NoEmpty.removeEntry (hn : NoEmpty fs) (h : FsTree fs) (hd : d < fs.dirCount)
    (hi : i ∈ (fs.directories d).files) : NoEmpty (fs.removeEntry i d) := by
  intro c hc j hj
  obtain ⟨hj, hji⟩ := (h.mem_removeEntry hd hi hc).mp hj
  rw [removeEntry_file_of_ne hji]
  exact hn c hc j hj

theorem NoEmpty.removeDir (hn : NoEmpty fs) (h : FsTree fs) (hd : d < fs.dirCount)
    (hi : i ∈ (fs.directories d).files) : NoEmpty (fs.removeDir k i d) := by
  intro c hc j hj
  rw [removeDir_files, ← removeEntry_files] at hj
  exact hn.removeEntry h hd hi c hc j hj

theorem NoEmpty.setData (hn : NoEmpty fs) (ptr size : Nat) : NoEmpty (fs.setData i ptr size) := by
  intro c hc j hj
  rw [setData_name]
  exact hn c hc j hj

end NoEmpty

/-! ### One step -/

variable {σ : Type} {A : Allocator σ} {st : FsState σ} {path : List UInt8}

structure NamesInv (st : FsState σ) : Prop extends FsInv st where
  noEmpty : NoEmpty st.fs

theorem NamesInv.delete (h : NamesInv st) (hp : IsPath path) :
    ∃ r st', fsDelete A path st = some (r, st') ∧ NamesInv st' := by
  obtain ⟨r, st', he, hI⟩ := h.toFsInv.delete (A := A) hp
  refine ⟨r, st', he, hI, ?_⟩
  rcases h.tree.fsDelete_cases (A := A) hp with ⟨he', -⟩ | ⟨i, hl, -, -, he'⟩ |
    ⟨i, k, hl, -, -, -, -, he'⟩
  · rw [he, Option.some.injEq, Prod.mk.injEq] at he'
    rw [he'.2]
    exact h.noEmpty
  · rw [he, Option.some.injEq, Prod.mk.injEq] at he'
    obtain ⟨hi, hd, -, -, -⟩ := h.tree.lookup_some hl
    rw [he'.2]
    exact h.noEmpty.removeEntry h.tree hd hi
  · rw [he, Option.some.injEq, Prod.mk.injEq] at he'
    obtain ⟨hi, hd, -, -, -⟩ := h.tree.lookup_some hl
    rw [he'.2]
    exact h.noEmpty.removeDir h.tree hd hi

theorem NamesInv.write (h : NamesInv st) (hp : IsPath path) (data : List UInt8) :
    ∃ r st', fsWrite A path data st = some (r, st') ∧ NamesInv st' := by
  obtain ⟨r, st', he, hI⟩ := h.toFsInv.write (A := A) hp data
  refine ⟨r, st', he, hI, ?_⟩
  rcases h.tree.fsWrite_cases (A := A) hp data with ⟨he', -⟩ | ⟨i, -, -, he'⟩
  · rw [he, Option.some.injEq, Prod.mk.injEq] at he'
    rw [he'.2]
    exact h.noEmpty
  · obtain ⟨ptr, size, hfs⟩ := st.writeData_fs (A := A) i data
    rw [he, Option.some.injEq] at he'
    have hst : st'.fs = st.fs.setData i ptr size := by
      rw [← hfs, ← he']
    rw [hst]
    exact h.noEmpty.setData ptr size

theorem lastName_ne_nil (hne : components path ≠ []) : lastName (components path) ≠ [] :=
  fun h => hne ((isParts_components path).lastName_eq_nil.mp h)

theorem NamesInv.create (h : NamesInv st) (hp : IsPath path) (hne : components path ≠ [])
    (size : Nat) : ∃ r st', fsCreate A path size st = some (r, st') ∧ NamesInv st' := by
  rcases h.tree.fsCreate_cases (A := A) hp size with ⟨-, he⟩ | ⟨d, -, -, -, he⟩ |
    ⟨d, -, -, -, -, htree, he⟩ | ⟨d, -, -, -, htree, he⟩
  · exact ⟨_, _, he, h⟩
  · exact ⟨_, _, he, h.toFsInv.withHeap _ _, h.noEmpty⟩
  · exact ⟨_, _, he, ⟨htree, h.cwd⟩, h.noEmpty.addEntry h.tree (lastName_ne_nil hne)⟩
  · exact ⟨_, _, he, ⟨htree, h.cwd⟩, h.noEmpty.addEntry h.tree (lastName_ne_nil hne)⟩

theorem FsTree.fsCreate_noRoom (h : FsTree st.fs) (hp : IsPath path) {size : Nat}
    (hroom : ¬HasRoom A path size st) : ∃ heap mem,
      fsCreate A path size st = some (-1, { st with heap := heap, mem := mem }) := by
  rcases h.fsCreate_cases (A := A) hp size with ⟨-, he⟩ | ⟨d, -, -, -, he⟩ |
    ⟨d, hd, -, -, hptr, -, -⟩ | ⟨d, hd, -, hsize, -, -⟩
  · exact ⟨_, _, he⟩
  · exact ⟨_, _, he⟩
  · exact absurd ⟨by simp [hd], fun _ => hptr⟩ hroom
  · exact absurd ⟨by simp [hd], fun h => absurd h (by omega)⟩ hroom

theorem FsTree.fsCreate_room (h : FsTree st.fs) (hp : IsPath path) {size : Nat}
    (hroom : HasRoom A path size st) : ∃ st', fsCreate A path size st = some (0, st') ∧
      st'.currentDirectory = st.currentDirectory ∧ FsTree st'.fs ∧
      st.fs.fileCount < st'.fs.fileCount := by
  rcases h.fsCreate_cases (A := A) hp size with ⟨hd, -⟩ | ⟨d, -, hsize, hptr, -⟩ |
    ⟨d, -, -, -, -, htree, he⟩ | ⟨d, -, -, -, htree, he⟩
  · exact absurd hd hroom.1
  · exact absurd hptr (hroom.2 hsize)
  · exact ⟨_, he, rfl, htree, Nat.lt_succ_self _⟩
  · exact ⟨_, he, rfl, htree, Nat.lt_succ_self _⟩

theorem FsTree.fsCopy_noRoom (h : FsTree st.fs) {srcPath destPath : List UInt8}
    (hs : IsPath srcPath) (hd : IsPath destPath) (hroom : ¬CopyHasRoom A srcPath destPath st) :
    ∃ heap mem, fsCopy A srcPath destPath st = some (-1, { st with heap := heap, mem := mem }) := by
  rw [h.fsCopy_eq hs hd]
  rw [CopyHasRoom] at hroom
  cases hl : lookup st.fs srcPath with
  | none => exact ⟨st.heap, st.mem, rfl⟩
  | some s =>
      rw [hl] at hroom
      dsimp only at hroom ⊢
      split
      · rename_i htype
        obtain ⟨heap, mem, he⟩ := h.fsCreate_noRoom hd fun h => hroom ⟨htype, h⟩
        exact ⟨heap, mem, by rw [he]; rfl⟩
      · exact ⟨st.heap, st.mem, rfl⟩

theorem FsTree.fsMove_noRoom (h : FsTree st.fs) {srcPath destPath : List UInt8}
    (hs : IsPath srcPath) (hd : IsPath destPath) (hroom : ¬CopyHasRoom A srcPath destPath st) :
    ∃ heap mem, fsMove A srcPath destPath st = some (-1, { st with heap := heap, mem := mem }) := by
  have hinit := h.not_initialized
  obtain ⟨heap, mem, he⟩ := h.fsCopy_noRoom hs hd hroom
  refine ⟨heap, mem, ?_⟩
  rw [fsMove, hinit, if_neg Bool.false_ne_true, he]
  rfl

/-- **One step keeps names.** -/
theorem fsStep_names (op : FsOp) (h : NamesInv st) (hp : op.HasPaths) (hfit : MkdirFits op st)
    (hnamed : Named A op st) : ∃ r st', fsStep A op st = some (r, st') ∧ NamesInv st' := by
  cases op with
  | mkdir path =>
      rw [fsStep]
      rcases h.tree.fsMkdir_cases (hp path (by simp [FsOp.paths])) hfit with
        ⟨-, he⟩ | ⟨d, hd, -, -, htree, he⟩
      · exact ⟨-1, st, by rw [he]; rfl, h⟩
      · have hne : components path ≠ [] := hnamed.resolve_right (by simp [hd])
        exact ⟨0, { st with fs := st.fs.addDir d (dirEntry st.fs path d) }, by rw [he]; rfl,
          ⟨htree, h.cwd⟩, h.noEmpty.addDir h.tree (lastName_ne_nil hne)⟩
  | create path size =>
      have hpath := hp path (by simp [FsOp.paths])
      rcases hnamed with hne | hroom
      · exact h.create hpath hne size
      · obtain ⟨heap, mem, he⟩ := h.tree.fsCreate_noRoom hpath hroom
        exact ⟨_, _, he, h.toFsInv.withHeap _ _, h.noEmpty⟩
  | delete path => exact h.delete (hp path (by simp [FsOp.paths]))
  | write path data => exact h.write (hp path (by simp [FsOp.paths])) data
  | copy srcPath destPath =>
      have hs := hp srcPath (by simp [FsOp.paths])
      have hd := hp destPath (by simp [FsOp.paths])
      rcases hnamed with hne | hroom
      · exact fsCopy_keeps (fun _ h => h.tree) (fun _ _ _ h => ⟨h.toFsInv.withHeap _ _, h.noEmpty⟩)
          (fun _ hp _ h => h.delete hp) (fun _ data _ hp _ h _ => h.write hp data)
          (fun i st h => h.create hd hne (st.fs.files i).size) hs hd h
      · obtain ⟨heap, mem, he⟩ := h.tree.fsCopy_noRoom hs hd hroom
        exact ⟨_, _, he, h.toFsInv.withHeap _ _, h.noEmpty⟩
  | move srcPath destPath =>
      have hs := hp srcPath (by simp [FsOp.paths])
      have hd := hp destPath (by simp [FsOp.paths])
      rcases hnamed with hne | hroom
      · exact fsMove_keeps (fun _ h => h.tree) (fun _ _ _ h => ⟨h.toFsInv.withHeap _ _, h.noEmpty⟩)
          (fun _ hp _ h => h.delete hp) (fun _ data _ hp _ h _ => h.write hp data)
          (fun i st h => h.create hd hne (st.fs.files i).size) hs hd h
      · obtain ⟨heap, mem, he⟩ := h.tree.fsMove_noRoom hs hd hroom
        exact ⟨_, _, he, h.toFsInv.withHeap _ _, h.noEmpty⟩
  | changeDir path =>
      obtain ⟨r, st', he, hI⟩ := fsStep_inv (A := A) (.changeDir path) h.toFsInv hp trivial
      obtain ⟨r', cwd, -, he'⟩ :=
        fsChangeDir_cwd h.tree h.cwd (hp path (by simp [FsOp.paths])).noNul
      rw [fsStep, he', Option.some.injEq, Prod.mk.injEq] at he
      rw [← he.2] at hI
      exact ⟨r', _, he', hI, h.noEmpty⟩

/-! ### Refusals -/

/-- More than `n` entries are in use. -/
structure Grown (n : Nat) (st : FsState σ) : Prop extends FsInv st where
  lt : n < st.fs.fileCount

theorem Grown.delete {n : Nat} (h : Grown n st) (hp : IsPath path) :
    ∃ r st', fsDelete A path st = some (r, st') ∧ Grown n st' := by
  obtain ⟨r, st', he, hI⟩ := h.toFsInv.delete (A := A) hp
  refine ⟨r, st', he, hI, ?_⟩
  rcases h.tree.fsDelete_cases (A := A) hp with ⟨he', -⟩ | ⟨i, -, -, -, he'⟩ |
    ⟨i, k, -, -, -, -, -, he'⟩
  all_goals
    rw [he, Option.some.injEq, Prod.mk.injEq] at he'
    rw [he'.2]
    exact h.lt

theorem Grown.write {n : Nat} (h : Grown n st) (hp : IsPath path) (data : List UInt8) :
    ∃ r st', fsWrite A path data st = some (r, st') ∧ Grown n st' := by
  obtain ⟨r, st', he, hI⟩ := h.toFsInv.write (A := A) hp data
  refine ⟨r, st', he, hI, ?_⟩
  rcases h.tree.fsWrite_cases (A := A) hp data with ⟨he', -⟩ | ⟨i, -, -, he'⟩
  · rw [he, Option.some.injEq, Prod.mk.injEq] at he'
    rw [he'.2]
    exact h.lt
  · obtain ⟨ptr, size, hfs⟩ := st.writeData_fs (A := A) i data
    rw [he, Option.some.injEq] at he'
    have hst : st'.fs = st.fs.setData i ptr size := by
      rw [← hfs, ← he']
    rw [hst]
    exact h.lt

theorem FsInv.fsCopy_room (h : FsInv st) {srcPath destPath : List UInt8} (hs : IsPath srcPath)
    (hd : IsPath destPath) (hroom : CopyHasRoom A srcPath destPath st) :
    ∃ r st', fsCopy A srcPath destPath st = some (r, st') ∧ Grown st.fs.fileCount st' := by
  rw [h.tree.fsCopy_eq hs hd]
  rw [CopyHasRoom] at hroom
  cases hl : lookup st.fs srcPath with
  | none =>
      rw [hl] at hroom
      exact hroom.elim
  | some s =>
      rw [hl] at hroom
      obtain ⟨htype, hroom⟩ := hroom
      have hlt : s < fsMaxFiles :=
        Nat.lt_of_lt_of_le (h.tree.lookup_some hl).2.2.1 h.tree.fileCount_le
      obtain ⟨st₁, he, hcwd, htree, hgrown⟩ := h.tree.fsCreate_room hd hroom
      have hI : Grown st.fs.fileCount st₁ := ⟨⟨htree, hcwd ▸ h.cwd⟩, hgrown⟩
      dsimp only
      rw [if_pos htype, he, Option.bind_some, if_neg (by simp)]
      exact fsCopyData_keeps (I := Grown st.fs.fileCount) (fun _ _ _ h => ⟨h.withHeap _ _, h.lt⟩)
        (fun _ hp _ h => h.delete hp) (fun _ data _ hp _ h _ => h.write hp data) hd hlt hI

theorem FsInv.fsMove_room (h : FsInv st) {srcPath destPath : List UInt8} (hs : IsPath srcPath)
    (hd : IsPath destPath) (hroom : CopyHasRoom A srcPath destPath st) :
    ∃ r st', fsMove A srcPath destPath st = some (r, st') ∧ Grown st.fs.fileCount st' := by
  have hinit := h.tree.not_initialized
  obtain ⟨r, st₁, he, hI₁⟩ := h.fsCopy_room hs hd hroom
  rw [fsMove, hinit, if_neg Bool.false_ne_true, he]
  simp only [Option.bind_eq_bind, Option.bind_some]
  split
  · exact ⟨-1, st₁, rfl, hI₁⟩
  · obtain ⟨r', st₂, he', hI₂⟩ := hI₁.delete (A := A) hs
    rw [he', Option.bind_some]
    dsimp only
    split
    · obtain ⟨r'', st₃, he'', hI₃⟩ := hI₂.delete (A := A) hd
      exact ⟨-1, st₃, by rw [he'']; rfl, hI₃⟩
    · exact ⟨0, st₂, rfl, hI₂⟩

theorem Grown.not_refused {op : FsOp} {r : Int} {st' : FsState σ}
    (hstep : fsStep A op st = some (r, st')) (h : st.fs.fileCount < st'.fs.fileCount) :
    ¬Refused A op st := by
  rintro ⟨t, ht, hfs, -⟩
  rw [hstep, Option.some.injEq, Prod.mk.injEq] at ht
  rw [ht.2, hfs] at h
  exact Nat.lt_irrefl _ h

theorem noRoom_of_lookup {size : Nat} (hl : lookup st.fs path ≠ none) :
    ¬HasRoom A path size st := by
  rintro ⟨hd, -⟩
  obtain ⟨d, hd⟩ := Option.ne_none_iff_exists'.mp hd
  exact hl (createParent_eq_some.mp hd).1

theorem copyNoRoom_of_lookup {srcPath destPath : List UInt8} (hl : lookup st.fs destPath ≠ none) :
    ¬CopyHasRoom A srcPath destPath st := by
  intro hroom
  rw [CopyHasRoom] at hroom
  split at hroom
  · exact hroom
  · exact noRoom_of_lookup hl hroom.2

/-- **A creating call refuses what exists** if and only if the condition holds of it. -/
theorem named_iff_refused (op : FsOp) (h : FsInv st) (hp : op.HasPaths) :
    Named A op st ↔ (op.NamesObject st.fs → Refused A op st) := by
  -- a call with a path without components that has room grows the tables
  have hback : ∀ (path : List UInt8) (room : Prop), op.dest = some path →
      (¬room → Refused A op st) → (room → ¬Refused A op st) →
      (lookup st.fs path ≠ none → ¬room) →
      ((components path ≠ [] ∨ ¬room) ↔ (op.NamesObject st.fs → Refused A op st)) := by
    intro path room hdest hnoRoom hroom hexists
    have hnames : op.NamesObject st.fs ↔ components path = [] ∨ lookup st.fs path ≠ none := by
      simp [FsOp.NamesObject, hdest]
    rw [hnames]
    constructor
    · rintro (hne | hno) hobj
      · exact hnoRoom (hexists (hobj.resolve_left hne))
      · exact hnoRoom hno
    · intro href
      by_contra hcon
      rw [not_or, not_not, not_not] at hcon
      exact hroom hcon.2 (href (Or.inl hcon.1))
  have hnone : op.dest = none → op.NamesObject st.fs → Refused A op st := by
    rintro hdest ⟨path, hpath, -⟩
    rw [hdest] at hpath
    exact absurd hpath (by simp)
  cases op with
  | mkdir path =>
      have heq := h.tree.fsMkdir_eq (hp path (by simp [FsOp.paths]))
      rw [Named, ← not_ne_iff (a := mkdirParent st.fs path)]
      refine hback path (mkdirParent st.fs path ≠ none) rfl ?_ ?_ ?_
      · intro hno
        rw [not_ne_iff.mp hno] at heq
        exact ⟨st, by rw [fsStep, heq]; rfl, rfl, rfl⟩
      · intro hroom
        obtain ⟨d, hd⟩ := Option.ne_none_iff_exists'.mp hroom
        rw [hd] at heq
        dsimp only at heq
        split at heq
        · have hstep : fsStep A (.mkdir path) st
              = some (0, { st with fs := st.fs.addDir d (dirEntry st.fs path d) }) := by
            rw [fsStep, heq]
            rfl
          exact Grown.not_refused hstep (Nat.lt_succ_self _)
        · -- the entry would be written behind the table
          rintro ⟨st', he, -⟩
          rw [fsStep, heq] at he
          cases he
      · intro hl hroom
        obtain ⟨d, hd⟩ := Option.ne_none_iff_exists'.mp hroom
        exact hl (mkdirParent_eq_some.mp hd).1
  | create path size =>
      have hpath := hp path (by simp [FsOp.paths])
      refine hback path (HasRoom A path size st) rfl ?_ ?_ noRoom_of_lookup
      · intro hno
        obtain ⟨heap, mem, he⟩ := h.tree.fsCreate_noRoom hpath hno
        exact ⟨_, he, rfl, rfl⟩
      · intro hroom
        obtain ⟨st', he, -, -, hlt⟩ := h.tree.fsCreate_room hpath hroom
        exact Grown.not_refused he hlt
  | copy srcPath destPath =>
      have hs := hp srcPath (by simp [FsOp.paths])
      have hd := hp destPath (by simp [FsOp.paths])
      refine hback destPath (CopyHasRoom A srcPath destPath st) rfl ?_ ?_ copyNoRoom_of_lookup
      · intro hno
        obtain ⟨heap, mem, he⟩ := h.tree.fsCopy_noRoom hs hd hno
        exact ⟨_, he, rfl, rfl⟩
      · intro hroom
        obtain ⟨r, st', he, hI⟩ := h.fsCopy_room hs hd hroom
        exact Grown.not_refused he hI.lt
  | move srcPath destPath =>
      have hs := hp srcPath (by simp [FsOp.paths])
      have hd := hp destPath (by simp [FsOp.paths])
      refine hback destPath (CopyHasRoom A srcPath destPath st) rfl ?_ ?_ copyNoRoom_of_lookup
      · intro hno
        obtain ⟨heap, mem, he⟩ := h.tree.fsMove_noRoom hs hd hno
        exact ⟨_, he, rfl, rfl⟩
      · intro hroom
        obtain ⟨r, st', he, hI⟩ := h.fsMove_room hs hd hroom
        exact Grown.not_refused he hI.lt
  | delete path => exact iff_of_true trivial (hnone rfl)
  | write path data => exact iff_of_true trivial (hnone rfl)
  | changeDir path => exact iff_of_true trivial (hnone rfl)

/-! ### Paths that do not fit -/

section Long

variable {fs : Filesystem} {srcPath destPath : List UInt8}

theorem IsPath.not_overruns (h : IsPath path) : ¬PathOverruns fs path :=
  fun hov => absurd h.length_lt (Nat.not_lt.mpr hov.1)

/-- A path that names something is found up to its last component, however long it is. -/
theorem FsTree.overruns_of_names (h : FsTree fs) (hlen : fsMaxPathLen ≤ path.length)
    (hnames : components path = [] ∨ lookup fs path ≠ none) : PathOverruns fs path := by
  refine ⟨hlen, ?_⟩
  obtain ⟨d, hd⟩ : ∃ d, parentOf fs (components path) = some d := by
    rcases hnames with hnil | hl
    · exact ⟨0, by rw [hnil]; rfl⟩
    · obtain ⟨i, hi⟩ := Option.ne_none_iff_exists'.mp hl
      rw [lookup, if_neg (not_isRoot_of_le hlen), resolve, Option.bind_eq_some_iff] at hi
      exact ⟨_, hi.choose_spec.1⟩
  -- the directories on the way are those of the whole path
  have hprefix := components_dropLast_prefix (path.take (fsMaxPathLen - 1))
    (path.drop (fsMaxPathLen - 1))
  rw [List.take_append_drop] at hprefix
  obtain ⟨rest, hrest⟩ := hprefix
  rw [parentOf, ← hrest, walk_append, Option.bind_eq_some_iff] at hd
  obtain ⟨k, hk, -⟩ := hd
  refine ⟨k, ?_⟩
  rw [h.fsWalk_eq _ h.dirCount_pos, hk]
  rfl

theorem fsFind_of_overruns (h0 : (0 : UInt8) ∉ path) (h : PathOverruns fs path) :
    fsFind fs path = none := by
  obtain ⟨hlen, d, hd⟩ := h
  have hroot := not_isRoot_of_le hlen
  exact fsFind_none hroot (Int.natCast_nonneg d)
    ((fsFindParentDir_nonneg hroot h0 (Int.natCast_nonneg d)).mpr hd) (fsParsePath_of_le hlen h0)

theorem FsTree.fsFind_long (h : FsTree fs) (h0 : (0 : UInt8) ∉ path)
    (hlen : fsMaxPathLen ≤ path.length) (hov : ¬PathOverruns fs path) :
    fsFindParentDir fs path = some (-1) ∧ fsFind fs path = some (-1) := by
  have hroot := not_isRoot_of_le hlen
  have hparent : fsFindParentDir fs path = some (-1) := by
    have hwalk := h.fsWalk_eq (components (path.take (fsMaxPathLen - 1))).dropLast h.dirCount_pos
    cases hw : walk fs (components (path.take (fsMaxPathLen - 1))).dropLast 0 with
    | none =>
        rw [hw] at hwalk
        rw [fsFindParentDir, if_neg hroot, fsParsePath_take h0]
        exact hwalk
    | some d =>
        rw [hw] at hwalk
        exact absurd ⟨hlen, d, hwalk⟩ hov
  refine ⟨hparent, ?_⟩
  rw [fsFind, if_neg hroot, hparent]
  rfl

theorem fsMkdir_of_overruns (hinit : fs.initialized = true) (h0 : (0 : UInt8) ∉ path)
    (h : PathOverruns fs path) : fsMkdir path fs = none := by
  rw [fsMkdir, hinit, if_neg (by decide), fsFind_of_overruns h0 h]
  rfl

theorem FsTree.fsMkdir_long (h : FsTree fs) (h0 : (0 : UInt8) ∉ path)
    (hlen : fsMaxPathLen ≤ path.length) (hov : ¬PathOverruns fs path) :
    fsMkdir path fs = some (-1, fs) := by
  obtain ⟨hparent, hfind⟩ := h.fsFind_long h0 hlen hov
  rw [fsMkdir, h.not_initialized, if_neg (by decide), hfind, Option.bind_eq_bind,
    Option.bind_some, if_neg (by decide), hparent]
  rfl

theorem fsCreate_of_overruns (hinit : st.fs.initialized = true) (h0 : (0 : UInt8) ∉ path)
    (h : PathOverruns st.fs path) (size : Nat) : fsCreate A path size st = none := by
  rw [fsCreate, hinit, if_neg (by decide), fsFind_of_overruns h0 h]
  rfl

theorem FsTree.fsCreate_long (h : FsTree st.fs) (h0 : (0 : UInt8) ∉ path)
    (hlen : fsMaxPathLen ≤ path.length) (hov : ¬PathOverruns st.fs path) (size : Nat) :
    fsCreate A path size st = some (-1, st) := by
  obtain ⟨hparent, hfind⟩ := h.fsFind_long h0 hlen hov
  rw [fsCreate, h.not_initialized, if_neg (by decide), hfind, Option.bind_eq_bind,
    Option.bind_some, if_neg (by decide), hparent]
  rfl

theorem FsTree.fsCopy_of_overruns (h : FsTree st.fs) (hs : (0 : UInt8) ∉ srcPath)
    (hd : (0 : UInt8) ∉ destPath) (hov : CopyOverruns st.fs srcPath destPath) :
    fsCopy A srcPath destPath st = none := by
  have hsource : PathOverruns st.fs srcPath → fsCopy A srcPath destPath st = none := by
    intro hov
    rw [fsCopy, h.not_initialized, if_neg (by decide), fsFind_of_overruns hs hov]
    rfl
  rcases hov with hov | ⟨⟨s, hl, htype⟩, hov⟩
  · exact hsource hov
  · by_cases hlen : srcPath.length < fsMaxPathLen
    · rw [h.fsCopy_source ⟨hs, hlen⟩, hl]
      dsimp only
      rw [if_pos htype, fsFind_of_overruns hd hov]
      rfl
    · exact hsource (h.overruns_of_names (Nat.not_lt.mp hlen) (Or.inr (by simp [hl])))

theorem FsTree.fsCopy_long (h : FsTree st.fs) (hs : (0 : UInt8) ∉ srcPath)
    (hd : (0 : UInt8) ∉ destPath)
    (hlen : fsMaxPathLen ≤ srcPath.length ∨ fsMaxPathLen ≤ destPath.length)
    (hov : ¬CopyOverruns st.fs srcPath destPath) :
    fsCopy A srcPath destPath st = some (-1, st) := by
  obtain ⟨hovs, hovd⟩ := not_or.mp hov
  by_cases hsrc : srcPath.length < fsMaxPathLen
  · rw [h.fsCopy_source ⟨hs, hsrc⟩]
    cases hl : lookup st.fs srcPath with
    | none => rfl
    | some s =>
        dsimp only
        by_cases htype : (st.fs.files s).type = .file
        · have hdest := hlen.resolve_left (Nat.not_le.mpr hsrc)
          have hovd' : ¬PathOverruns st.fs destPath := fun h => hovd ⟨⟨s, hl, htype⟩, h⟩
          rw [if_pos htype, (h.fsFind_long hd hdest hovd').2, Option.bind_some,
            if_neg (by decide), h.fsCreate_long hd hdest hovd']
          rfl
        · rw [if_neg htype]
  · rw [fsCopy, h.not_initialized, if_neg (by decide),
      (h.fsFind_long hs (Nat.not_lt.mp hsrc) hovs).2]
    rfl

/-- **A call that reads beyond a buffer** is undefined. -/
theorem FsOp.Overruns.undefined {op : FsOp} (hov : op.Overruns st.fs) (h : FsTree st.fs)
    (h0 : ∀ path ∈ op.paths, (0 : UInt8) ∉ path) : fsStep A op st = none := by
  cases op with
  | mkdir path =>
      rw [fsStep, fsMkdir_of_overruns h.initialized (h0 path (by simp [FsOp.paths])) hov]
      rfl
  | create path size =>
      exact fsCreate_of_overruns h.initialized (h0 path (by simp [FsOp.paths])) hov size
  | copy srcPath destPath =>
      exact h.fsCopy_of_overruns (h0 srcPath (by simp [FsOp.paths]))
        (h0 destPath (by simp [FsOp.paths])) hov
  | move srcPath destPath =>
      have hcopy : fsCopy A srcPath destPath st = none :=
        h.fsCopy_of_overruns (h0 srcPath (by simp [FsOp.paths]))
          (h0 destPath (by simp [FsOp.paths])) hov
      rw [fsStep, fsMove, h.not_initialized, if_neg (by decide), hcopy]
      rfl
  | _ => exact hov.elim

theorem FsOp.HasPaths.not_overruns {op : FsOp} (hp : op.HasPaths) : ¬op.Overruns fs := by
  have hfits : ∀ path ∈ op.paths, ¬PathOverruns fs path := fun path h => (hp path h).not_overruns
  cases op with
  | mkdir path => exact hfits path (by simp [FsOp.paths])
  | create path size => exact hfits path (by simp [FsOp.paths])
  | copy srcPath destPath | move srcPath destPath =>
      rintro (hov | ⟨-, hov⟩)
      · exact hfits srcPath (by simp [FsOp.paths]) hov
      · exact hfits destPath (by simp [FsOp.paths]) hov
  | _ => exact id

/-- With a path that does not fit a creating call fails, unless it reads beyond a buffer. -/
theorem FsTree.fsStep_long {op : FsOp} (h : FsTree st.fs)
    (h0 : ∀ path ∈ op.paths, (0 : UInt8) ∉ path) (hlong : ¬op.HasPaths) (hdest : op.dest ≠ none)
    (hov : ¬op.Overruns st.fs) : fsStep A op st = some (-1, st) := by
  obtain ⟨path, hpath, hlen⟩ := FsOp.exists_long h0 hlong
  have hcopy : ∀ {srcPath destPath : List UInt8}, op.paths = [srcPath, destPath] →
      ¬CopyOverruns st.fs srcPath destPath → fsCopy A srcPath destPath st = some (-1, st) := by
    intro srcPath destPath hpaths hov
    rw [hpaths] at h0 hpath
    refine h.fsCopy_long (h0 srcPath (by simp)) (h0 destPath (by simp)) ?_ hov
    rcases List.mem_cons.mp hpath with rfl | hpath
    · exact Or.inl hlen
    · exact Or.inr (List.mem_singleton.mp hpath ▸ hlen)
  cases op with
  | mkdir p =>
      obtain rfl := List.mem_singleton.mp hpath
      rw [fsStep, h.fsMkdir_long (h0 path hpath) hlen hov]
      rfl
  | create p size =>
      obtain rfl := List.mem_singleton.mp hpath
      exact h.fsCreate_long (h0 path hpath) hlen hov size
  | copy srcPath destPath => exact hcopy rfl hov
  | move srcPath destPath =>
      rw [fsStep, fsMove, h.not_initialized, if_neg (by decide), hcopy rfl hov]
      rfl
  | delete p | write p data | changeDir p => exact absurd rfl hdest

/-- A call with a path that does not fit, for which there would be room under a path without
components. -/
theorem FsTree.overruns_of_not_named {op : FsOp} (h : FsTree st.fs)
    (h0 : ∀ path ∈ op.paths, (0 : UInt8) ∉ path) (hlong : ¬op.HasPaths)
    (hnamed : ¬Named A op st) : op.Overruns st.fs := by
  obtain ⟨path, hpath, hlen⟩ := FsOp.exists_long h0 hlong
  have hcopy : ∀ {srcPath destPath : List UInt8}, op.paths = [srcPath, destPath] →
      ¬(components destPath ≠ [] ∨ ¬CopyHasRoom A srcPath destPath st) →
      CopyOverruns st.fs srcPath destPath := by
    intro srcPath destPath hpaths hnamed
    rw [not_or, not_not, not_not, CopyHasRoom] at hnamed
    obtain ⟨hnil, hroom⟩ := hnamed
    rw [hpaths] at hpath
    split at hroom
    · exact hroom.elim
    · rename_i s hl
      rcases List.mem_cons.mp hpath with rfl | hpath
      · exact Or.inl (h.overruns_of_names hlen (Or.inr (by simp [hl])))
      · obtain rfl := List.mem_singleton.mp hpath
        exact Or.inr ⟨⟨s, hl, hroom.1⟩, h.overruns_of_names hlen (Or.inl hnil)⟩
  cases op with
  | mkdir p =>
      obtain rfl := List.mem_singleton.mp hpath
      exact h.overruns_of_names hlen (Or.inl (not_not.mp (not_or.mp hnamed).1))
  | create p size =>
      obtain rfl := List.mem_singleton.mp hpath
      exact h.overruns_of_names hlen (Or.inl (not_not.mp (not_or.mp hnamed).1))
  | copy srcPath destPath => exact hcopy rfl hnamed
  | move srcPath destPath => exact hcopy rfl hnamed
  | delete p | write p data | changeDir p => exact absurd trivial hnamed

end Long

/-- **A creating call refuses what exists**, whatever its paths: what it creates has a name, or
there is no room for it, and no path is read beyond a buffer. -/
theorem refused_iff (op : FsOp) (h : FsInv st) (h0 : ∀ path ∈ op.paths, (0 : UInt8) ∉ path) :
    (Named A op st ∧ (op.NamesObject st.fs → ¬op.Overruns st.fs)) ↔
      (op.NamesObject st.fs → Refused A op st) := by
  by_cases hp : op.HasPaths
  · rw [← named_iff_refused op h hp]
    exact and_iff_left fun _ => hp.not_overruns
  have hobject : ¬Named A op st → op.NamesObject st.fs := by
    intro hnamed
    cases op with
    | mkdir path | create path size | copy srcPath destPath | move srcPath destPath =>
        exact ⟨_, rfl, Or.inl (not_not.mp (not_or.mp hnamed).1)⟩
    | delete path | write path data | changeDir path => exact absurd trivial hnamed
  have hdefined : Refused A op st → ¬op.Overruns st.fs := by
    rintro ⟨st', he, -⟩ hov
    rw [hov.undefined h.tree h0] at he
    cases he
  constructor
  · rintro ⟨-, hov⟩ hobj
    have hdest : op.dest ≠ none := by
      obtain ⟨path, hpath, -⟩ := hobj
      rw [hpath]
      exact Option.some_ne_none path
    exact ⟨st, h.tree.fsStep_long h0 hp hdest (hov hobj), rfl, rfl⟩
  · intro href
    refine ⟨?_, fun hobj => hdefined (href hobj)⟩
    by_contra hnamed
    exact hdefined (href (hobject hnamed)) (h.tree.overruns_of_not_named h0 hp hnamed)

/-! ### Runs -/

theorem fsStep_names_text {op : FsOp} (h : NamesInv st)
    (h0 : ∀ path ∈ op.paths, (0 : UInt8) ∉ path) (hnamed : Named A op st) {r : Int}
    {st' : FsState σ} (hstep : fsStep A op st = some (r, st')) : NamesInv st' := by
  by_cases hp : op.HasPaths
  · obtain ⟨r', t, he, ht⟩ :=
      fsStep_names op h hp (mkdirFits_of_step h.toFsInv hp hstep) hnamed
    obtain ⟨-, rfl⟩ := Prod.mk.inj (Option.some.inj (hstep.symm.trans he))
    exact ht
  · have hI := fsStep_text h.toFsInv h0 hstep
    cases op with
    | changeDir path =>
        obtain ⟨r', cwd, -, he⟩ := fsChangeDir_cwd h.tree h.cwd (h0 path (by simp [FsOp.paths]))
        obtain ⟨-, rfl⟩ := Prod.mk.inj (Option.some.inj (hstep.symm.trans he))
        exact ⟨hI, h.noEmpty⟩
    | _ =>
        obtain ⟨-, rfl⟩ := Prod.mk.inj (fsStep_of_le h0 (by simp) hp hstep)
        exact h

/-- **Names are unique and not empty** in every state of a run that creates nothing under a path
without components.  A call in such a state refuses what exists if and only if it does not
either, and reads no path beyond a buffer. -/
theorem fsRun_names (A : Allocator σ) (heap : σ) (mem : Mem) (ops : List FsOp)
    (h0 : ∀ op ∈ ops, ∀ path ∈ op.paths, (0 : UInt8) ∉ path)
    (hnamed : Machine.Meets (fsStep A) (Named A) ops (fsInitState heap mem)) :
    (∀ os st, Machine.run (fsStep A) ops (fsInitState heap mem) = some (os, st) →
      UniqueNames st.fs ∧ ∀ op : FsOp, (∀ path ∈ op.paths, (0 : UInt8) ∉ path) →
        ((Named A op st ∧ (op.NamesObject st.fs → ¬op.Overruns st.fs)) ↔
          (op.NamesObject st.fs → Refused A op st))) ∧
    ((∀ op ∈ ops, op.HasPaths) → Machine.Meets (fsStep A) Spare ops (fsInitState heap mem) →
      ∃ os st, Machine.run (fsStep A) ops (fsInitState heap mem) = some (os, st)) := by
  have hinit : NamesInv (fsInitState heap mem) := by
    refine ⟨fsInitState_inv heap mem, ?_⟩
    intro d _ i hi
    exact absurd (fsInit_files d ▸ hi) List.not_mem_nil
  refine ⟨fun os st hrun => ?_, fun hp hspare => ?_⟩
  · have hI : NamesInv st := by
      refine Machine.run_inv (G := fun op st =>
        (∀ path ∈ op.paths, (0 : UInt8) ∉ path) ∧ Named A op st)
        (fun op s r s' h hG hstep => fsStep_names_text h hG.1 hG.2 hstep) hinit ?_ hrun
      exact Machine.meets_and.mpr ⟨Machine.meets_of_forall (fun op hop _ => h0 op hop) _, hnamed⟩
    exact ⟨hI.tree.uniqueNames hI.noEmpty, fun op hop => refused_iff op hI.toFsInv hop⟩
  · obtain ⟨os, st, hrun, -⟩ := fsRun_inv hp hinit.toFsInv (hspare.mono fun _ _ h => h.mkdirFits)
    exact ⟨os, st, hrun⟩

/-- A directory, a file in it, and another spelling of the directory, which is refused. -/
theorem fsRun_names_mkdir : ∃ st, Machine.run (fsStep noMemory)
      [.mkdir [slash, 97], .create [slash, 97, slash, 98] 0, .mkdir [slash, 97, slash]]
      (fsInitState () ⟨fun _ => 0⟩) = some ([0, 0, -1], st) ∧
    UniqueNames st.fs ∧ Refused noMemory (.create [slash, 97, slash, slash, 98] 0) st := by
  have hcode : (Machine.run (fsStep noMemory)
      [.mkdir [slash, 97], .create [slash, 97, slash, 98] 0, .mkdir [slash, 97, slash]]
      (fsInitState () ⟨fun _ => 0⟩)).map (fun r => decide (r.1 = [0, 0, -1] ∧
        lookup r.2.fs [slash, 97, slash, slash, 98] = some 1)) = some true := by
    decide +kernel
  obtain ⟨⟨os, st⟩, hrun, hst⟩ := Option.map_eq_some_iff.mp hcode
  obtain ⟨rfl, hl⟩ := of_decide_eq_true hst
  obtain ⟨hunique, hrefuse⟩ := (fsRun_names noMemory () ⟨fun _ => 0⟩ _ (by decide)
    (by decide +kernel)).1 _ st hrun
  have hnames : FsOp.NamesObject (.create [slash, 97, slash, slash, 98] 0) st.fs :=
    ⟨_, rfl, Or.inr (by rw [hl]; exact Option.some_ne_none 1)⟩
  refine ⟨st, hrun, hunique, (hrefuse _ (by decide)).mp ⟨Or.inl (by decide +kernel), ?_⟩ hnames⟩
  exact fun _ => FsOp.HasPaths.not_overruns (by decide)

/-- `fs_mkdir("/")` succeeds: the root gets an entry with an empty name. -/
theorem fsMkdir_root : ∃ st, fsStep noMemory (.mkdir [slash]) (fsInitState () ⟨fun _ => 0⟩)
      = some (0, st) ∧ 0 ∈ (st.fs.directories 0).files ∧ (st.fs.files 0).name = [] := by
  refine ⟨_, fsInitState_mkdir (by decide) (by decide), ?_, ?_⟩
  · exact mem_addDir.mpr (Or.inr ⟨rfl, rfl⟩)
  · have hself : (fsInit.addDir 0 (dirEntry fsInit [slash] 0)).files fsInit.fileCount = _ :=
      addDir_file_self
    exact congrArg FsEntry.name hself

end AceOS.Drivers.Fs
