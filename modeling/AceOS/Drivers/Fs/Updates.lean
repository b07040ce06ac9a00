import AceOS.Drivers.Fs.Tree

/-!
# The updates keep the tree

A new file touches the lists only, and a new directory brings its slot with it.
A file, or an entry without a name, leaves its list; a directory that lists nothing
leaves its list and its slot loses the name.
-/

namespace AceOS.Drivers.Fs

open Filesystem

namespace FsTree

variable {fs : Filesystem} {d i k : Nat} {e : FsEntry}

theorem ne_root (h : FsTree fs) (hname : IsName (fs.directories k).name) : k ≠ 0 := by
  rintro rfl
  rw [h.root_name] at hname
  exact hname.noSlash (List.mem_singleton_self _)

/-! ### New entries -/

theorem addFile (h : FsTree fs) (hd : d < fs.dirCount) (hlive : (fs.directories d).name ≠ [])
    (hfc : fs.fileCount < fsMaxFiles) (hlen : (fs.directories d).files.length < fsMaxFilesPerDir)
    (hparent : e.parentDir = d) (htype : e.type = .file) (hname : IsName e.name)
    (hnew : ∀ j ∈ (fs.directories d).files, (fs.files j).name = e.name → e.name = [])
    (hempty : e.name = [] → d = 0) : FsTree (fs.addEntry d e) where
  toFsLists := h.toFsLists.addEntry hd hfc hlen hparent hname hnew hempty
  root_name := addEntry_dir_name.trans h.root_name
  root_parent := addEntry_dir_parentDir.trans h.root_parent
  slot := by
    intro c hc i hi hdir hne
    rcases mem_addEntry.mp hi with hold | ⟨-, rfl⟩
    · rw [addEntry_file_of_ne (h.listed_ne hc hold)] at hdir hne ⊢
      obtain ⟨k, hk, hkname, hkparent⟩ := h.slot c hc i hold hdir hne
      exact ⟨k, hk, addEntry_dir_name.trans hkname, addEntry_dir_parentDir.trans hkparent⟩
    · rw [addEntry_file_self, htype] at hdir
      exact absurd hdir (by decide)
  slot_unique := by
    simp only [addEntry_dir_name, addEntry_dir_parentDir]
    exact h.slot_unique
  slot_parent_lt := by
    simp only [addEntry_dir_parentDir]
    exact h.slot_parent_lt
  slot_live := by
    simp only [addEntry_dir_name, addEntry_dir_parentDir]
    exact h.slot_live
  slot_entry := by
    simp only [addEntry_dir_name, addEntry_dir_parentDir]
    intro k hk h0 hne
    obtain ⟨i, hi, hdir, hiname⟩ := h.slot_entry k hk h0 hne
    have hp : (fs.directories k).parentDir < fs.dirCount :=
      Nat.lt_trans (h.slot_parent_lt k hk h0) hk
    refine ⟨i, mem_addEntry.mpr (Or.inl hi), ?_⟩
    rw [addEntry_file_of_ne (h.listed_ne hp hi)]
    exact ⟨hdir, hiname⟩
  tombstone := by
    intro k hk hkname
    rw [addEntry_dir_name] at hkname
    have hkd : k ≠ d := by
      rintro rfl
      exact hlive hkname
    rw [addEntry_dir_of_ne hkd]
    exact h.tombstone k hk hkname

theorem addDir (h : FsTree fs) (hd : d < fs.dirCount) (hlive : (fs.directories d).name ≠ [])
    (hfc : fs.fileCount < fsMaxFiles) (hdc : fs.dirCount < fsMaxDirectories)
    (hlen : (fs.directories d).files.length < fsMaxFilesPerDir)
    (hparent : e.parentDir = d) (htype : e.type = .directory) (hname : IsName e.name)
    (hnew : ∀ j ∈ (fs.directories d).files, (fs.files j).name = e.name → e.name = [])
    (hempty : e.name = [] → d = 0) : FsTree (fs.addDir d e) := by
  have hdn : d ≠ fs.dirCount := Nat.ne_of_lt hd
  have h0n : 0 ≠ fs.dirCount := Nat.ne_of_lt h.dirCount_pos
  have hlt : ∀ {k : Nat}, k < (fs.addDir d e).dirCount → k ≠ fs.dirCount → k < fs.dirCount := by
    intro k hk hkn
    exact Nat.lt_of_le_of_ne (Nat.le_of_lt_succ hk) hkn
  -- the new slot is the only one with its name and parent
  have hfreshSlot : ∀ k < fs.dirCount, e.name ≠ [] → (fs.directories k).name = e.name →
      (fs.directories k).parentDir ≠ d := by
    intro k hk hne hkname hkparent
    have hk0 : k ≠ 0 := h.ne_root (hkname ▸ hname)
    obtain ⟨i, hi, -, hiname⟩ :=
      h.slot_entry k hk (Nat.pos_of_ne_zero hk0) (hkname ▸ hne)
    rw [hkparent] at hi
    exact hne (hnew i hi (hiname.trans hkname))
  refine
    { toFsLists := (h.toFsLists.addEntry hd hfc hlen hparent hname hnew hempty).addSlot hdc
      root_name := (addDir_name_of_ne h0n).trans h.root_name
      root_parent := (addDir_parentDir_of_ne h0n).trans h.root_parent
      slot := ?_
      slot_unique := ?_
      slot_parent_lt := ?_
      slot_live := ?_
      slot_entry := ?_
      tombstone := ?_ }
  · intro c hc i hi hdir hne
    rcases mem_addDir.mp hi with hold | ⟨rfl, rfl⟩
    · have hc' : c < fs.dirCount := by
        by_contra hcn
        rw [h.fresh c (Nat.not_lt.mp hcn)] at hold
        exact List.not_mem_nil hold
      have hin := h.listed_ne hc' hold
      change ((fs.addDir d e).files i).type = _ at hdir
      change ((fs.addDir d e).files i).name ≠ _ at hne
      change ∃ k < fs.dirCount + 1,
        ((fs.addDir d e).directories k).name = ((fs.addDir d e).files i).name ∧
          ((fs.addDir d e).directories k).parentDir = c
      rw [addDir_file_of_ne hin] at hdir hne ⊢
      obtain ⟨k, hk, hkname, hkparent⟩ := h.slot c hc' i hold hdir hne
      have hkn : k ≠ fs.dirCount := Nat.ne_of_lt hk
      exact ⟨k, Nat.lt_succ_of_lt hk, (addDir_name_of_ne hkn).trans hkname,
        (addDir_parentDir_of_ne hkn).trans hkparent⟩
    · exact ⟨fs.dirCount, Nat.lt_succ_self _, by rw [addDir_file_self, addDir_name_self],
        addDir_parentDir_self⟩
  · intro k hk l hl hne hname' hparent'
    by_cases hkn : k = fs.dirCount
    · subst hkn
      by_cases hln : l = fs.dirCount
      · exact hln.symm
      · rw [addDir_name_self] at hne hname'
        rw [addDir_name_of_ne hln] at hname'
        rw [addDir_parentDir_self, addDir_parentDir_of_ne hln] at hparent'
        exact absurd hparent'.symm (hfreshSlot l (hlt hl hln) hne hname'.symm)
    · rw [addDir_name_of_ne hkn] at hne hname'
      rw [addDir_parentDir_of_ne hkn] at hparent'
      by_cases hln : l = fs.dirCount
      · subst hln
        rw [addDir_name_self] at hname'
        rw [addDir_parentDir_self] at hparent'
        exact absurd hparent' (hfreshSlot k (hlt hk hkn) (hname' ▸ hne) hname')
      · rw [addDir_name_of_ne hln] at hname'
        rw [addDir_parentDir_of_ne hln] at hparent'
        exact h.slot_unique k (hlt hk hkn) l (hlt hl hln) hne hname' hparent'
  · intro k hk h0
    by_cases hkn : k = fs.dirCount
    · subst hkn
      rw [addDir_parentDir_self]
      exact hd
    · rw [addDir_parentDir_of_ne hkn]
      exact h.slot_parent_lt k (hlt hk hkn) h0
  · intro k hk h0 hne
    by_cases hkn : k = fs.dirCount
    · subst hkn
      rw [addDir_parentDir_self, addDir_name_of_ne hdn]
      exact hlive
    · have hp := h.slot_parent_lt k (hlt hk hkn) h0
      rw [addDir_name_of_ne hkn] at hne
      rw [addDir_parentDir_of_ne hkn,
        addDir_name_of_ne (Nat.ne_of_lt (Nat.lt_trans hp (hlt hk hkn)))]
      exact h.slot_live k (hlt hk hkn) h0 hne
  · intro k hk h0 hne
    by_cases hkn : k = fs.dirCount
    · subst hkn
      rw [addDir_parentDir_self, addDir_name_self]
      exact ⟨fs.fileCount, mem_addDir.mpr (Or.inr ⟨rfl, rfl⟩),
        by rw [addDir_file_self]; exact htype, by rw [addDir_file_self]⟩
    · have hp := h.slot_parent_lt k (hlt hk hkn) h0
      rw [addDir_name_of_ne hkn] at hne
      rw [addDir_parentDir_of_ne hkn, addDir_name_of_ne hkn]
      obtain ⟨i, hi, hdir, hiname⟩ := h.slot_entry k (hlt hk hkn) h0 hne
      refine ⟨i, mem_addDir.mpr (Or.inl hi), ?_⟩
      rw [addDir_file_of_ne (h.listed_ne (Nat.lt_trans hp (hlt hk hkn)) hi)]
      exact ⟨hdir, hiname⟩
  · intro k hk hkname
    by_cases hkn : k = fs.dirCount
    · subst hkn
      rw [Filesystem.addDir, addSlot_files, addEntry_dir_of_ne hdn.symm]
      exact h.fresh _ (Nat.le_refl _)
    · rw [addDir_name_of_ne hkn] at hkname
      have hkd : k ≠ d := by
        rintro rfl
        exact hlive hkname
      rw [addDir_dir_of_ne hkn, addEntry_dir_of_ne hkd]
      exact h.tombstone k (hlt hk hkn) hkname

/-! ### Entries taken away -/

/-- **A file, or an entry without a name, can go.** -/
theorem removeEntry (h : FsTree fs) (hd : d < fs.dirCount) (hi : i ∈ (fs.directories d).files)
    (hfile : (fs.files i).type = .file ∨ (fs.files i).name = []) :
    FsTree (fs.removeEntry i d) where
  toFsLists := h.toFsLists.removeEntry hd hi
  root_name := removeEntry_dir_name.trans h.root_name
  root_parent := removeEntry_dir_parentDir.trans h.root_parent
  slot := by
    intro c hc j hj hdir hne
    obtain ⟨hj, hji⟩ := (h.mem_removeEntry hd hi hc).mp hj
    rw [removeEntry_file_of_ne hji] at hdir hne ⊢
    obtain ⟨k, hk, hkname, hkparent⟩ := h.slot c hc j hj hdir hne
    exact ⟨k, hk, removeEntry_dir_name.trans hkname, removeEntry_dir_parentDir.trans hkparent⟩
  slot_unique := by
    simp only [removeEntry_dir_name, removeEntry_dir_parentDir]
    exact h.slot_unique
  slot_parent_lt := by
    simp only [removeEntry_dir_parentDir]
    exact h.slot_parent_lt
  slot_live := by
    simp only [removeEntry_dir_name, removeEntry_dir_parentDir]
    exact h.slot_live
  slot_entry := by
    simp only [removeEntry_dir_name, removeEntry_dir_parentDir]
    intro k hk h0 hne
    obtain ⟨j, hj, hdir, hjname⟩ := h.slot_entry k hk h0 hne
    have hp : (fs.directories k).parentDir < fs.dirCount :=
      Nat.lt_trans (h.slot_parent_lt k hk h0) hk
    have hji : j ≠ i := by
      rintro rfl
      rcases hfile with hfile | hfile
      · rw [hdir] at hfile
        exact absurd hfile (by decide)
      · exact hne (hjname.symm.trans hfile)
    refine ⟨j, (h.mem_removeEntry hd hi hp).mpr ⟨hj, hji⟩, ?_⟩
    rw [removeEntry_file_of_ne hji]
    exact ⟨hdir, hjname⟩
  tombstone := by
    intro k hk hkname
    rw [removeEntry_dir_name] at hkname
    rw [removeEntry_files, h.tombstone k hk hkname]
    split <;> rfl

theorem removeDir (h : FsTree fs) (hd : d < fs.dirCount) (hi : i ∈ (fs.directories d).files)
    (hne : (fs.files i).name ≠ []) (hk : k < fs.dirCount)
    (hkname : (fs.directories k).name = (fs.files i).name)
    (hkparent : (fs.directories k).parentDir = d) (hempty : (fs.directories k).files = []) :
    FsTree (fs.removeDir k i d) := by
  have hk0 : k ≠ 0 := h.ne_root (hkname ▸ h.listed_name d hd i hi)
  have hname : ∀ {l : Nat}, l ≠ k → ((fs.removeDir k i d).directories l).name
      = (fs.directories l).name := by
    intro l hl
    rw [removeDir_name, if_neg hl]
  have hnameNil : ∀ {l : Nat}, ((fs.removeDir k i d).directories l).name ≠ [] → l ≠ k := by
    rintro l hl rfl
    rw [removeDir_name, if_pos rfl] at hl
    exact hl rfl
  have hmem : ∀ {c j : Nat}, c < fs.dirCount →
      (j ∈ ((fs.removeDir k i d).directories c).files ↔ j ∈ (fs.directories c).files ∧ j ≠ i) := by
    intro c j hc
    rw [removeDir_files, ← removeEntry_files]
    exact h.mem_removeEntry hd hi hc
  refine
    { toFsLists := h.toFsLists.clearSlot.removeEntry hd (by rw [clearSlot_files]; exact hi)
      root_name := (hname hk0.symm).trans h.root_name
      root_parent := removeDir_parentDir.trans h.root_parent
      slot := ?_
      slot_unique := ?_
      slot_parent_lt := ?_
      slot_live := ?_
      slot_entry := ?_
      tombstone := ?_ }
  · intro c hc j hj hdir hjne
    obtain ⟨hj, hji⟩ := (hmem hc).mp hj
    rw [removeDir_file_of_ne hji] at hdir hjne ⊢
    obtain ⟨l, hl, hlname, hlparent⟩ := h.slot c hc j hj hdir hjne
    have hlk : l ≠ k := by
      intro hlk
      rw [hlk, hkparent] at hlparent
      rw [hlk, hkname] at hlname
      rw [← hlparent] at hj
      exact hji (h.unique_name d hd j hj i hi hlname.symm hjne)
    exact ⟨l, hl, (hname hlk).trans hlname, removeDir_parentDir.trans hlparent⟩
  · intro l hl m hm hlne heq hparent
    have hlk := hnameNil hlne
    have hmk := hnameNil (heq ▸ hlne)
    rw [hname hlk] at hlne heq
    rw [hname hmk] at heq
    rw [removeDir_parentDir, removeDir_parentDir] at hparent
    exact h.slot_unique l hl m hm hlne heq hparent
  · simp only [removeDir_parentDir]
    exact h.slot_parent_lt
  · intro l hl h0 hlne
    have hlk := hnameNil hlne
    rw [hname hlk] at hlne
    have hpk : (fs.directories l).parentDir ≠ k := by
      intro hp
      obtain ⟨j, hj, -⟩ := h.slot_entry l hl h0 hlne
      rw [hp, hempty] at hj
      exact List.not_mem_nil hj
    rw [removeDir_parentDir, hname hpk]
    exact h.slot_live l hl h0 hlne
  · intro l hl h0 hlne
    have hlk := hnameNil hlne
    rw [hname hlk] at hlne ⊢
    rw [removeDir_parentDir]
    obtain ⟨j, hj, hdir, hjname⟩ := h.slot_entry l hl h0 hlne
    have hp : (fs.directories l).parentDir < fs.dirCount :=
      Nat.lt_trans (h.slot_parent_lt l hl h0) hl
    have hji : j ≠ i := by
      rintro rfl
      have hpd := h.listed_unique hp hd hj hi
      exact hlk (h.slot_unique l hl k hk hlne (hjname.symm.trans hkname.symm)
        (hpd.trans hkparent.symm))
    refine ⟨j, (hmem hp).mpr ⟨hj, hji⟩, ?_⟩
    rw [removeDir_file_of_ne hji]
    exact ⟨hdir, hjname⟩
  · intro l hl hlname
    have hl0 : (fs.directories l).files = [] := by
      by_cases hlk : l = k
      · rw [hlk, hempty]
      · rw [hname hlk] at hlname
        exact h.tombstone l hl hlname
    rw [removeDir_files, hl0]
    split <;> rfl

/-! ### New data -/

/-- Only names, types and parents of entries matter. -/
theorem setData (h : FsTree fs) (i ptr size : Nat) : FsTree (fs.setData i ptr size) := by
  refine
    { dirCount_pos := h.dirCount_pos
      dirCount_le := h.dirCount_le
      fileCount_le := h.fileCount_le
      listed_lt := h.listed_lt
      initialized := h.initialized
      length_le := h.length_le
      fresh := h.fresh
      nodup := h.nodup
      listed_parent := ?_
      named_listed := ?_
      listed_name := ?_
      unique_name := ?_
      empty_name := ?_
      root_name := h.root_name
      root_parent := h.root_parent
      slot := ?_
      slot_unique := h.slot_unique
      slot_parent_lt := h.slot_parent_lt
      slot_live := h.slot_live
      slot_entry := ?_
      tombstone := h.tombstone }
  all_goals simp only [setData_name, setData_type, setData_parentDir]
  · exact h.listed_parent
  · exact h.named_listed
  · exact h.listed_name
  · exact h.unique_name
  · exact h.empty_name
  · exact h.slot
  · exact h.slot_entry

end FsTree

end AceOS.Drivers.Fs
