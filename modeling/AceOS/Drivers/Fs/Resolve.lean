import AceOS.Drivers.Fs.Updates
import Mathlib.Data.List.Induction
import Mathlib.Data.List.Find
import Mathlib.Data.List.Infix

/-!
# What the updates do to lookups

In a tree a component leads from a directory to at most one slot, so a list of
components is the only way to the slot it leads to.  A new entry makes the lists that
name it resolvable if they were not, an entry taken away makes exactly the lists that
named it unresolvable, and every other list keeps what it names.
-/

namespace AceOS.Drivers.Fs

open Filesystem

def IsParts (parts : List (List UInt8)) : Prop := ∀ c ∈ parts, IsComponent c

theorem isParts_components (path : List UInt8) : IsParts (components path) :=
  fun c hc => (isComponent_of_mem c hc).1

theorem IsParts.dropLast {parts : List (List UInt8)} (h : IsParts parts) :
    IsParts parts.dropLast := fun c hc => h c (List.mem_of_mem_dropLast hc)

theorem lastName_append (parts : List (List UInt8)) (c : List UInt8) :
    lastName (parts ++ [c]) = c.take (fsMaxFilenameLen - 1) := by
  rw [lastName, List.getLast?_append]
  rfl

theorem IsParts.isName_lastName {parts : List (List UInt8)} (h : IsParts parts) :
    IsName (lastName parts) := by
  refine ⟨?_, List.length_take_le _ _⟩
  intro hmem
  rcases List.eq_nil_or_concat parts with rfl | ⟨l, c, rfl⟩
  · exact List.not_mem_nil hmem
  · rw [List.concat_eq_append] at hmem h
    rw [lastName_append] at hmem
    exact (h c (by simp)).noSlash (List.mem_of_mem_take hmem)

theorem IsParts.lastName_eq_nil {parts : List (List UInt8)} (h : IsParts parts) :
    lastName parts = [] ↔ parts = [] := by
  rcases List.eq_nil_or_concat parts with rfl | ⟨l, c, rfl⟩
  · simp [lastName]
  · rw [List.concat_eq_append] at h ⊢
    rw [lastName_append]
    have hne := (h c (by simp)).ne_nil
    simp [hne]

theorem walk_append (fs : Filesystem) (ps qs : List (List UInt8)) (d : Nat) :
    walk fs (ps ++ qs) d = (walk fs ps d).bind (walk fs qs) := by
  induction ps generalizing d with
  | nil => rfl
  | cons part ps ih =>
      rw [List.cons_append, walk, walk, Option.bind_assoc]
      congr 1
      funext k
      exact ih k

theorem walk_concat (fs : Filesystem) (ps : List (List UInt8)) (part : List UInt8) (d : Nat) :
    walk fs (ps ++ [part]) d = (walk fs ps d).bind fun c => subdir fs c part := by
  rw [walk_append]
  congr 1
  funext c
  rw [walk]
  cases subdir fs c part <;> rfl

namespace FsTree

variable {fs : Filesystem} {d i j k : Nat} {e : FsEntry} {part : List UInt8}
  {parts : List (List UInt8)}

/-! ### Slots -/

/-- **A component leads to the slot with its name below `d`.** -/
theorem subdir_eq_some_iff (h : FsTree fs) (hp : IsComponent part) :
    subdir fs d part = some k ↔
      k < fs.dirCount ∧ (fs.directories k).name = part ∧ (fs.directories k).parentDir = d := by
  constructor
  · intro hs
    exact slotOf_some (subdir_some hs)
  · rintro ⟨hk, hname, hparent⟩
    have hne : (fs.directories k).name ≠ [] := hname ▸ hp.ne_nil
    have hk0 : 0 < k := by
      refine Nat.pos_of_ne_zero ?_
      rintro rfl
      rw [h.root_name] at hname
      exact hp.noSlash (hname ▸ List.mem_singleton_self _)
    have hslot : slotOf fs part d = some k := by
      cases hs : slotOf fs part d with
      | none =>
          have := List.find?_eq_none.mp hs k (List.mem_range.mpr hk)
          exact absurd (decide_eq_true ⟨hname, hparent⟩) this
      | some l =>
          obtain ⟨hl, hlname, hlparent⟩ := slotOf_some hs
          rw [h.slot_unique k hk l hl hne (hname.trans hlname.symm) (hparent.trans hlparent.symm)]
    obtain ⟨i, hi, hdir, hiname⟩ := h.slot_entry k hk hk0 hne
    rw [hparent] at hi
    cases hs : subdir fs d part with
    | none =>
        have := List.findSome?_eq_none_iff.mp hs i hi
        rw [if_pos ⟨hdir, hiname.trans hname⟩, hslot] at this
        exact absurd this (by simp)
    | some l => exact (subdir_some hs).symm.trans hslot

theorem walk_live (hparts : IsParts parts)
    (hlive : (fs.directories d).name ≠ []) (hw : walk fs parts d = some k) :
    (fs.directories k).name ≠ [] := by
  induction parts generalizing d with
  | nil =>
      rw [walk, Option.some.injEq] at hw
      exact hw ▸ hlive
  | cons part parts ih =>
      rw [walk, Option.bind_eq_some_iff] at hw
      obtain ⟨c, hc, hw⟩ := hw
      have hpart := hparts part (List.mem_cons_self ..)
      obtain ⟨-, hcname, -⟩ := slotOf_some (subdir_some hc)
      exact ih (fun p hp => hparts p (List.mem_cons_of_mem _ hp))
        (hcname ▸ hpart.ne_nil) hw

theorem parentOf_live (h : FsTree fs) (hparts : IsParts parts) (hd : parentOf fs parts = some d) :
    (fs.directories d).name ≠ [] := by
  refine walk_live hparts.dropLast ?_ hd
  rw [h.root_name]
  simp

/-- **One list of components leads to a slot.** -/
theorem walk_inj (h : FsTree fs) {ps qs : List (List UInt8)} (hps : IsParts ps) (hqs : IsParts qs)
    (hp : walk fs ps 0 = some k) (hq : walk fs qs 0 = some k) : ps = qs := by
  induction ps using List.reverseRecOn generalizing qs k with
  | nil =>
      rw [walk, Option.some.injEq] at hp
      subst hp
      rcases List.eq_nil_or_concat qs with rfl | ⟨qs, c, rfl⟩
      · rfl
      · rw [List.concat_eq_append, walk_concat, Option.bind_eq_some_iff] at hq
        obtain ⟨d, -, hd⟩ := hq
        obtain ⟨-, hname, -⟩ := slotOf_some (subdir_some hd)
        rw [h.root_name] at hname
        exact absurd (hname ▸ List.mem_singleton_self _) (hqs c (by simp)).noSlash
  | append_singleton ps b ih =>
      rw [walk_concat, Option.bind_eq_some_iff] at hp
      obtain ⟨d, hwp, hd⟩ := hp
      obtain ⟨-, hname, hparent⟩ := slotOf_some (subdir_some hd)
      rcases List.eq_nil_or_concat qs with rfl | ⟨qs, c, rfl⟩
      · rw [walk, Option.some.injEq] at hq
        subst hq
        rw [h.root_name] at hname
        exact absurd (hname ▸ List.mem_singleton_self _) (hps b (by simp)).noSlash
      · rw [List.concat_eq_append] at hqs hq ⊢
        rw [walk_concat, Option.bind_eq_some_iff] at hq
        obtain ⟨d', hwq, hd'⟩ := hq
        obtain ⟨-, hname', hparent'⟩ := slotOf_some (subdir_some hd')
        have hdd : d' = d := hparent'.symm.trans hparent
        rw [hdd] at hwq
        rw [ih (fun c hc => hps c (List.mem_append_left _ hc))
          (fun c hc => hqs c (List.mem_append_left _ hc)) hwp hwq, ← hname, hname']

/-! ### Entries -/

theorem entryIn_some {name : List UInt8} (hi : entryIn fs d name = some i) :
    i ∈ (fs.directories d).files ∧ (fs.files i).name = name := by
  have h₁ := List.find?_some hi
  rw [decide_eq_true_iff] at h₁
  exact ⟨List.mem_of_find?_eq_some hi, h₁⟩

theorem entryIn_of_mem (h : FsTree fs) (hd : d < fs.dirCount) (hi : i ∈ (fs.directories d).files)
    (hne : (fs.files i).name ≠ []) : entryIn fs d (fs.files i).name = some i := by
  cases he : entryIn fs d (fs.files i).name with
  | none =>
      have := List.find?_eq_none.mp he i hi
      exact absurd (decide_eq_true rfl) this
  | some j =>
      obtain ⟨hj, hjname⟩ := entryIn_some he
      rw [h.unique_name d hd i hi j hj hjname.symm hne]

theorem resolve_some (h : FsTree fs) (hi : resolve fs parts = some i) :
    ∃ d, parentOf fs parts = some d ∧ d < fs.dirCount ∧ i ∈ (fs.directories d).files ∧
      (fs.files i).name = lastName parts ∧ (fs.files i).parentDir = d := by
  rw [resolve, Option.bind_eq_some_iff] at hi
  obtain ⟨d, hd, he⟩ := hi
  have hlt := h.parentOf_lt hd
  obtain ⟨hmem, hname⟩ := entryIn_some he
  exact ⟨d, hd, hlt, hmem, hname, h.listed_parent d hlt i hmem⟩

/-! ### Walks after an update -/

theorem walk_congr {fs' : Filesystem} (h : FsTree fs) (h' : FsTree fs')
    (hdc : fs'.dirCount = fs.dirCount)
    (hname : ∀ k, (fs'.directories k).name = (fs.directories k).name)
    (hparent : ∀ k, (fs'.directories k).parentDir = (fs.directories k).parentDir)
    (hparts : IsParts parts) : walk fs' parts d = walk fs parts d := by
  induction parts generalizing d with
  | nil => rfl
  | cons part parts ih =>
      have hpart := hparts part (List.mem_cons_self ..)
      have hsub : subdir fs' d part = subdir fs d part := by
        refine Option.ext ?_
        intro k
        rw [h'.subdir_eq_some_iff hpart, h.subdir_eq_some_iff hpart, hdc, hname, hparent]
      rw [walk, walk, hsub]
      congr 1
      funext k
      exact ih fun p hp => hparts p (List.mem_cons_of_mem _ hp)

theorem walk_addDir (h : FsTree fs) (h' : FsTree (fs.addDir d e)) (hparts : IsParts parts)
    {c : Nat} (hc : c < fs.dirCount) (hk : k < fs.dirCount) :
    walk (fs.addDir d e) parts c = some k ↔ walk fs parts c = some k := by
  induction parts using List.reverseRecOn generalizing k with
  | nil => rfl
  | append_singleton parts part ih =>
      have hinit : IsParts parts := fun p hp => hparts p (List.mem_append_left _ hp)
      have hpart := hparts part (by simp)
      have hkn : k ≠ fs.dirCount := Nat.ne_of_lt hk
      rw [walk_concat, walk_concat, Option.bind_eq_some_iff, Option.bind_eq_some_iff]
      refine exists_congr ?_
      intro l
      rw [h'.subdir_eq_some_iff hpart, h.subdir_eq_some_iff hpart, addDir_name_of_ne hkn,
        addDir_parentDir_of_ne hkn]
      constructor
      · rintro ⟨hw, hk', hname, hparent⟩
        have hl : l < fs.dirCount := by
          have hk0 : 0 < k := by
            refine Nat.pos_of_ne_zero ?_
            rintro rfl
            rw [h.root_name] at hname
            exact hpart.noSlash (hname ▸ List.mem_singleton_self _)
          have := h.slot_parent_lt k hk hk0
          omega
        exact ⟨(ih hinit hl).mp hw, hk, hname, hparent⟩
      · rintro ⟨hw, -, hname, hparent⟩
        exact ⟨(ih hinit (walk_lt hc hw)).mpr hw, Nat.lt_succ_of_lt hk, hname, hparent⟩

theorem walk_removeDir (h : FsTree fs) (h' : FsTree (fs.removeDir k i d)) (hk0 : k ≠ 0)
    (hempty : (fs.directories k).files = []) (hk : k < fs.dirCount) (hparts : IsParts parts)
    {c : Nat} : walk (fs.removeDir k i d) parts 0 = some c ↔ walk fs parts 0 = some c ∧ c ≠ k := by
  induction parts using List.reverseRecOn generalizing c with
  | nil =>
      rw [walk, walk, Option.some.injEq]
      refine (and_iff_left_of_imp ?_).symm
      rintro rfl
      exact hk0.symm
  | append_singleton parts part ih =>
      have hinit : IsParts parts := fun p hp => hparts p (List.mem_append_left _ hp)
      have hpart := hparts part (by simp)
      rw [walk_concat, walk_concat, Option.bind_eq_some_iff, Option.bind_eq_some_iff]
      constructor
      · rintro ⟨l, hw, hsub⟩
        rw [h'.subdir_eq_some_iff hpart, removeDir_name, removeDir_parentDir] at hsub
        obtain ⟨hc, hname, hparent⟩ := hsub
        have hck : c ≠ k := by
          rintro rfl
          rw [if_pos rfl] at hname
          exact hpart.ne_nil hname.symm
        rw [if_neg hck] at hname
        exact ⟨⟨l, ((ih hinit).mp hw).1, (h.subdir_eq_some_iff hpart).mpr ⟨hc, hname, hparent⟩⟩,
          hck⟩
      · rintro ⟨⟨l, hw, hsub⟩, hck⟩
        obtain ⟨hc, hname, hparent⟩ := (h.subdir_eq_some_iff hpart).mp hsub
        have hlk : l ≠ k := by
          rintro rfl
          obtain ⟨j, hj, -⟩ := h.slot_entry c hc (Nat.pos_of_ne_zero (by
            rintro rfl
            rw [h.root_name] at hname
            exact hpart.noSlash (hname ▸ List.mem_singleton_self _))) (hname ▸ hpart.ne_nil)
          rw [hparent, hempty] at hj
          exact List.not_mem_nil hj
        refine ⟨l, (ih hinit).mpr ⟨hw, hlk⟩, ?_⟩
        rw [h'.subdir_eq_some_iff hpart, removeDir_name, removeDir_parentDir, if_neg hck]
        exact ⟨hc, hname, hparent⟩

/-! ### Lists after an update -/

theorem entryIn_addEntry (h : FsTree fs) {c : Nat} (hc : c < fs.dirCount) (name : List UInt8) :
    entryIn (fs.addEntry d e) c name = if c = d ∧ e.name = name
      then (entryIn fs c name).or (some fs.fileCount) else entryIn fs c name := by
  have hold : ((fs.directories c).files.find? fun i =>
      decide (((fs.addEntry d e).files i).name = name)) = entryIn fs c name := by
    refine List.find?_congr ?_
    intro i hi
    rw [addEntry_file_of_ne (h.listed_ne hc hi)]
  by_cases hcd : c = d
  · subst hcd
    rw [entryIn, addEntry_dir_self, List.find?_append, hold, List.find?_singleton,
      addEntry_file_self]
    by_cases hname : e.name = name
    · simp [hname]
    · simp [hname]
  · rw [entryIn, addEntry_dir_of_ne hcd, hold, if_neg fun h => hcd h.1]

/-- What is found when `i` has left `d`, for a name that did not name `i`. -/
theorem entryIn_removeEntry_of_some (h : FsTree fs) (hd : d < fs.dirCount)
    (hi : i ∈ (fs.directories d).files) {c : Nat} (hc : c < fs.dirCount) {name : List UInt8}
    (hj : entryIn fs c name = some j) (hji : j ≠ i) :
    entryIn (fs.removeEntry i d) c name = some j := by
  have herase : ∀ l : List Nat, ∀ p : Nat → Bool, l.find? p = some j →
      (l.erase i).find? p = some j := by
    intro l p
    induction l with
    | nil => simp
    | cons a l ih =>
        intro hfind
        rw [List.find?_cons] at hfind
        rw [List.erase_cons]
        split at hfind
        · rename_i hp
          rw [Option.some.injEq] at hfind
          subst hfind
          rw [if_neg (by simpa using hji), List.find?_cons, hp]
        · rename_i hp
          split
          · exact hfind
          · rw [List.find?_cons, hp]
            exact ih hfind
  have hold : entryIn (fs.removeEntry i d) c name
      = ((fs.removeEntry i d).directories c).files.find? fun j => (fs.files j).name = name := by
    refine List.find?_congr ?_
    intro l hl
    rw [removeEntry_file_of_ne ((h.mem_removeEntry hd hi hc).mp hl).2]
  rw [hold, removeEntry_files]
  split
  · exact herase _ _ hj
  · exact hj

theorem entryIn_removeEntry (h : FsTree fs) (hd : d < fs.dirCount)
    (hi : i ∈ (fs.directories d).files) {c : Nat} (hc : c < fs.dirCount) {name : List UInt8}
    (hne : name ≠ []) :
    entryIn (fs.removeEntry i d) c name = if entryIn fs c name = some i then none
      else entryIn fs c name := by
  split
  · rename_i hci
    refine List.find?_eq_none.mpr ?_
    intro j hj
    rw [decide_eq_true_iff]
    intro hjname
    obtain ⟨hj, hji⟩ := (h.mem_removeEntry hd hi hc).mp hj
    rw [removeEntry_file_of_ne hji] at hjname
    obtain ⟨hic, hiname⟩ := entryIn_some hci
    exact hji (h.unique_name c hc j hj i hic (hjname.trans hiname.symm) (hjname ▸ hne))
  · rename_i hci
    cases hcj : entryIn fs c name with
    | some j =>
        rw [hcj, Option.some.injEq] at hci
        exact h.entryIn_removeEntry_of_some hd hi hc hcj hci
    | none =>
        refine List.find?_eq_none.mpr ?_
        intro j hj
        obtain ⟨hj, hji⟩ := (h.mem_removeEntry hd hi hc).mp hj
        rw [removeEntry_file_of_ne hji]
        exact List.find?_eq_none.mp hcj j hj

/-! ### Resolution after an update -/

/-- **A new file** is named by the lists with its parent and name, unless they named
something before. -/
theorem resolve_addEntry (h : FsTree fs) (h' : FsTree (fs.addEntry d e)) (hparts : IsParts parts) :
    resolve (fs.addEntry d e) parts = if parentOf fs parts = some d ∧ e.name = lastName parts
      then (resolve fs parts).or (some fs.fileCount) else resolve fs parts := by
  have hwalk : parentOf (fs.addEntry d e) parts = parentOf fs parts :=
    walk_congr h h' rfl (fun _ => addEntry_dir_name) (fun _ => addEntry_dir_parentDir)
      hparts.dropLast
  rw [resolve, resolve, hwalk]
  cases hp : parentOf fs parts with
  | none => simp
  | some c =>
      rw [Option.bind_some, Option.bind_some, h.entryIn_addEntry (h.parentOf_lt hp)]
      simp only [Option.some.injEq]

/-- **A new directory** is named like a new file; its slot lists nothing yet. -/
theorem resolve_addDir (h : FsTree fs) (h' : FsTree (fs.addDir d e)) (hd : d < fs.dirCount)
    (hparts : IsParts parts) :
    resolve (fs.addDir d e) parts = if parentOf fs parts = some d ∧ e.name = lastName parts
      then (resolve fs parts).or (some fs.fileCount) else resolve fs parts := by
  have hentry : ∀ c name, entryIn (fs.addDir d e) c name = entryIn (fs.addEntry d e) c name := by
    intro c name
    rw [entryIn, Filesystem.addDir, addSlot_files]
    rfl
  rw [resolve, resolve]
  cases hp : parentOf fs parts with
  | none =>
      rw [Option.bind_none, if_neg (by simp)]
      cases hp' : parentOf (fs.addDir d e) parts with
      | none => rfl
      | some c =>
          have hc : c = fs.dirCount := by
            by_contra hcn
            have hlt : c < fs.dirCount :=
              Nat.lt_of_le_of_ne (Nat.le_of_lt_succ (h'.parentOf_lt hp')) hcn
            rw [parentOf, (walk_addDir h h' hparts.dropLast h.dirCount_pos hlt).mp hp'] at hp
            exact absurd hp (by simp)
          rw [Option.bind_some, hentry, entryIn, hc, addEntry_dir_of_ne (Nat.ne_of_gt hd),
            h.fresh _ (Nat.le_refl _)]
          rfl
  | some c =>
      have hc := h.parentOf_lt hp
      have hp' : parentOf (fs.addDir d e) parts = some c :=
        (walk_addDir h h' hparts.dropLast h.dirCount_pos hc).mpr hp
      rw [hp', Option.bind_some, Option.bind_some, hentry, h.entryIn_addEntry hc]
      simp only [Option.some.injEq]

theorem resolve_removeEntry_of_some (h : FsTree fs) (h' : FsTree (fs.removeEntry i d))
    (hd : d < fs.dirCount) (hi : i ∈ (fs.directories d).files) (hparts : IsParts parts)
    (hj : resolve fs parts = some j) (hji : j ≠ i) :
    resolve (fs.removeEntry i d) parts = some j := by
  have hwalk : parentOf (fs.removeEntry i d) parts = parentOf fs parts :=
    walk_congr h h' rfl (fun _ => removeEntry_dir_name) (fun _ => removeEntry_dir_parentDir)
      hparts.dropLast
  rw [resolve, Option.bind_eq_some_iff] at hj ⊢
  obtain ⟨c, hc, hj⟩ := hj
  exact ⟨c, hwalk.trans hc, h.entryIn_removeEntry_of_some hd hi (h.parentOf_lt hc) hj hji⟩

/-- **A file taken away** makes the lists that named it unresolvable. -/
theorem resolve_removeEntry (h : FsTree fs) (h' : FsTree (fs.removeEntry i d))
    (hd : d < fs.dirCount) (hi : i ∈ (fs.directories d).files) (hparts : IsParts parts)
    (hne : parts ≠ []) : resolve (fs.removeEntry i d) parts =
      if resolve fs parts = some i then none else resolve fs parts := by
  have hwalk : parentOf (fs.removeEntry i d) parts = parentOf fs parts :=
    walk_congr h h' rfl (fun _ => removeEntry_dir_name) (fun _ => removeEntry_dir_parentDir)
      hparts.dropLast
  have hlast : lastName parts ≠ [] := fun hnil => hne (hparts.lastName_eq_nil.mp hnil)
  rw [resolve, resolve, hwalk]
  cases hp : parentOf fs parts with
  | none => rfl
  | some c => exact h.entryIn_removeEntry hd hi (h.parentOf_lt hp) hlast

theorem entryIn_removeDir (c : Nat) (name : List UInt8) :
    entryIn (fs.removeDir k i d) c name = entryIn (fs.removeEntry i d) c name := by
  rw [entryIn, entryIn, removeDir_files, removeEntry_files]
  rfl

section RemoveDir

variable (h : FsTree fs) (h' : FsTree (fs.removeDir k i d)) (hd : d < fs.dirCount)
  (hi : i ∈ (fs.directories d).files) (hk0 : k ≠ 0) (hk : k < fs.dirCount)
  (hempty : (fs.directories k).files = []) (hparts : IsParts parts)

include h h' hd hi hk0 hk hempty hparts

theorem resolve_removeDir_of_some (hj : resolve fs parts = some j) (hji : j ≠ i) :
    resolve (fs.removeDir k i d) parts = some j := by
  rw [resolve, Option.bind_eq_some_iff] at hj ⊢
  obtain ⟨c, hc, hj⟩ := hj
  have hck : c ≠ k := by
    rintro rfl
    have hmem := (entryIn_some hj).1
    rw [hempty] at hmem
    exact List.not_mem_nil hmem
  refine ⟨c, (walk_removeDir h h' hk0 hempty hk hparts.dropLast).mpr ⟨hc, hck⟩, ?_⟩
  rw [entryIn_removeDir]
  exact h.entryIn_removeEntry_of_some hd hi (h.parentOf_lt hc) hj hji

/-- **A directory taken away** makes the lists that named it unresolvable. -/
theorem resolve_removeDir (hne : parts ≠ []) : resolve (fs.removeDir k i d) parts =
    if resolve fs parts = some i then none else resolve fs parts := by
  have hlast : lastName parts ≠ [] := fun hnil => hne (hparts.lastName_eq_nil.mp hnil)
  rw [resolve, resolve]
  cases hp : parentOf fs parts with
  | none =>
      cases hp' : parentOf (fs.removeDir k i d) parts with
      | none => rfl
      | some c =>
          have := ((walk_removeDir h h' hk0 hempty hk hparts.dropLast).mp hp').1
          rw [parentOf, this] at hp
          exact absurd hp (by simp)
  | some c =>
      by_cases hck : c = k
      · have hnone : entryIn fs c (lastName parts) = none := by
          rw [entryIn, hck, hempty]
          rfl
        have hp' : parentOf (fs.removeDir k i d) parts = none := by
          refine Option.eq_none_iff_forall_ne_some.mpr ?_
          intro l hl
          obtain ⟨hl, hlk⟩ := (walk_removeDir h h' hk0 hempty hk hparts.dropLast).mp hl
          rw [parentOf, hl, Option.some.injEq] at hp
          exact hlk (hp.trans hck)
        rw [hp', Option.bind_some, hnone]
        rfl
      · have hp' : parentOf (fs.removeDir k i d) parts = some c :=
          (walk_removeDir h h' hk0 hempty hk hparts.dropLast).mpr ⟨hp, hck⟩
        rw [hp', Option.bind_some, Option.bind_some, entryIn_removeDir]
        exact h.entryIn_removeEntry hd hi (h.parentOf_lt hp) hlast

end RemoveDir

theorem resolve_setData (h : FsTree fs) (ptr size : Nat) (hparts : IsParts parts) :
    resolve (fs.setData i ptr size) parts = resolve fs parts := by
  have hwalk : parentOf (fs.setData i ptr size) parts = parentOf fs parts :=
    walk_congr h (h.setData i ptr size) rfl (fun _ => rfl) (fun _ => rfl) hparts.dropLast
  rw [resolve, resolve, hwalk]
  congr 1
  funext c
  rw [entryIn, entryIn]
  simp only [setData_name]
  rfl

end FsTree

end AceOS.Drivers.Fs
