import AceOS.Drivers.Fs.Data

/-!
# The current directory

The current directory is a text, and `fs_delete` does not look at it; `cd ..` cuts the
text and does not look at the tables.  `LosesCwd` are the two calls after which the
text names no directory.  Every other call keeps it the name of one: this needs no
property of the allocator, so it goes by what the calls do to the tables (`Leads`).
-/

namespace AceOS.Drivers.Fs

open Filesystem Memory

/-! ### States that follow -/

variable {σ : Type} {A : Allocator σ} {P : Nat → Prop} {st st' st'' : FsState σ} {path : List UInt8}

/-- The entries in `P` are kept, with what names them, and so is the current directory. -/
structure Leads (P : Nat → Prop) (st st' : FsState σ) : Prop where
  inv : FsInv st'
  cwd : st'.currentDirectory = st.currentDirectory
  keeps : Keeps P st.fs (fun _ => none) st'.fs (fun _ => none)

namespace Leads

theorem refl (h : FsInv st) : Leads P st st := ⟨h, rfl, Keeps.refl _ _ _⟩

theorem trans (h : Leads P st st') (h' : Leads P st' st'') : Leads P st st'' :=
  ⟨h'.inv, h'.cwd.trans h.cwd, h.keeps.trans h'.keeps⟩

theorem mono {Q : Nat → Prop} (hPQ : ∀ i, Q i → P i) (h : Leads P st st') : Leads Q st st' :=
  ⟨h.inv, h.cwd, h.keeps.mono hPQ⟩

theorem withHeap (h : FsInv st) (heap : σ) (mem : Mem) :
    Leads P st { st with heap := heap, mem := mem } :=
  ⟨h.withHeap heap mem, rfl, Keeps.refl _ _ _⟩

end Leads

theorem FsInv.leads_create (h : FsInv st) (hp : IsPath path) (size : Nat) :
    ∃ r st', fsCreate A path size st = some (r, st') ∧ Leads (fun _ => True) st st' ∧
      (r = 0 → ∀ i, lookup st'.fs path = some i → i = st.fs.fileCount) := by
  rcases h.tree.fsCreate_cases (A := A) hp size with ⟨-, he⟩ | ⟨d, -, -, -, he⟩ |
    ⟨d, -, hnew, -, -, htree, he⟩ | ⟨d, -, hnew, -, htree, he⟩
  · exact ⟨_, _, he, Leads.refl h, fun hr => absurd hr (by decide)⟩
  · exact ⟨_, _, he, Leads.withHeap h _ _, fun hr => absurd hr (by decide)⟩
  all_goals
    refine ⟨_, _, he, ⟨⟨htree, h.cwd⟩, rfl, ?_⟩,
      fun _ i hi => h.tree.lookup_addEntry htree hnew.free hi⟩
    exact h.tree.keeps_addEntry htree hnew.lt fun _ _ _ _ => rfl

theorem FsInv.leads_delete (h : FsInv st) (hp : IsPath path) :
    ∃ r st', fsDelete A path st = some (r, st') ∧
      Leads (fun i => lookup st.fs path ≠ some i) st st' ∧
      ((∃ i, lookup st.fs path = some i ∧ (st.fs.files i).type = .file) → r = 0) := by
  rcases h.tree.fsDelete_cases (A := A) hp with ⟨he, hdir⟩ | ⟨i, hl, hfile, htree, he⟩ |
    ⟨i, k, hl, hdir, hk, hempty, htree, he⟩
  · refine ⟨_, _, he, Leads.refl h, ?_⟩
    rintro ⟨i, hl, hfile⟩
    rw [(hdir i hl).1] at hfile
    exact absurd hfile (by decide)
  · obtain ⟨hi, hd, -, -, -⟩ := h.tree.lookup_some hl
    have hI : FsInv { st.release A (st.fs.files i).dataPointer with
        fs := st.fs.removeEntry i (st.fs.files i).parentDir } := by
      refine ⟨htree, ?_⟩
      rw [FsState.release_currentDirectory]
      exact h.cwd
    have hnone : ∀ j p n, j ≠ i → dataOf st.fs j = some (p, n) →
        (fun _ => none : Holdings) p = (fun _ => none : Holdings) p := fun _ _ _ _ _ => rfl
    have hkeeps := h.tree.keeps_removeEntry htree hd hi hnone
    exact ⟨_, _, he, ⟨hI, FsState.release_currentDirectory _, hkeeps.mono (ne_of_lookup hl)⟩,
      fun _ => rfl⟩
  · obtain ⟨hi, hd, -, -, -⟩ := h.tree.lookup_some hl
    have hI : FsInv { st with fs := st.fs.removeDir k i (st.fs.files i).parentDir } :=
      ⟨htree, h.cwd⟩
    have hkeeps := h.tree.keeps_removeDir htree hd hi hdir hk hempty fun _ => none
    exact ⟨_, _, he, ⟨hI, rfl, hkeeps.mono (ne_of_lookup hl)⟩, fun _ => rfl⟩

theorem FsInv.leads_write (h : FsInv st) (hp : IsPath path) (data : List UInt8) :
    ∃ r st', fsWrite A path data st = some (r, st') ∧
      Leads (fun i => lookup st.fs path ≠ some i) st st' ∧
      ∀ q, lookup st'.fs q = lookup st.fs q := by
  rcases h.tree.fsWrite_cases (A := A) hp data with ⟨he, -⟩ | ⟨i, hl, hfile, he⟩
  · exact ⟨_, _, he, Leads.refl h, fun _ => rfl⟩
  · obtain ⟨hi, hd, -, -, -⟩ := h.tree.lookup_some hl
    obtain ⟨ptr, size, hfs⟩ := st.writeData_fs (A := A) i data
    have hcwd := st.writeData_currentDirectory (A := A) i data
    have hI : FsInv (st.writeData A i data).2 := by
      refine ⟨?_, ?_⟩
      · rw [hfs]
        exact h.tree.setData i ptr size
      · rw [hcwd]
        exact h.cwd
    refine ⟨(st.writeData A i data).1, (st.writeData A i data).2, he, ⟨hI, hcwd, ?_⟩, ?_⟩
    · rw [hfs]
      exact (h.tree.keeps_setData ⟨_, hd, hi⟩ hfile ptr size fun _ _ _ _ _ => rfl).mono
        (ne_of_lookup hl)
    · intro q
      rw [hfs, lookup, lookup, h.tree.resolve_setData ptr size (isParts_components q)]

theorem FsInv.leads_copyData (h : FsInv st) (hp : IsPath path) {s n : Nat} (hs : s < fsMaxFiles)
    (hfar : ∀ i, lookup st.fs path = some i → n ≤ i) :
    ∃ r st', fsCopyData A s path st = some (r, st') ∧ Leads (fun i => i < n) st st' := by
  have hmono : ∀ {fs : Filesystem}, (∀ i, lookup fs path = some i → n ≤ i) →
      ∀ i, i < n → lookup fs path ≠ some i :=
    fun hfar i hi hl => Nat.not_le.mpr hi (hfar i hl)
  rw [fsCopyData, getFile, if_pos hs]
  simp only [Option.bind_eq_bind, Option.bind_some]
  split
  · have h₁ : Leads (fun i => i < n) st (st.malloc A (st.fs.files s).size).2 := Leads.withHeap h _ _
    split
    · obtain ⟨r, st₂, he, h₂, -⟩ := h₁.inv.leads_delete (A := A) hp
      exact ⟨-1, st₂, by rw [he]; rfl, h₁.trans (h₂.mono (hmono hfar))⟩
    · have h₂ : Leads (fun i => i < n) st { (st.malloc A (st.fs.files s).size).2 with
          mem := storeBytes (st.malloc A (st.fs.files s).size).2.mem
            (st.malloc A (st.fs.files s).size).1
            (loadBytes (st.malloc A (st.fs.files s).size).2.mem
              (st.fs.files s).dataPointer (st.fs.files s).size) } := Leads.withHeap h _ _
      obtain ⟨r, st₃, he, h₃, hlookup⟩ := h₂.inv.leads_write (A := A) hp _
      rw [he, Option.bind_some]
      dsimp only
      have h₄ := h₂.trans ((h₃.mono (hmono hfar)).trans
        (Leads.withHeap h₃.inv (A.free (st.malloc A (st.fs.files s).size).1 st₃.heap st₃.mem).1
          (A.free (st.malloc A (st.fs.files s).size).1 st₃.heap st₃.mem).2))
      split
      · obtain ⟨r', st₅, he', h₅, -⟩ := h₄.inv.leads_delete (A := A) hp
        have hfar₃ : ∀ i, lookup st₃.fs path = some i → n ≤ i := by
          intro i hi
          exact hfar i ((hlookup path).symm.trans hi)
        exact ⟨-1, st₅, by rw [FsState.free, he']; rfl, h₄.trans (h₅.mono (hmono hfar₃))⟩
      · exact ⟨0, _, rfl, h₄⟩
  · exact ⟨0, st, rfl, Leads.refl h⟩

theorem FsInv.leads_copy (h : FsInv st) {srcPath destPath : List UInt8} (hs : IsPath srcPath)
    (hd : IsPath destPath) : ∃ r st', fsCopy A srcPath destPath st = some (r, st') ∧
      Leads (fun i => i < st.fs.fileCount) st st' ∧
      (r = 0 → ∃ s, lookup st.fs srcPath = some s ∧ (st.fs.files s).type = .file) := by
  rw [h.tree.fsCopy_eq hs hd]
  cases hl : lookup st.fs srcPath with
  | none => exact ⟨-1, st, rfl, Leads.refl h, fun hr => absurd hr (by decide)⟩
  | some s =>
      have hlt : s < fsMaxFiles :=
        Nat.lt_of_lt_of_le (h.tree.lookup_some hl).2.2.1 h.tree.fileCount_le
      dsimp only
      split
      · rename_i hfile
        obtain ⟨r, st₁, he, h₁, hnew⟩ := h.leads_create (A := A) hd (st.fs.files s).size
        rw [he, Option.bind_some]
        dsimp only
        split
        · exact ⟨-1, st₁, rfl, h₁.mono fun _ _ => trivial, fun hr => absurd hr (by decide)⟩
        · rename_i hr
          have hfar : ∀ i, lookup st₁.fs destPath = some i → st.fs.fileCount ≤ i := by
            intro i hi
            exact Nat.le_of_eq (hnew (not_not.mp hr) i hi).symm
          obtain ⟨r', st₂, he', h₂⟩ := h₁.inv.leads_copyData (A := A) hd hlt hfar
          exact ⟨r', st₂, he', (h₁.mono fun _ _ => trivial).trans h₂, fun _ => ⟨s, rfl, hfile⟩⟩
      · exact ⟨-1, st, rfl, Leads.refl h, fun hr => absurd hr (by decide)⟩

theorem FsInv.leads_move (h : FsInv st) {srcPath destPath : List UInt8} (hs : IsPath srcPath)
    (hd : IsPath destPath) : ∃ r st', fsMove A srcPath destPath st = some (r, st') ∧
      Leads (fun i => i < st.fs.fileCount ∧ (st.fs.files i).type = .directory) st st' := by
  have hinit := h.tree.not_initialized
  obtain ⟨r, st₁, he, h₁, hsrc⟩ := h.leads_copy (A := A) hs hd
  rw [fsMove, hinit, if_neg Bool.false_ne_true, he]
  simp only [Option.bind_eq_bind, Option.bind_some]
  split
  · exact ⟨-1, st₁, rfl, h₁.mono fun _ hi => hi.1⟩
  · rename_i hr
    obtain ⟨s, hl, hfile⟩ := hsrc (not_not.mp hr)
    have hlt : s < st.fs.fileCount := (h.tree.lookup_some hl).2.2.1
    have hl₁ : lookup st₁.fs srcPath = some s := h₁.keeps.lookup hlt hl
    obtain ⟨r', st₂, he', h₂, hzero⟩ := h₁.inv.leads_delete (A := A) hs
    have hr' : r' = 0 := by
      refine hzero ⟨s, hl₁, ?_⟩
      rw [h₁.keeps.files s hlt hlt, hfile]
    rw [he', Option.bind_some]
    dsimp only
    rw [if_neg (not_not.mpr hr')]
    refine ⟨0, st₂, rfl, (h₁.mono fun _ hi => hi.1).trans (h₂.mono ?_)⟩
    intro i hi
    rw [hl₁, ne_eq, Option.some.injEq]
    rintro rfl
    rw [hfile] at hi
    exact absurd hi.2 (by decide)

/-! ### Names of directories -/

/-- `fs_find` leads to a directory entry. -/
def NamesDir (fs : Filesystem) (path : List UInt8) : Prop :=
  ∃ i < fs.fileCount, fsFind fs path = some (i : Int) ∧ (fs.files i).type = .directory

instance (fs : Filesystem) (path : List UInt8) : Decidable (NamesDir fs path) :=
  inferInstanceAs (Decidable (∃ i < fs.fileCount, fsFind fs path = some (i : Int) ∧
    (fs.files i).type = .directory))

section Dirs

variable {fs : Filesystem} {ps : List (List UInt8)} {k : Nat}

theorem FsTree.namesDir_iff (h : FsTree fs) (hp : IsPath path) :
    NamesDir fs path ↔ ∃ i, lookup fs path = some i ∧ (fs.files i).type = .directory := by
  constructor
  · rintro ⟨i, -, hi, hdir⟩
    exact ⟨i, (h.fsFind_eq_some_iff hp).mp hi, hdir⟩
  · rintro ⟨i, hi, hdir⟩
    exact ⟨i, (h.lookup_some hi).2.2.1, (h.fsFind_eq_some_iff hp).mpr hi, hdir⟩

/-- Entry `i` and slot `k` are those of one directory. -/
def EntryOfSlot (fs : Filesystem) (i k : Nat) : Prop :=
  (fs.directories k).name = (fs.files i).name ∧
    (fs.directories k).parentDir = (fs.files i).parentDir

theorem FsTree.resolve_of_walk (h : FsTree fs) (hps : IsParts ps) (hne : ps ≠ [])
    (hw : walk fs ps 0 = some k) : k ≠ 0 ∧
      ∃ i, resolve fs ps = some i ∧ (fs.files i).type = .directory ∧ EntryOfSlot fs i k := by
  rcases List.eq_nil_or_concat ps with hnil | ⟨qs, c, rfl⟩
  · exact absurd hnil hne
  · rw [List.concat_eq_append] at *
    have hc := hps c (by simp)
    rw [walk_concat, Option.bind_eq_some_iff] at hw
    obtain ⟨d, hd, hsub⟩ := hw
    obtain ⟨hk, hkname, hkparent⟩ := slotOf_some (subdir_some hsub)
    have hk0 : k ≠ 0 := by
      rintro rfl
      rw [h.root_name] at hkname
      exact hc.noSlash (hkname ▸ List.mem_singleton_self slash)
    have hne : (fs.directories k).name ≠ [] := hkname ▸ hc.ne_nil
    obtain ⟨i, hi, hdir, hiname⟩ := h.slot_entry k hk (Nat.pos_of_ne_zero hk0) hne
    have hlt := walk_lt h.dirCount_pos hd
    rw [hkparent] at hi
    have hslot : EntryOfSlot fs i k :=
      ⟨hiname.symm, hkparent.trans (h.listed_parent d hlt i hi).symm⟩
    have hlen := (h.listed_name d hlt i hi).2
    rw [hiname, hkname] at hlen
    have hentry := h.entryIn_of_mem hlt hi (hiname ▸ hne)
    rw [hiname, hkname] at hentry
    refine ⟨hk0, i, ?_, hdir, hslot⟩
    rw [resolve, parentOf, List.dropLast_concat, hd, Option.bind_some, lastName_append,
      List.take_of_length_le hlen]
    exact hentry

/-- The parent of a directory is one, but for a spelling of the root. -/
theorem FsTree.namesDir_parent (h : FsTree fs) {a b : List UInt8} (hp : IsPath (a ++ slash :: b))
    (hb : slash ∉ b) (ha : a ≠ []) (hroot : a ≠ [slash]) (hd : NamesDir fs (a ++ slash :: b)) :
    NamesDir fs a ∨ (b ≠ [] ∧ ∃ n, a = List.replicate n slash) := by
  have hpa : IsPath a := by
    refine ⟨fun hmem => hp.noNul (List.mem_append_left _ hmem), ?_⟩
    have hlen := hp.length_lt
    rw [List.length_append] at hlen
    omega
  have hroot' : fsIsRoot a = false := by
    rw [fsIsRoot, decide_eq_false_iff_not, not_or]
    exact ⟨ha, hroot⟩
  obtain ⟨i, hl, hdir⟩ := (h.namesDir_iff hp).mp hd
  obtain ⟨-, hr⟩ := lookup_eq_some.mp hl
  rw [components_append] at hr
  by_cases hbne : b = []
  · subst hbne
    rw [components_nil, List.append_nil] at hr
    exact Or.inl ((h.namesDir_iff hpa).mpr ⟨i, lookup_eq_some.mpr ⟨hroot', hr⟩, hdir⟩)
  · by_cases hnil : components a = []
    · exact Or.inr ⟨hbne, components_eq_nil hnil⟩
    · rw [components_of_isComponent ⟨hbne, hb⟩] at hr
      obtain ⟨d, hd, -, -, -, -⟩ := h.resolve_some hr
      rw [parentOf, List.dropLast_concat] at hd
      obtain ⟨-, j, hj, hjdir, -⟩ := h.resolve_of_walk (isParts_components a) hnil hd
      exact Or.inl ((h.namesDir_iff hpa).mpr ⟨j, lookup_eq_some.mpr ⟨hroot', hj⟩, hjdir⟩)

end Dirs

/-! ### The condition -/

def CwdExists (st : FsState σ) : Prop :=
  st.currentDirectory = [slash] ∨ NamesDir st.fs st.currentDirectory

instance (st : FsState σ) : Decidable (CwdExists st) :=
  inferInstanceAs (Decidable (st.currentDirectory = [slash] ∨ NamesDir st.fs st.currentDirectory))

/-- The calls after which the text names no directory: the deletion of the current
directory, found to be empty, and `cd ..` from a directory of the root spelled with
three or more slashes in front, unless the root has a directory with the empty name. -/
def LosesCwd : FsOp → FsState σ → Prop
  | .delete path, st => st.currentDirectory ≠ [slash] ∧ ∃ i < st.fs.fileCount,
      fsFind st.fs path = some (i : Int) ∧ fsFind st.fs st.currentDirectory = some (i : Int) ∧
      ∃ k < st.fs.dirCount, slotOf st.fs (st.fs.files i).name (st.fs.files i).parentDir = some k ∧
        (st.fs.directories k).files = []
  | .changeDir path, st => path = [dot, dot] ∧ ∃ n < st.currentDirectory.length, 2 ≤ n ∧
      fsDropLast st.currentDirectory = some (List.replicate n slash) ∧
      st.currentDirectory ≠ List.replicate (n + 1) slash ∧
      ¬NamesDir st.fs (List.replicate n slash)
  | _, _ => False

instance : ∀ (op : FsOp) (st : FsState σ), Decidable (LosesCwd op st)
  | .delete _, _ => inferInstanceAs (Decidable (_ ∧ _))
  | .changeDir _, _ => inferInstanceAs (Decidable (_ ∧ _))
  | .mkdir _, _ | .create _ _, _ | .write _ _, _ | .copy _ _, _ | .move _ _, _ =>
      inferInstanceAs (Decidable False)

/-! ### Steps and runs -/

theorem Leads.cwdExists (h : FsInv st) (hlead : Leads P st st')
    (hP : ∀ i, lookup st.fs st.currentDirectory = some i → (st.fs.files i).type = .directory → P i)
    (hcwd : CwdExists st) : CwdExists st' := by
  rw [CwdExists, hlead.cwd]
  rcases hcwd with hroot | hdir
  · exact Or.inl hroot
  · obtain ⟨i, hl, hdir⟩ := (h.tree.namesDir_iff h.cwd.toIsPath).mp hdir
    have hPi := hP i hl hdir
    refine Or.inr ((hlead.inv.tree.namesDir_iff h.cwd.toIsPath).mpr
      ⟨i, hlead.keeps.lookup hPi hl, ?_⟩)
    rw [hlead.keeps.files i (h.tree.lookup_some hl).2.2.1 hPi]
    exact hdir

theorem FsInv.cwdExists_delete (h : FsInv st) (hcwd : CwdExists st) (hp : IsPath path)
    (hkeep : ¬LosesCwd (.delete path) st) :
    ∃ r st', fsDelete A path st = some (r, st') ∧ FsInv st' ∧ CwdExists st' := by
  obtain ⟨r, st', he, hlead, -⟩ := h.leads_delete (A := A) hp
  by_cases hother : ∀ i, lookup st.fs st.currentDirectory = some i →
      (st.fs.files i).type = .directory → lookup st.fs path ≠ some i
  · exact ⟨r, st', he, hlead.inv, hlead.cwdExists h hother hcwd⟩
  · -- the path names the current directory, so the call has to refuse
    obtain ⟨i, hi, hdir, hpath⟩ : ∃ i, lookup st.fs st.currentDirectory = some i ∧
        (st.fs.files i).type = .directory ∧ lookup st.fs path = some i := by
      by_contra hcon
      exact hother fun i hi hdir hl => hcon ⟨i, hi, hdir, hl⟩
    rcases h.tree.fsDelete_cases (A := A) hp with ⟨he', -⟩ | ⟨j, hl, hfile, -, -⟩ |
      ⟨j, k, hl, -, hk, hempty, -, -⟩
    · exact ⟨-1, st, he', h, hcwd⟩
    · rw [hpath, Option.some.injEq] at hl
      subst hl
      rw [hdir] at hfile
      exact absurd hfile (by decide)
    · rw [hpath, Option.some.injEq] at hl
      subst hl
      refine absurd ⟨?_, i, (h.tree.lookup_some hi).2.2.1, h.tree.fsFind_of_some hp hpath,
        h.tree.fsFind_of_some h.cwd.toIsPath hi, k, (slotOf_some hk).1, hk, hempty⟩ hkeep
      intro hroot
      rw [hroot] at hi
      exact absurd hi (by rw [lookup]; simp [fsIsRoot])

theorem FsInv.cwdExists_changeDir (h : FsInv st) (hcwd : CwdExists st) (hp : IsPath path)
    (hkeep : ¬LosesCwd (.changeDir path) st) :
    ∃ r st', fsChangeDir path st = some (r, st') ∧ FsInv st' ∧ CwdExists st' := by
  obtain ⟨r, cwd, hc, hcd⟩ := fsChangeDir_cwd h.tree h.cwd hp.noNul
  have hpath := h.cwd.toIsPath
  have hsame : ∀ {r' : Int} {cwd' : List UInt8},
      fsChangeDir path st = some (r', { st with currentDirectory := cwd' }) → cwd = cwd' := by
    intro r' cwd' he
    rw [hcd, Option.some.injEq, Prod.mk.injEq, FsState.mk.injEq] at he
    exact he.2.2.1
  refine ⟨r, _, hcd, ⟨h.tree, hc⟩, ?_⟩
  rcases h.tree.fsChangeDir_cases h.cwd hp.noNul with ⟨r', he⟩ | he |
    ⟨hdots, hroot, a, b, hab, hb, he⟩ | ⟨i, hl, hdir, he⟩
  · rw [hsame he]
    exact hcwd
  · rw [hsame he]
    exact Or.inl rfl
  · have hdir := hcwd.resolve_left hroot
    rw [hsame he]
    by_cases ha : a = []
    · rw [if_pos ha]
      exact Or.inl rfl
    · rw [if_neg ha]
      by_cases haroot : a = [slash]
      · exact Or.inl haroot
      · refine Or.inr ?_
        rw [hab] at hdir hpath
        by_contra hnot
        rcases h.tree.namesDir_parent hpath hb ha haroot hdir with hyes | ⟨hbne, n, rfl⟩
        · exact hnot hyes
        · have hdrop : fsDropLast st.currentDirectory = some (List.replicate n slash) := by
            rw [hab, fsDropLast_append hb]
          refine hkeep ⟨hdots, n, ?_, ?_, hdrop, ?_, hnot⟩
          · rw [hab, List.length_append, List.length_replicate, List.length_cons]
            omega
          · rcases n with - | - | n
            · exact absurd rfl ha
            · exact absurd rfl haroot
            · omega
          · rw [hab, List.replicate_succ', ne_eq, List.append_cancel_left_eq, List.cons.injEq]
            exact fun hcon => hbne hcon.2
  · rw [hsame he]
    exact Or.inr ((h.tree.namesDir_iff (isCwd_fsTargetPath h.cwd hp.noNul).toIsPath).mpr
      ⟨i, hl, hdir⟩)

/-- **One step.** -/
theorem fsStep_cwdExists (op : FsOp) (h : FsInv st) (hcwd : CwdExists st) (hp : op.HasPaths)
    (hfit : MkdirFits op st) (hkeep : ¬LosesCwd op st) :
    ∃ r st', fsStep A op st = some (r, st') ∧ FsInv st' ∧ CwdExists st' := by
  cases op with
  | mkdir path =>
      rw [fsStep]
      rcases h.tree.fsMkdir_cases (hp path (by simp [FsOp.paths])) hfit with ⟨-, he⟩ |
        ⟨d, -, hnew, -, htree, he⟩
      · exact ⟨-1, st, by rw [he]; rfl, h, hcwd⟩
      · have hlead : Leads (fun _ => True) st
            { st with fs := st.fs.addDir d (dirEntry st.fs path d) } :=
          ⟨⟨htree, h.cwd⟩, rfl, h.tree.keeps_addDir htree hnew.lt rfl _⟩
        exact ⟨0, _, by rw [he]; rfl, hlead.inv, hlead.cwdExists h (fun _ _ _ => trivial) hcwd⟩
  | create path size =>
      obtain ⟨r, st', he, hlead, -⟩ := h.leads_create (A := A) (hp path (by simp [FsOp.paths])) size
      exact ⟨r, st', he, hlead.inv, hlead.cwdExists h (fun _ _ _ => trivial) hcwd⟩
  | delete path => exact h.cwdExists_delete hcwd (hp path (by simp [FsOp.paths])) hkeep
  | write path data =>
      have hpath := hp path (by simp [FsOp.paths])
      rcases h.tree.fsWrite_cases (A := A) hpath data with ⟨he, -⟩ | ⟨j, hl, hfile, -⟩
      · exact ⟨-1, st, he, h, hcwd⟩
      · obtain ⟨r, st', he, hlead, -⟩ := h.leads_write (A := A) hpath data
        refine ⟨r, st', he, hlead.inv, hlead.cwdExists h ?_ hcwd⟩
        intro i _ hdir
        rw [hl, ne_eq, Option.some.injEq]
        rintro rfl
        rw [hdir] at hfile
        exact absurd hfile (by decide)
  | copy srcPath destPath =>
      obtain ⟨r, st', he, hlead, -⟩ := h.leads_copy (A := A) (hp srcPath (by simp [FsOp.paths]))
        (hp destPath (by simp [FsOp.paths]))
      exact ⟨r, st', he, hlead.inv,
        hlead.cwdExists h (fun i hi _ => (h.tree.lookup_some hi).2.2.1) hcwd⟩
  | move srcPath destPath =>
      obtain ⟨r, st', he, hlead⟩ := h.leads_move (A := A) (hp srcPath (by simp [FsOp.paths]))
        (hp destPath (by simp [FsOp.paths]))
      exact ⟨r, st', he, hlead.inv,
        hlead.cwdExists h (fun i hi hdir => ⟨(h.tree.lookup_some hi).2.2.1, hdir⟩) hcwd⟩
  | changeDir path => exact h.cwdExists_changeDir hcwd (hp path (by simp [FsOp.paths])) hkeep

theorem fsChangeDir_refused (h : fsChangeDir path st = some (-1, st')) : st' = st := by
  have hzero : ∀ {t : FsState σ}, some ((0 : Int), t) ≠ some (-1, st') := by
    intro t heq
    exact absurd (congrArg Prod.fst (Option.some.inj heq)) (by simp)
  have hminus : ∀ {t : FsState σ}, some ((-1 : Int), t) = some (-1, st') → st' = t := by
    intro t heq
    exact (congrArg Prod.snd (Option.some.inj heq)).symm
  rw [fsChangeDir] at h
  split at h
  · exact hminus h
  · dsimp only at h
    split at h
    · exact absurd h hzero
    · split at h
      · split at h
        · exact absurd h hzero
        · rw [Option.bind_eq_bind, Option.bind_eq_some_iff] at h
          obtain ⟨parent, -, h⟩ := h
          exact absurd h hzero
      · split at h
        · exact absurd h hzero
        · rw [Option.bind_eq_bind, Option.bind_eq_some_iff] at h
          obtain ⟨code, -, h⟩ := h
          split at h
          · exact hminus h
          · rw [Option.bind_eq_bind, Option.bind_eq_some_iff] at h
            obtain ⟨entry, -, h⟩ := h
            split at h
            · exact hminus h
            · exact absurd h hzero

/-- **The current directory exists** in every state of a run without the two calls, and
a refused `fs_change_dir` leaves it. -/
theorem fsRun_cwdExists (A : Allocator σ) (heap : σ) (mem : Mem) (ops : List FsOp)
    (hp : ∀ op ∈ ops, op.HasPaths) (os : List Int) (st : FsState σ)
    (hrun : Machine.run (fsStep A) ops (fsInitState heap mem) = some (os, st))
    (hkeep : Machine.Meets (fsStep A) (fun op st => ¬LosesCwd op st) ops (fsInitState heap mem)) :
    CwdExists st ∧ ∀ path st', fsChangeDir path st = some (-1, st') →
      st'.currentDirectory = st.currentDirectory := by
  have hG : Machine.Meets (fsStep A) (fun op st => op.HasPaths ∧ ¬LosesCwd op st) ops
      (fsInitState heap mem) :=
    Machine.meets_and.mpr ⟨Machine.meets_of_forall (fun op hop _ => hp op hop) _, hkeep⟩
  have hI : FsInv st ∧ CwdExists st := by
    refine Machine.run_inv (I := fun st => FsInv st ∧ CwdExists st) ?_
      ⟨fsInitState_inv heap mem, Or.inl rfl⟩ hG hrun
    intro op s r s' hI hG hstep
    obtain ⟨r', t, he, hI'⟩ := fsStep_cwdExists (A := A) op hI.1 hI.2 hG.1
      (mkdirFits_of_step hI.1 hG.1 hstep) hG.2
    rw [hstep, Option.some.injEq, Prod.mk.injEq] at he
    exact he.2 ▸ hI'
  refine ⟨hI.2, ?_⟩
  intro path st' h
  rw [fsChangeDir_refused h]

theorem fsRun_cwdExists_parent : ∃ os st, Machine.run (fsStep noMemory)
    [.mkdir pathA, .changeDir pathA, .changeDir [dot, dot], .delete pathA]
      (fsInitState () ⟨fun _ => 0⟩) = some (os, st) ∧ CwdExists st := by
  have hpaths : ∀ op ∈ [FsOp.mkdir pathA, .changeDir pathA, .changeDir [dot, dot], .delete pathA],
      op.HasPaths := by decide
  have hsome : (Machine.run (fsStep noMemory)
      [.mkdir pathA, .changeDir pathA, .changeDir [dot, dot], .delete pathA]
      (fsInitState () ⟨fun _ => 0⟩)).isSome = true := by decide +kernel
  obtain ⟨⟨os, st⟩, hrun⟩ := Option.isSome_iff_exists.mp hsome
  exact ⟨os, st, hrun, (fsRun_cwdExists noMemory () ⟨fun _ => 0⟩ _ hpaths os st hrun
    (by decide +kernel)).1⟩

/-- The current directory can be deleted. -/
theorem fsRun_cwdLost : ∃ os st, Machine.run (fsStep noMemory)
    [.mkdir pathA, .changeDir pathA, .delete pathA] (fsInitState () ⟨fun _ => 0⟩)
      = some (os, st) ∧ ¬CwdExists st := by
  have hlost : (Machine.run (fsStep noMemory) [.mkdir pathA, .changeDir pathA, .delete pathA]
      (fsInitState () ⟨fun _ => 0⟩)).map (fun r => decide (CwdExists r.2)) = some false := by
    decide +kernel
  obtain ⟨⟨os, st⟩, hrun, hst⟩ := Option.map_eq_some_iff.mp hlost
  exact ⟨os, st, hrun, of_decide_eq_false hst⟩

end AceOS.Drivers.Fs
