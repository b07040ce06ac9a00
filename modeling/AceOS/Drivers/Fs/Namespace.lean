import AceOS.Drivers.Fs.Run
import AceOS.Lib.Namespace

/-!
# The file system is a tree of names

`treeOf` is what the tables say about lists of components that fit an entry.  Each
call is one step of a machine on trees (`NsStep`): a creation adds exactly its list, a
deletion removes exactly its list, and a refused call changes nothing.  `fs_find`
reads the tree.
-/

namespace AceOS.Drivers.Fs

open Filesystem Memory

/-! ### Keys -/

/-- A list of components of at most 31 characters, not empty. -/
structure IsKey (parts : List (List UInt8)) : Prop where
  ne_nil : parts ≠ []
  isParts : IsParts parts
  length_le : ∀ c ∈ parts, c.length ≤ fsMaxFilenameLen - 1

instance (c : List UInt8) : Decidable (IsComponent c) :=
  decidable_of_iff (c ≠ [] ∧ slash ∉ c) ⟨fun h => ⟨h.1, h.2⟩, fun h => ⟨h.ne_nil, h.noSlash⟩⟩

instance (parts : List (List UInt8)) : Decidable (IsKey parts) :=
  decidable_of_iff (parts ≠ [] ∧ (∀ c ∈ parts, IsComponent c) ∧
      ∀ c ∈ parts, c.length ≤ fsMaxFilenameLen - 1)
    ⟨fun h => ⟨h.1, h.2.1, h.2.2⟩, fun h => ⟨h.ne_nil, h.isParts, h.length_le⟩⟩

variable {fs : Filesystem} {ps qs : List (List UInt8)} {c : List UInt8} {d i k : Nat}

theorem IsKey.eq_concat (h : IsKey ps) :
    ∃ qs c, ps = qs ++ [c] ∧ IsParts qs ∧ IsComponent c ∧ c.length ≤ fsMaxFilenameLen - 1 ∧
      lastName ps = c := by
  rcases List.eq_nil_or_concat ps with hnil | ⟨qs, c, rfl⟩
  · exact absurd hnil h.ne_nil
  · rw [List.concat_eq_append] at h ⊢
    have hc := h.length_le c (by simp)
    refine ⟨qs, c, rfl, fun x hx => h.isParts x (List.mem_append_left _ hx), h.isParts c (by simp),
      hc, ?_⟩
    rw [lastName_append, List.take_of_length_le hc]

theorem IsKey.ext (hp : IsKey ps) (hq : IsKey qs) (hinit : ps.dropLast = qs.dropLast)
    (hlast : lastName ps = lastName qs) : ps = qs := by
  obtain ⟨ps, b, rfl, -, -, -, hb⟩ := hp.eq_concat
  obtain ⟨qs, c, rfl, -, -, -, hc⟩ := hq.eq_concat
  rw [List.dropLast_concat, List.dropLast_concat] at hinit
  rw [hb, hc] at hlast
  rw [hinit, hlast]

theorem IsKey.concat (h : IsKey ps) (hc : IsComponent c) (hlen : c.length ≤ fsMaxFilenameLen - 1) :
    IsKey (ps ++ [c]) := by
  refine ⟨by simp, ?_, ?_⟩
  · intro x hx
    rcases List.mem_append.mp hx with hx | hx
    · exact h.isParts x hx
    · exact List.mem_singleton.mp hx ▸ hc
  · intro x hx
    rcases List.mem_append.mp hx with hx | hx
    · exact h.length_le x hx
    · exact List.mem_singleton.mp hx ▸ hlen

namespace FsTree

theorem parentOf_inj (h : FsTree fs) (hp : IsKey ps) (hq : IsKey qs)
    (hd : parentOf fs ps = some d) (hd' : parentOf fs qs = some d) : ps.dropLast = qs.dropLast :=
  h.walk_inj hp.isParts.dropLast hq.isParts.dropLast hd hd'

theorem resolve_inj (h : FsTree fs) (hp : IsKey ps) (hq : IsKey qs)
    (hi : resolve fs ps = some i) (hi' : resolve fs qs = some i) : ps = qs := by
  obtain ⟨d, hd, -, -, hname, hparent⟩ := h.resolve_some hi
  obtain ⟨d', hd', -, -, hname', hparent'⟩ := h.resolve_some hi'
  rw [← hparent'.symm.trans hparent] at hd
  exact hp.ext hq (h.parentOf_inj hp hq hd hd') (hname.symm.trans hname')

/-- **A list leads to a slot if and only if it names a directory.** -/
theorem walk_eq_some_iff (h : FsTree fs) (hp : IsKey ps) : walk fs ps 0 = some k ↔
    ∃ i, resolve fs ps = some i ∧ (fs.files i).type = .directory ∧
      slotOf fs (fs.files i).name (fs.files i).parentDir = some k := by
  obtain ⟨qs, c, rfl, hqs, hc, hlen, hlast⟩ := hp.eq_concat
  have hparent : parentOf fs (qs ++ [c]) = walk fs qs 0 := by
    rw [parentOf, List.dropLast_concat]
  rw [walk_concat, Option.bind_eq_some_iff]
  constructor
  · rintro ⟨d, hd, hsub⟩
    obtain ⟨hk, hkname, hkparent⟩ := slotOf_some (subdir_some hsub)
    have hk0 : k ≠ 0 := h.ne_root (hkname ▸ ⟨hc.noSlash, hlen⟩)
    have hne : (fs.directories k).name ≠ [] := hkname ▸ hc.ne_nil
    obtain ⟨i, hi, hdir, hiname⟩ := h.slot_entry k hk (Nat.pos_of_ne_zero hk0) hne
    have hlt := walk_lt h.dirCount_pos hd
    rw [hkparent] at hi
    have hentry := h.entryIn_of_mem hlt hi (hiname ▸ hne)
    refine ⟨i, ?_, hdir, ?_⟩
    · rw [resolve, hparent, hd, Option.bind_some, hlast, ← hkname, ← hiname]
      exact hentry
    · rw [hiname, hkname, h.listed_parent d hlt i hi]
      exact subdir_some hsub
  · rintro ⟨i, hi, hdir, hslot⟩
    obtain ⟨d, hd, -, -, hname, hiparent⟩ := h.resolve_some hi
    rw [hname, hlast, hiparent] at hslot
    exact ⟨d, hparent ▸ hd, (h.subdir_eq_some_iff hc).mpr (slotOf_some hslot)⟩

theorem slotOf_of_resolve (h : FsTree fs) (hp : IsKey ps) (hi : resolve fs ps = some i)
    (hdir : (fs.files i).type = .directory) :
    ∃ k, slotOf fs (fs.files i).name (fs.files i).parentDir = some k := by
  obtain ⟨d, hd, hlt, hmem, hname, hparent⟩ := h.resolve_some hi
  obtain ⟨qs, c, -, -, hc, -, hlast⟩ := hp.eq_concat
  have hcname : (fs.files i).name = c := hname.trans hlast
  obtain ⟨k, hk, hkname, hkparent⟩ := h.slot d hlt i hmem hdir (hcname ▸ hc.ne_nil)
  refine ⟨k, ?_⟩
  rw [hparent, hcname]
  exact subdir_some ((h.subdir_eq_some_iff hc).mpr ⟨hk, hkname.trans hcname, hkparent⟩)

end FsTree

/-! ### The tree -/

/-- What the tables say about a list of components. -/
def treeOf (fs : Filesystem) : Namespace.Tree (List UInt8) FsEntryType := fun ps =>
  if IsKey ps then (resolve fs ps).map fun i => (fs.files i).type else none

/-- The kind that has children. -/
abbrev IsDir (t : FsEntryType) : Prop := t = .directory

theorem treeOf_of_key (hp : IsKey ps) :
    treeOf fs ps = (resolve fs ps).map fun i => (fs.files i).type := if_pos hp

theorem treeOf_eq_some {t : FsEntryType} : treeOf fs ps = some t ↔
    IsKey ps ∧ ∃ i, resolve fs ps = some i ∧ (fs.files i).type = t := by
  rw [treeOf]
  split
  · rename_i hp
    rw [Option.map_eq_some_iff]
    exact ⟨fun h => ⟨hp, h⟩, fun h => h.2⟩
  · rename_i hp
    exact ⟨fun h => absurd h (by simp), fun h => absurd h.1 hp⟩

namespace FsTree

/-- A list without its last component leads to a slot if it has a parent in the tree. -/
theorem hasParent_iff (h : FsTree fs) (hp : IsKey ps) :
    Namespace.HasParent IsDir (treeOf fs) ps ↔ ∃ d, parentOf fs ps = some d := by
  by_cases hnil : ps.dropLast = []
  · refine iff_of_true (Or.inl hnil) ⟨0, ?_⟩
    rw [parentOf, hnil]
    rfl
  · have hkey : IsKey ps.dropLast :=
      ⟨hnil, hp.isParts.dropLast, fun c hc => hp.length_le c (List.mem_of_mem_dropLast hc)⟩
    rw [Namespace.HasParent, or_iff_right hnil]
    constructor
    · rintro ⟨t, rfl, ht⟩
      obtain ⟨-, i, hi, hdir⟩ := treeOf_eq_some.mp ht
      obtain ⟨k, hk⟩ := h.slotOf_of_resolve hkey hi hdir
      exact ⟨k, (h.walk_eq_some_iff hkey).mpr ⟨i, hi, hdir, hk⟩⟩
    · rintro ⟨d, hd⟩
      obtain ⟨i, hi, hdir, -⟩ := (h.walk_eq_some_iff hkey).mp hd
      exact ⟨.directory, rfl, treeOf_eq_some.mpr ⟨hkey, i, hi, hdir⟩⟩

/-- **A new entry adds exactly its list.** -/
theorem treeOf_add (h : FsTree fs) {fs' : Filesystem} {e : FsEntry} (hp : IsKey ps)
    (hd : parentOf fs ps = some d) (hfree : resolve fs ps = none) (hname : e.name = lastName ps)
    (hnew : fs'.files fs.fileCount = e) (hold : ∀ i, i ≠ fs.fileCount → fs'.files i = fs.files i)
    (hres : ∀ qs, IsParts qs → resolve fs' qs = if parentOf fs qs = some d ∧ e.name = lastName qs
      then (resolve fs qs).or (some fs.fileCount) else resolve fs qs) :
    treeOf fs' = Function.update (treeOf fs) ps (some e.type) := by
  funext qs
  by_cases hqp : qs = ps
  · subst hqp
    rw [Function.update_self, treeOf_of_key hp, hres qs hp.isParts, if_pos ⟨hd, hname⟩, hfree,
      Option.none_or, Option.map_some, hnew]
  · rw [Function.update_of_ne hqp]
    by_cases hq : IsKey qs
    · have hcond : ¬(parentOf fs qs = some d ∧ e.name = lastName qs) := by
        rintro ⟨hd', hname'⟩
        exact hqp (hq.ext hp (h.parentOf_inj hq hp hd' hd) (hname'.symm.trans hname))
      rw [treeOf_of_key hq, treeOf_of_key hq, hres qs hq.isParts, if_neg hcond]
      cases hr : resolve fs qs with
      | none => rfl
      | some i => rw [Option.map_some, Option.map_some, hold i (Nat.ne_of_lt (h.resolve_lt hr))]
    · rw [treeOf, treeOf, if_neg hq, if_neg hq]

/-- **An entry taken away removes exactly its list.** -/
theorem treeOf_remove (h : FsTree fs) {fs' : Filesystem} (hp : IsKey ps)
    (hi : resolve fs ps = some i) (hold : ∀ j, j ≠ i → fs'.files j = fs.files j)
    (hres : ∀ qs, IsParts qs → qs ≠ [] →
      resolve fs' qs = if resolve fs qs = some i then none else resolve fs qs) :
    treeOf fs' = Function.update (treeOf fs) ps none := by
  funext qs
  by_cases hqp : qs = ps
  · subst hqp
    rw [Function.update_self, treeOf_of_key hp, hres qs hp.isParts hp.ne_nil, if_pos hi]
    rfl
  · rw [Function.update_of_ne hqp]
    by_cases hq : IsKey qs
    · have hcond : resolve fs qs ≠ some i := fun hr => hqp (h.resolve_inj hq hp hr hi)
      rw [treeOf_of_key hq, treeOf_of_key hq, hres qs hq.isParts hq.ne_nil, if_neg hcond]
      cases hr : resolve fs qs with
      | none => rfl
      | some j =>
          have hji : j ≠ i := fun hji => hcond (hji ▸ hr)
          rw [Option.map_some, Option.map_some, hold j hji]
    · rw [treeOf, treeOf, if_neg hq, if_neg hq]

/-- **A directory has children in the tree if and only if its slot lists entries.** -/
theorem childless_iff (h : FsTree fs) (hp : IsKey ps) (hi : resolve fs ps = some i)
    (hdir : (fs.files i).type = .directory)
    (hk : slotOf fs (fs.files i).name (fs.files i).parentDir = some k) :
    Namespace.Childless (treeOf fs) ps ↔ (fs.directories k).files = [] := by
  have hwalk : walk fs ps 0 = some k := (h.walk_eq_some_iff hp).mpr ⟨i, hi, hdir, hk⟩
  have hparent : ∀ x, parentOf fs (ps ++ [x]) = some k := by
    intro x
    rw [parentOf, List.dropLast_concat, hwalk]
  constructor
  · intro hchild
    by_contra hne
    obtain ⟨j, hj⟩ := List.exists_mem_of_ne_nil _ hne
    obtain ⟨hklt, hkname, -⟩ := slotOf_some hk
    obtain ⟨d, -, hd, hmem, hname, -⟩ := h.resolve_some hi
    have hk0 : k ≠ 0 := h.ne_root (hkname ▸ h.listed_name d hd i hmem)
    have hjne : (fs.files j).name ≠ [] := fun he => hk0 (h.empty_name k hklt j hj he)
    obtain ⟨hslash, hlen⟩ := h.listed_name k hklt j hj
    have hkey := hp.concat ⟨hjne, hslash⟩ hlen
    have hres : resolve fs (ps ++ [(fs.files j).name]) = some j := by
      rw [resolve, hparent, Option.bind_some, lastName_append, List.take_of_length_le hlen]
      exact h.entryIn_of_mem hklt hj hjne
    have hnone := hchild (fs.files j).name
    rw [treeOf_of_key hkey, hres] at hnone
    exact absurd hnone (by simp)
  · intro hnil x
    rw [treeOf]
    split
    · rw [resolve, hparent, Option.bind_some, entryIn, hnil]
      rfl
    · rfl

end FsTree

/-! ### The machine on trees -/

/-- One call, as a step of the abstract tree. -/
inductive NsStep : FsOp → Int → Namespace.Tree (List UInt8) FsEntryType →
    Namespace.Tree (List UInt8) FsEntryType → Prop
  | mkdir {path T} (h : Namespace.CanAdd IsDir T (components path)) :
      NsStep (.mkdir path) 0 T (Function.update T (components path) (some .directory))
  | create {path size T} (h : Namespace.CanAdd IsDir T (components path)) :
      NsStep (.create path size) 0 T (Function.update T (components path) (some .file))
  | delete {path T} (h : Namespace.CanRemove IsDir T (components path)) :
      NsStep (.delete path) 0 T (Function.update T (components path) none)
  | refuse {op T} (h : ∀ path, op = .delete path →
      ¬Namespace.CanRemove IsDir T (components path)) : NsStep op (-1) T T

theorem NsStep.closed {op : FsOp} {r : Int} {T T' : Namespace.Tree (List UInt8) FsEntryType}
    (hT : Namespace.Closed IsDir T) (h : NsStep op r T T') : Namespace.Closed IsDir T' := by
  cases h with
  | mkdir h => exact hT.add h .directory
  | create h => exact hT.add h .file
  | delete h => exact hT.remove h
  | refuse h => exact hT

/-- The calls of the claimed runs: creations and deletions under lists that fit. -/
def FsOp.Keyed : FsOp → Prop
  | .mkdir path => IsKey (components path)
  | .create path _ => IsKey (components path)
  | .delete path => IsKey (components path)
  | _ => False

instance : ∀ op : FsOp, Decidable op.Keyed
  | .mkdir path => inferInstanceAs (Decidable (IsKey (components path)))
  | .create path _ => inferInstanceAs (Decidable (IsKey (components path)))
  | .delete path => inferInstanceAs (Decidable (IsKey (components path)))
  | .write _ _ | .copy _ _ | .move _ _ | .changeDir _ => inferInstanceAs (Decidable False)

section Step

variable {σ : Type} {A : Allocator σ} {st : FsState σ} {path : List UInt8}

theorem NewEntry.canAdd (h : FsTree fs) (hnew : NewEntry fs path d) (hp : IsKey (components path)) :
    Namespace.CanAdd IsDir (treeOf fs) (components path) where
  ne_nil := hp.ne_nil
  free := by
    rw [treeOf_of_key hp, ← lookup_of_ne_nil hp.ne_nil, hnew.free]
    rfl
  parent := (h.hasParent_iff hp).mpr ⟨d, hnew.parent⟩

/-- **One call is one step of the tree.** -/
theorem fsStep_refines (op : FsOp) (h : FsInv st) (hp : op.HasPaths) (hkey : op.Keyed)
    (hspare : Spare op st) : ∃ r st', fsStep A op st = some (r, st') ∧ FsInv st' ∧
      NsStep op r (treeOf st.fs) (treeOf st'.fs) := by
  have hrefuse : ∀ {op : FsOp}, (∀ path, op ≠ .delete path) →
      NsStep op (-1) (treeOf st.fs) (treeOf st.fs) := by
    intro op hop
    exact NsStep.refuse fun path he => absurd he (hop path)
  cases op with
  | mkdir path =>
      rw [fsStep]
      rcases h.tree.fsMkdir_cases (hp path (by simp [FsOp.paths])) (fun _ => hspare) with
        ⟨-, he⟩ | ⟨d, -, hnew, -, htree, he⟩
      · exact ⟨-1, st, by rw [he]; rfl, h, hrefuse (by simp)⟩
      · refine ⟨0, { st with fs := st.fs.addDir d (dirEntry st.fs path d) }, by rw [he]; rfl,
          ⟨htree, h.cwd⟩, ?_⟩
        have hfree := hnew.free
        rw [lookup_of_ne_nil hkey.ne_nil] at hfree
        have htreeOf := h.tree.treeOf_add hkey hnew.parent hfree rfl addDir_file_self
          (fun i hi => addDir_file_of_ne hi)
          (fun qs hqs => h.tree.resolve_addDir htree hnew.lt hqs)
        dsimp only
        rw [htreeOf]
        exact NsStep.mkdir (hnew.canAdd h.tree hkey)
  | create path size =>
      have hcreate : ∀ {d ptr : Nat} (heap : σ) (mem : Mem), NewEntry st.fs path d →
          FsTree (st.fs.addEntry d (fileEntry st.fs path d size ptr)) →
          NsStep (.create path size) 0 (treeOf st.fs)
            (treeOf (st.fs.addEntry d (fileEntry st.fs path d size ptr))) := by
        intro d ptr heap mem hnew htree
        have hfree := hnew.free
        rw [lookup_of_ne_nil hkey.ne_nil] at hfree
        have htreeOf := h.tree.treeOf_add hkey hnew.parent hfree rfl addEntry_file_self
          (fun i hi => addEntry_file_of_ne hi)
          (fun qs hqs => h.tree.resolve_addEntry htree hqs)
        rw [htreeOf]
        exact NsStep.create (hnew.canAdd h.tree hkey)
      rcases h.tree.fsCreate_cases (A := A) (hp path (by simp [FsOp.paths])) size with
        ⟨-, he⟩ | ⟨d, -, -, -, he⟩ | ⟨d, -, hnew, -, -, htree, he⟩ | ⟨d, -, hnew, hsize, htree, he⟩
      · exact ⟨_, _, he, h, hrefuse (by simp)⟩
      · exact ⟨_, _, he, h.withHeap _ _, hrefuse (by simp)⟩
      · exact ⟨_, _, he, ⟨htree, h.cwd⟩, hcreate st.heap st.mem hnew htree⟩
      · subst hsize
        exact ⟨_, _, he, ⟨htree, h.cwd⟩, hcreate st.heap st.mem hnew htree⟩
  | delete path =>
      have hlookup : lookup st.fs path = resolve st.fs (components path) :=
        lookup_of_ne_nil hkey.ne_nil
      rcases h.tree.fsDelete_cases (A := A) (hp path (by simp [FsOp.paths])) with
        ⟨he, hno⟩ | ⟨i, hl, hfile, htree, he⟩ | ⟨i, k, hl, hdir, hk, hempty, htree, he⟩
      · refine ⟨_, _, he, h, NsStep.refuse ?_⟩
        rintro path' hpath' ⟨t, ht, hchild⟩
        rw [FsOp.delete.injEq] at hpath'
        subst hpath'
        obtain ⟨-, i, hi, rfl⟩ := treeOf_eq_some.mp ht
        obtain ⟨hdir, hfull⟩ := hno i (hlookup.trans hi)
        obtain ⟨k, hk⟩ := h.tree.slotOf_of_resolve hkey hi hdir
        exact hfull k hk ((h.tree.childless_iff hkey hi hdir hk).mp (hchild hdir))
      · obtain ⟨hmem, hd, -, -, -⟩ := h.tree.lookup_some hl
        have hi := hlookup.symm.trans hl
        refine ⟨_, _, he, ⟨htree, ?_⟩, ?_⟩
        · rw [FsState.release_currentDirectory]
          exact h.cwd
        · have htreeOf := h.tree.treeOf_remove hkey hi (fun j hj => removeEntry_file_of_ne hj)
            (fun qs hqs hne => h.tree.resolve_removeEntry htree hd hmem hqs hne)
          dsimp only
          rw [htreeOf]
          refine NsStep.delete ⟨.file, treeOf_eq_some.mpr ⟨hkey, i, hi, hfile⟩, ?_⟩
          intro hcon
          exact absurd hcon (by decide)
      · obtain ⟨hmem, hd, -, -, hname⟩ := h.tree.lookup_some hl
        have hi := hlookup.symm.trans hl
        obtain ⟨hklt, hkname, -⟩ := slotOf_some hk
        have hk0 : k ≠ 0 := h.tree.ne_root (hkname ▸ h.tree.listed_name _ hd i hmem)
        refine ⟨_, _, he, ⟨htree, h.cwd⟩, ?_⟩
        have htreeOf := h.tree.treeOf_remove hkey hi (fun j hj => removeDir_file_of_ne hj)
          (fun qs hqs hne => h.tree.resolve_removeDir htree hd hmem hk0 hklt hempty hqs hne)
        dsimp only
        rw [htreeOf]
        refine NsStep.delete ⟨.directory, treeOf_eq_some.mpr ⟨hkey, i, hi, hdir⟩, ?_⟩
        intro _
        exact (h.tree.childless_iff hkey hi hdir hk).mpr hempty
  | write path data => exact hkey.elim
  | copy srcPath destPath => exact hkey.elim
  | move srcPath destPath => exact hkey.elim
  | changeDir path => exact hkey.elim

/-- `fs_find` reads the tree, and two paths with the same components alike. -/
structure FindsTree (fs : Filesystem) : Prop where
  find : ∀ path, IsPath path → IsKey (components path) → ∃ code, fsFind fs path = some code ∧
    ((code = -1 ∧ treeOf fs (components path) = none) ∨
      ∃ i < fs.fileCount, code = i ∧ treeOf fs (components path) = some (fs.files i).type)
  congr : ∀ path path', IsPath path → IsPath path' → components path = components path' →
    IsKey (components path) → fsFind fs path = fsFind fs path'

theorem FsTree.fsFind_key (h : FsTree fs) (hp : IsPath path) (hkey : IsKey (components path)) :
    fsFind fs path = some (codeOf (resolve fs (components path))) := by
  rw [h.fsFind_eq hp, if_neg]
  intro hroot
  exact hkey.ne_nil (components_of_fsIsRoot hroot)

theorem FsTree.findsTree (h : FsTree fs) : FindsTree fs where
  find := by
    intro path hp hkey
    refine ⟨_, h.fsFind_key hp hkey, ?_⟩
    rw [treeOf_of_key hkey]
    cases hr : resolve fs (components path) with
    | none => exact Or.inl ⟨rfl, rfl⟩
    | some i => exact Or.inr ⟨i, h.resolve_lt hr, rfl, rfl⟩
  congr := by
    intro path path' hp hp' heq hkey
    rw [h.fsFind_key hp hkey, h.fsFind_key hp' (heq ▸ hkey), heq]

/-- **The file system implements a tree of names.** -/
theorem fsRun_refines (A : Allocator σ) (heap : σ) (mem : Mem) (ops : List FsOp)
    (hp : ∀ op ∈ ops, op.HasPaths ∧ op.Keyed)
    (hspare : Machine.Meets (fsStep A) Spare ops (fsInitState heap mem)) :
    ∃ os st, Machine.run (fsStep A) ops (fsInitState heap mem) = some (os, st) ∧
      Machine.Traces NsStep ops os (fun _ => none) (treeOf st.fs) ∧
      Namespace.Closed IsDir (treeOf st.fs) ∧ FindsTree st.fs := by
  have hG : Machine.Meets (fsStep A) (fun op st => (op.HasPaths ∧ op.Keyed) ∧ Spare op st) ops
      (fsInitState heap mem) :=
    Machine.meets_and.mpr ⟨Machine.meets_of_forall (fun op hop _ => hp op hop) _, hspare⟩
  obtain ⟨os, st, hr, hI, htr⟩ :=
    Machine.run_refines (I := FsInv) (fun st : FsState σ => treeOf st.fs)
    (fun op _ h hG => fsStep_refines op h hG.1.1 hG.1.2 hG.2) (fsInitState_inv heap mem) hG
  have hempty : treeOf (fsInitState heap mem).fs = fun _ => none := by
    funext ps
    rw [treeOf]
    split
    · cases hr : resolve (fsInitState heap mem).fs ps with
      | none => rfl
      | some i => exact absurd (fsInit_tree.resolve_lt hr) (Nat.not_lt_zero i)
    · rfl
  rw [hempty] at htr
  exact ⟨os, st, hr, htr, htr.inv (fun _ _ _ _ hT h => h.closed hT) Namespace.closed_empty,
    hI.tree.findsTree⟩

theorem fsRun_refines_mkdir : ∃ os st, Machine.run (fsStep noMemory)
    [.mkdir [slash, 97], .create [slash, 97, slash, 98] 0, .delete [slash, 97]]
      (fsInitState () ⟨fun _ => 0⟩) = some (os, st) ∧
      Machine.Traces NsStep [.mkdir [slash, 97], .create [slash, 97, slash, 98] 0,
        .delete [slash, 97]] os (fun _ => none) (treeOf st.fs) ∧
      Namespace.Closed IsDir (treeOf st.fs) ∧ FindsTree st.fs :=
  fsRun_refines noMemory () ⟨fun _ => 0⟩ _ (by decide) (by decide +kernel)

end Step

end AceOS.Drivers.Fs
