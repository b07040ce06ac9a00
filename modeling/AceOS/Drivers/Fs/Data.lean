import AceOS.Drivers.Fs.Run
import AceOS.Lib.Ownership

/-!
# The data of files

`dataOf` is the block of each file in the tables.  `FsHeap` says that the file system
holds exactly these blocks, and those in its hands: the buffer of a copy while the copy
lasts, and a new block until an entry points to it.  Every call keeps this, and changes
the data of no entry but its target (`Keeps`).
-/

namespace AceOS.Drivers.Fs

open Filesystem Memory Memory.Allocator

/-! ### Records -/

/-- The entry is in the list of a directory. -/
def Listed (fs : Filesystem) (i : Nat) : Prop :=
  ∃ d < fs.dirCount, i ∈ (fs.directories d).files

instance (fs : Filesystem) (i : Nat) : Decidable (Listed fs i) :=
  inferInstanceAs (Decidable (∃ d < fs.dirCount, i ∈ (fs.directories d).files))

def dataOf (fs : Filesystem) : Owners Nat := fun i =>
  if Listed fs i ∧ (fs.files i).type = .file ∧ (fs.files i).dataPointer ≠ 0 then
    some ((fs.files i).dataPointer, (fs.files i).size)
  else none

section Records

variable {fs : Filesystem} {d i j k ptr size : Nat} {e : FsEntry}

theorem dataOf_eq_some {n p : Nat} : dataOf fs i = some (p, n) ↔ Listed fs i ∧
    (fs.files i).type = .file ∧ (fs.files i).dataPointer ≠ 0 ∧
    (fs.files i).dataPointer = p ∧ (fs.files i).size = n := by
  rw [dataOf]
  split
  · rename_i h
    rw [Option.some.injEq, Prod.mk.injEq]
    exact ⟨fun h' => ⟨h.1, h.2.1, h.2.2, h'⟩, fun h' => h'.2.2.2⟩
  · rename_i h
    exact ⟨fun h' => absurd h' (by simp), fun h' => absurd ⟨h'.1, h'.2.1, h'.2.2.1⟩ h⟩

theorem FsTree.lt_of_listed (h : FsTree fs) (hi : Listed fs i) : i < fs.fileCount := by
  obtain ⟨d, hd, hi⟩ := hi
  exact h.toFsBounds.listed_lt d hd i hi

theorem FsTree.dataOf_lt (h : FsTree fs) {p n : Nat} (hi : dataOf fs i = some (p, n)) :
    i < fs.fileCount := h.lt_of_listed (dataOf_eq_some.mp hi).1

theorem FsTree.dataOf_next (h : FsTree fs) : dataOf fs fs.fileCount = none := by
  cases hn : dataOf fs fs.fileCount with
  | none => rfl
  | some p => exact absurd (h.dataOf_lt hn) (Nat.lt_irrefl _)

theorem listed_addEntry (hd : d < fs.dirCount) :
    Listed (fs.addEntry d e) i ↔ Listed fs i ∨ i = fs.fileCount := by
  constructor
  · rintro ⟨c, hc, hi⟩
    rcases mem_addEntry.mp hi with hi | ⟨-, hi⟩
    · exact Or.inl ⟨c, hc, hi⟩
    · exact Or.inr hi
  · rintro (⟨c, hc, hi⟩ | hi)
    · exact ⟨c, hc, mem_addEntry.mpr (Or.inl hi)⟩
    · exact ⟨d, hd, mem_addEntry.mpr (Or.inr ⟨rfl, hi⟩)⟩

theorem FsTree.listed_addDir (h : FsTree fs) (hd : d < fs.dirCount) :
    Listed (fs.addDir d e) i ↔ Listed fs i ∨ i = fs.fileCount := by
  constructor
  · rintro ⟨c, -, hi⟩
    rcases mem_addDir.mp hi with hi | ⟨-, hi⟩
    · refine Or.inl ⟨c, ?_, hi⟩
      by_contra hcn
      rw [h.fresh c (Nat.not_lt.mp hcn)] at hi
      exact List.not_mem_nil hi
    · exact Or.inr hi
  · rintro (⟨c, hc, hi⟩ | hi)
    · exact ⟨c, Nat.lt_succ_of_lt hc, mem_addDir.mpr (Or.inl hi)⟩
    · exact ⟨d, Nat.lt_succ_of_lt hd, mem_addDir.mpr (Or.inr ⟨rfl, hi⟩)⟩

theorem FsTree.listed_removeEntry (h : FsTree fs) (hd : d < fs.dirCount)
    (hi : i ∈ (fs.directories d).files) :
    Listed (fs.removeEntry i d) j ↔ Listed fs j ∧ j ≠ i := by
  constructor
  · rintro ⟨c, hc, hj⟩
    obtain ⟨hj, hji⟩ := (h.mem_removeEntry hd hi hc).mp hj
    exact ⟨⟨c, hc, hj⟩, hji⟩
  · rintro ⟨⟨c, hc, hj⟩, hji⟩
    exact ⟨c, hc, (h.mem_removeEntry hd hi hc).mpr ⟨hj, hji⟩⟩

theorem dataOf_addEntry (hd : d < fs.dirCount) :
    dataOf (fs.addEntry d e) = Function.update (dataOf fs) fs.fileCount
      (if e.type = .file ∧ e.dataPointer ≠ 0 then some (e.dataPointer, e.size) else none) := by
  funext j
  by_cases hj : j = fs.fileCount
  · subst hj
    rw [Function.update_self, dataOf, addEntry_file_self]
    have hlisted : Listed (fs.addEntry d e) fs.fileCount := (listed_addEntry hd).mpr (Or.inr rfl)
    simp only [hlisted, true_and]
  · rw [Function.update_of_ne hj, dataOf, dataOf, addEntry_file_of_ne hj]
    have hlisted : Listed (fs.addEntry d e) j ↔ Listed fs j := by
      rw [listed_addEntry hd, or_iff_left hj]
    simp only [hlisted]

theorem FsTree.dataOf_addDir (h : FsTree fs) (hd : d < fs.dirCount) (he : e.type = .directory) :
    dataOf (fs.addDir d e) = dataOf fs := by
  funext j
  by_cases hj : j = fs.fileCount
  · subst hj
    rw [h.dataOf_next, dataOf, addDir_file_self, he]
    simp
  · rw [dataOf, dataOf, addDir_file_of_ne hj]
    have hlisted : Listed (fs.addDir d e) j ↔ Listed fs j := by
      rw [h.listed_addDir hd, or_iff_left hj]
    simp only [hlisted]

theorem FsTree.dataOf_removeEntry (h : FsTree fs) (hd : d < fs.dirCount)
    (hi : i ∈ (fs.directories d).files) :
    dataOf (fs.removeEntry i d) = Function.update (dataOf fs) i none := by
  funext j
  by_cases hj : j = i
  · subst hj
    rw [Function.update_self, dataOf, if_neg]
    rintro ⟨hlisted, -⟩
    exact ((h.listed_removeEntry hd hi).mp hlisted).2 rfl
  · rw [Function.update_of_ne hj, dataOf, dataOf, removeEntry_file_of_ne hj]
    have hlisted : Listed (fs.removeEntry i d) j ↔ Listed fs j := by
      rw [h.listed_removeEntry hd hi, and_iff_left hj]
    simp only [hlisted]

theorem FsTree.dataOf_removeDir (h : FsTree fs) (hd : d < fs.dirCount)
    (hi : i ∈ (fs.directories d).files) :
    dataOf (fs.removeDir k i d) = Function.update (dataOf fs) i none := by
  rw [← h.dataOf_removeEntry hd hi]
  funext j
  have hlisted : Listed (fs.removeDir k i d) j ↔ Listed (fs.removeEntry i d) j := by
    simp only [Listed, removeDir_files, removeEntry_files]
    rfl
  simp only [dataOf, hlisted]
  rfl

theorem dataOf_setData (hi : Listed fs i) (htype : (fs.files i).type = .file) :
    dataOf (fs.setData i ptr size) = Function.update (dataOf fs) i
      (if ptr ≠ 0 then some (ptr, size) else none) := by
  funext j
  have hlisted : Listed (fs.setData i ptr size) j ↔ Listed fs j := Iff.rfl
  by_cases hj : j = i
  · subst hj
    rw [Function.update_self, dataOf, setData_type, setData_file_self]
    simp only [hlisted, hi, htype, true_and]
  · rw [Function.update_of_ne hj, dataOf, dataOf, setData_file_of_ne hj]
    simp only [hlisted]

end Records

/-! ### What a call keeps -/

/-- Between two states, the entries in `P` keep their fields, their blocks with the
contents, and what names them. -/
structure Keeps (P : Nat → Prop) (fs : Filesystem) (H : Holdings) (fs' : Filesystem)
    (H' : Holdings) : Prop where
  files : ∀ i < fs.fileCount, P i → fs'.files i = fs.files i
  data : ∀ i p n, P i → dataOf fs i = some (p, n) → dataOf fs' i = some (p, n) ∧ H' p = H p
  resolve : ∀ ps i, IsParts ps → P i → resolve fs ps = some i → resolve fs' ps = some i
  grows : fs.fileCount ≤ fs'.fileCount

namespace Keeps

variable {P Q : Nat → Prop} {fs fs' fs'' : Filesystem} {H H' H'' : Holdings}

theorem refl (P : Nat → Prop) (fs : Filesystem) (H : Holdings) : Keeps P fs H fs H :=
  ⟨fun _ _ _ => rfl, fun _ _ _ _ h => ⟨h, rfl⟩, fun _ _ _ _ h => h, Nat.le_refl _⟩

theorem trans (h : Keeps P fs H fs' H') (h' : Keeps P fs' H' fs'' H'') : Keeps P fs H fs'' H'' where
  files := by
    intro i hi hP
    rw [h'.files i (Nat.lt_of_lt_of_le hi h.grows) hP, h.files i hi hP]
  data := by
    intro i p n hP hd
    obtain ⟨hd', hH⟩ := h.data i p n hP hd
    obtain ⟨hd'', hH'⟩ := h'.data i p n hP hd'
    exact ⟨hd'', hH'.trans hH⟩
  resolve := by
    intro ps i hps hP hr
    exact h'.resolve ps i hps hP (h.resolve ps i hps hP hr)
  grows := Nat.le_trans h.grows h'.grows

theorem mono (hPQ : ∀ i, Q i → P i) (h : Keeps P fs H fs' H') : Keeps Q fs H fs' H' where
  files := fun i hi hQ => h.files i hi (hPQ i hQ)
  data := fun i p n hQ => h.data i p n (hPQ i hQ)
  resolve := fun ps i hps hQ => h.resolve ps i hps (hPQ i hQ)
  grows := h.grows

theorem of_heap (hH : ∀ i p n, dataOf fs i = some (p, n) → H' p = H p) : Keeps P fs H fs H' :=
  ⟨fun _ _ _ => rfl, fun i p n _ h => ⟨h, hH i p n h⟩, fun _ _ _ _ h => h, Nat.le_refl _⟩

theorem lookup (h : Keeps P fs H fs' H') {path : List UInt8} {i : Nat} (hP : P i)
    (hl : lookup fs path = some i) : Fs.lookup fs' path = some i := by
  obtain ⟨hroot, hr⟩ := lookup_eq_some.mp hl
  exact lookup_eq_some.mpr ⟨hroot, h.resolve _ i (isParts_components path) hP hr⟩

end Keeps

/-! ### The heap of the file system -/

variable {σ : Type} {A : Allocator σ} {I : Holdings → σ → Mem → Prop} {hand : Set Nat}
  {H : Holdings} {st : FsState σ} {path : List UInt8}

/-- The file system holds the blocks of its files and those in its hands. -/
structure FsHeap (I : Holdings → σ → Mem → Prop) (hand : Set Nat) (H : Holdings)
    (st : FsState σ) : Prop extends FsInv st where
  heap : I H st.heap st.mem
  accounts : Accounts (dataOf st.fs) H hand

namespace FsHeap

theorem malloc_zero (hA : A.Serves I) (h : FsHeap I hand H st) {n : Nat}
    (hz : (st.malloc A n).1 = 0) : FsHeap I hand H (st.malloc A n).2 :=
  ⟨h.toFsInv.withHeap _ _, hA.malloc_zero H n st.heap st.mem h.heap hz, h.accounts⟩

theorem malloc_block (hA : A.Serves I) (h : FsHeap I hand H st) {n : Nat}
    (hne : (st.malloc A n).1 ≠ 0) : (st.malloc A n).1 ∉ hand ∧ H (st.malloc A n).1 = none ∧
      ∃ bs, bs.length = n ∧ FsHeap I (insert (st.malloc A n).1 hand)
        (Function.update H (st.malloc A n).1 (some bs)) (st.malloc A n).2 := by
  obtain ⟨hnone, bs, hlen, hI⟩ := hA.malloc_block H n st.heap st.mem h.heap hne
  refine ⟨?_, hnone, bs, hlen, h.toFsInv.withHeap _ _, hI, h.accounts.take hnone⟩
  intro hmem
  exact h.accounts.hand_held _ hmem hnone

theorem free (hA : A.Serves I) {p : Nat} (h : FsHeap I (insert p hand) H st) (hp : p ∉ hand) :
    FsHeap I hand (Function.update H p none) (st.free A p) := by
  obtain ⟨bs, hbs⟩ := Option.ne_none_iff_exists'.mp
    (h.accounts.hand_held p (Set.mem_insert p hand))
  exact ⟨h.toFsInv.withHeap _ _, hA.free H p bs st.heap st.mem h.heap hbs, h.accounts.drop hp⟩

theorem store (hA : A.Serves I) (h : FsHeap I hand H st) {p : Nat} {bs data : List UInt8}
    (hp : H p = some bs) (hlen : data.length = bs.length) :
    FsHeap I hand (Function.update H p (some data))
      { st with mem := storeBytes st.mem p data } :=
  ⟨h.toFsInv.withHeap _ _, hA.store H p bs data st.heap st.mem h.heap hp hlen,
    h.accounts.store hp hlen⟩

theorem withFs (h : FsHeap I hand H st) {fs : Filesystem} {hand' : Set Nat} (htree : FsTree fs)
    (hacc : Accounts (dataOf fs) H hand') : FsHeap I hand' H { st with fs := fs } :=
  ⟨⟨htree, h.cwd⟩, h.heap, hacc⟩

end FsHeap

/-! ### Creations -/

theorem FsTree.keeps_addEntry {fs : Filesystem} {d : Nat} {e : FsEntry} (h : FsTree fs)
    (htree : FsTree (fs.addEntry d e)) (hd : d < fs.dirCount) {H H' : Holdings}
    (hH : ∀ i p n, dataOf fs i = some (p, n) → H' p = H p) :
    Keeps (fun _ => True) fs H (fs.addEntry d e) H' where
  files := fun i hi _ => addEntry_file_of_ne (Nat.ne_of_lt hi)
  data := by
    intro i p n _ hi
    refine ⟨?_, hH i p n hi⟩
    rw [dataOf_addEntry hd, Function.update_of_ne (Nat.ne_of_lt (h.dataOf_lt hi)), hi]
  resolve := by
    intro ps i hps _ hr
    rw [h.resolve_addEntry htree hps, hr]
    split <;> rfl
  grows := Nat.le_succ _

theorem FsTree.keeps_addDir {fs : Filesystem} {d : Nat} {e : FsEntry} (h : FsTree fs)
    (htree : FsTree (fs.addDir d e)) (hd : d < fs.dirCount) (he : e.type = .directory)
    (H : Holdings) : Keeps (fun _ => True) fs H (fs.addDir d e) H where
  files := fun i hi _ => addDir_file_of_ne (Nat.ne_of_lt hi)
  data := by
    intro i p n _ hi
    exact ⟨(h.dataOf_addDir hd he).symm ▸ hi, rfl⟩
  resolve := by
    intro ps i hps _ hr
    rw [h.resolve_addDir htree hd hps, hr]
    split <;> rfl
  grows := Nat.le_succ _

theorem FsTree.lookup_addEntry {fs : Filesystem} {d i : Nat} {e : FsEntry} (h : FsTree fs)
    (htree : FsTree (fs.addEntry d e)) (hfree : lookup fs path = none)
    (hl : lookup (fs.addEntry d e) path = some i) : i = fs.fileCount := by
  obtain ⟨hroot, hr⟩ := lookup_eq_some.mp hl
  rw [lookup, hroot, if_neg Bool.false_ne_true] at hfree
  rw [h.resolve_addEntry htree (isParts_components path), hfree] at hr
  split at hr
  · exact (Option.some.inj hr).symm
  · exact absurd hr (by simp)

/-- **A creation** gets the block it needs, and keeps everything. -/
theorem FsHeap.create (hA : A.Serves I) (h : FsHeap I hand H st) (hp : IsPath path) (size : Nat) :
    ∃ r st' H', fsCreate A path size st = some (r, st') ∧ FsHeap I hand H' st' ∧
      Keeps (fun _ => True) st.fs H st'.fs H' ∧
      (r = 0 → ∀ i, lookup st'.fs path = some i → i = st.fs.fileCount) := by
  rcases h.tree.fsCreate_cases (A := A) hp size with ⟨-, he⟩ | ⟨d, -, -, hz, he⟩ |
    ⟨d, -, hnew, hsize, hne, htree, he⟩ | ⟨d, -, hnew, -, htree, he⟩
  · exact ⟨_, _, H, he, h, Keeps.refl _ _ _, fun hr => absurd hr (by decide)⟩
  · exact ⟨_, _, H, he, h.malloc_zero hA hz, Keeps.refl _ _ _, fun hr => absurd hr (by decide)⟩
  · obtain ⟨hhand, hnone, bs, hlen, hheap⟩ := h.malloc_block hA hne
    refine ⟨_, _, _, he, hheap.withFs htree ?_, ?_, ?_⟩
    · rw [dataOf_addEntry hnew.lt]
      have hcond : (fileEntry st.fs path d size (st.malloc A size).1).type = .file ∧
          (fileEntry st.fs path d size (st.malloc A size).1).dataPointer ≠ 0 := ⟨rfl, hne⟩
      rw [if_pos hcond]
      exact hheap.accounts.adopt hhand h.tree.dataOf_next (Function.update_self ..) hlen
    · refine h.tree.keeps_addEntry htree hnew.lt ?_
      intro i p n hi
      obtain ⟨cs, hcs, -⟩ := h.accounts.held i p n hi
      rw [Function.update_of_ne]
      rintro rfl
      rw [hnone] at hcs
      exact absurd hcs (by simp)
    · intro _ i hi
      exact h.tree.lookup_addEntry htree hnew.free hi
  · refine ⟨_, _, H, he, h.withFs htree ?_, h.tree.keeps_addEntry htree hnew.lt fun _ _ _ _ => rfl,
      ?_⟩
    · have hcond : ¬((fileEntry st.fs path d 0 0).type = .file ∧
          (fileEntry st.fs path d 0 0).dataPointer ≠ 0) := fun hcon => hcon.2 rfl
      rw [dataOf_addEntry hnew.lt, if_neg hcond, ← h.tree.dataOf_next,
        Function.update_eq_self]
      exact h.accounts
    · intro _ i hi
      exact h.tree.lookup_addEntry htree hnew.free hi

/-! ### Deletions -/

theorem FsTree.keeps_removeEntry {fs : Filesystem} {d i : Nat} (h : FsTree fs)
    (htree : FsTree (fs.removeEntry i d)) (hd : d < fs.dirCount)
    (hi : i ∈ (fs.directories d).files) {H H' : Holdings}
    (hH : ∀ j p n, j ≠ i → dataOf fs j = some (p, n) → H' p = H p) :
    Keeps (fun j => j ≠ i) fs H (fs.removeEntry i d) H' where
  files := fun j _ hji => removeEntry_file_of_ne hji
  data := by
    intro j p n hji hj
    refine ⟨?_, hH j p n hji hj⟩
    rw [h.dataOf_removeEntry hd hi, Function.update_of_ne hji, hj]
  resolve := fun _ _ hps hji hr => h.resolve_removeEntry_of_some htree hd hi hps hr hji
  grows := Nat.le_refl _

theorem dataOf_directory {fs : Filesystem} {i : Nat} (hdir : (fs.files i).type = .directory) :
    dataOf fs i = none := by
  rw [dataOf, if_neg]
  rintro ⟨-, hfile, -⟩
  rw [hdir] at hfile
  exact absurd hfile (by decide)

theorem FsTree.dataOf_removeDir_of_dir {fs : Filesystem} {d i k : Nat} (h : FsTree fs)
    (hd : d < fs.dirCount) (hi : i ∈ (fs.directories d).files)
    (hdir : (fs.files i).type = .directory) : dataOf (fs.removeDir k i d) = dataOf fs := by
  rw [h.dataOf_removeDir hd hi, ← dataOf_directory hdir, Function.update_eq_self]

theorem FsTree.keeps_removeDir {fs : Filesystem} {d i k : Nat} (h : FsTree fs)
    (htree : FsTree (fs.removeDir k i d)) (hd : d < fs.dirCount)
    (hi : i ∈ (fs.directories d).files) (hdir : (fs.files i).type = .directory)
    (hk : slotOf fs (fs.files i).name d = some k) (hempty : (fs.directories k).files = [])
    (H : Holdings) : Keeps (fun j => j ≠ i) fs H (fs.removeDir k i d) H where
  files := fun j _ hji => removeDir_file_of_ne hji
  data := by
    intro j p n _ hj
    exact ⟨(h.dataOf_removeDir_of_dir hd hi hdir).symm ▸ hj, rfl⟩
  resolve := by
    intro ps j hps hji hr
    obtain ⟨hklt, hkname, -⟩ := slotOf_some hk
    by_cases hne : (fs.files i).name = []
    · rw [Filesystem.removeDir, clearSlot_eq_self (hkname.trans hne)] at htree ⊢
      exact h.resolve_removeEntry_of_some htree hd hi hps hr hji
    · have hk0 : k ≠ 0 := h.ne_root (hkname ▸ h.listed_name d hd i hi)
      exact h.resolve_removeDir_of_some htree hd hi hk0 hklt hempty hps hr hji
  grows := Nat.le_refl _

theorem FsHeap.release (hA : A.Serves I) (h : FsHeap I hand H st) {i : Nat}
    (hi : Listed st.fs i) (htype : (st.fs.files i).type = .file) {fs : Filesystem}
    (htree : FsTree fs) (hdata : dataOf fs = Function.update (dataOf st.fs) i none) :
    ∃ H', FsHeap I hand H' { st.release A (st.fs.files i).dataPointer with fs := fs } ∧
      ∀ j p n, j ≠ i → dataOf st.fs j = some (p, n) → H' p = H p := by
  by_cases hptr : (st.fs.files i).dataPointer = 0
  · have hnone : dataOf st.fs i = none := by
      rw [dataOf, if_neg fun hcon => hcon.2.2 hptr]
    refine ⟨H, ?_, fun _ _ _ _ _ => rfl⟩
    rw [FsState.release, if_neg (not_not.mpr hptr)]
    refine h.withFs htree ?_
    rw [hdata, ← hnone, Function.update_eq_self]
    exact h.accounts
  · have hsome : dataOf st.fs i = some ((st.fs.files i).dataPointer, (st.fs.files i).size) :=
      dataOf_eq_some.mpr ⟨hi, htype, hptr, rfl, rfl⟩
    have hout : FsHeap I (insert (st.fs.files i).dataPointer hand) H { st with fs := fs } := by
      refine h.withFs htree ?_
      rw [hdata]
      exact h.accounts.release hsome
    refine ⟨Function.update H (st.fs.files i).dataPointer none, ?_, ?_⟩
    · rw [FsState.release, if_pos hptr]
      exact hout.free hA (h.accounts.apart i _ _ hsome)
    · intro j p n hji hj
      rw [Function.update_of_ne]
      rintro rfl
      exact hji (h.accounts.distinct j i _ n _ hj hsome)

theorem ne_of_lookup {fs : Filesystem} {i : Nat} (hl : lookup fs path = some i) (j : Nat)
    (hj : lookup fs path ≠ some j) : j ≠ i := fun hji => hj (hji ▸ hl)

/-- **A deletion** gives the block back, and keeps every other entry. -/
theorem FsHeap.delete (hA : A.Serves I) (h : FsHeap I hand H st) (hp : IsPath path) :
    ∃ r st' H', fsDelete A path st = some (r, st') ∧ FsHeap I hand H' st' ∧
      Keeps (fun i => lookup st.fs path ≠ some i) st.fs H st'.fs H' ∧
      ((∃ i, lookup st.fs path = some i ∧ (st.fs.files i).type = .file) → r = 0) := by
  rcases h.tree.fsDelete_cases (A := A) hp with ⟨he, hdir⟩ | ⟨i, hl, hfile, htree, he⟩ |
    ⟨i, k, hl, hdir, hk, hempty, htree, he⟩
  · refine ⟨_, _, H, he, h, Keeps.refl _ _ _, ?_⟩
    rintro ⟨i, hl, hfile⟩
    rw [(hdir i hl).1] at hfile
    exact absurd hfile (by decide)
  · obtain ⟨hi, hd, -, -, -⟩ := h.tree.lookup_some hl
    obtain ⟨H', hheap, hH⟩ := h.release hA ⟨_, hd, hi⟩ hfile htree (h.tree.dataOf_removeEntry hd hi)
    exact ⟨_, _, H', he, hheap, (h.tree.keeps_removeEntry htree hd hi hH).mono (ne_of_lookup hl),
      fun _ => rfl⟩
  · obtain ⟨hi, hd, -, -, -⟩ := h.tree.lookup_some hl
    have hdata := h.tree.dataOf_removeDir_of_dir (k := k) hd hi hdir
    exact ⟨_, _, H, he, h.withFs htree (hdata ▸ h.accounts),
      (h.tree.keeps_removeDir htree hd hi hdir hk hempty H).mono (ne_of_lookup hl), fun _ => rfl⟩

/-! ### Writes -/

theorem FsTree.keeps_setData {fs : Filesystem} {i : Nat} (h : FsTree fs) (hi : Listed fs i)
    (htype : (fs.files i).type = .file) (ptr size : Nat) {H H' : Holdings}
    (hH : ∀ j p n, j ≠ i → dataOf fs j = some (p, n) → H' p = H p) :
    Keeps (fun j => j ≠ i) fs H (fs.setData i ptr size) H' where
  files := fun j _ hji => setData_file_of_ne hji
  data := by
    intro j p n hji hj
    refine ⟨?_, hH j p n hji hj⟩
    rw [dataOf_setData hi htype, Function.update_of_ne hji, hj]
  resolve := by
    intro ps j hps _ hr
    rw [h.resolve_setData ptr size hps, hr]
  grows := Nat.le_refl _

/-- **A write** that succeeds leaves the data in a block of the target. -/
theorem FsHeap.writeData (hA : A.Serves I) (h : FsHeap I hand H st) {i : Nat}
    (hi : Listed st.fs i) (htype : (st.fs.files i).type = .file) (data : List UInt8) :
    ∃ H', FsHeap I hand H' (st.writeData A i data).2 ∧
      (∀ j p n, j ≠ i → dataOf st.fs j = some (p, n) → H' p = H p) ∧
      ((st.writeData A i data).1 = 0 → ∃ p, (st.writeData A i data).2.fs
        = st.fs.setData i p data.length ∧ p ≠ 0 ∧ H' p = some data) := by
  rcases st.writeData_cases A i data with ⟨hptr, hsize, he⟩ | ⟨hz, he⟩ | ⟨hne, he⟩
  · have hsome : dataOf st.fs i = some ((st.fs.files i).dataPointer, (st.fs.files i).size) :=
      dataOf_eq_some.mpr ⟨hi, htype, hptr, rfl, rfl⟩
    obtain ⟨bs, hbs, hlen⟩ := h.accounts.held i _ _ hsome
    rw [he]
    refine ⟨_, h.store hA hbs (hsize.symm.trans hlen.symm), ?_, ?_⟩
    · intro j p n hji hj
      rw [Function.update_of_ne]
      rintro rfl
      exact hji (h.accounts.distinct j i _ n _ hj hsome)
    · intro _
      refine ⟨(st.fs.files i).dataPointer, ?_, hptr, Function.update_self ..⟩
      rw [← hsize, setData_self]
  all_goals
    -- the old block is given back first
    have hdata₀ : dataOf (st.fs.setData i 0 (st.fs.files i).size)
        = Function.update (dataOf st.fs) i none := dataOf_setData hi htype
    obtain ⟨H₀, hheap₀, hH₀⟩ := h.release hA hi htype
      (h.tree.setData i 0 (st.fs.files i).size) hdata₀
    have hdrop : st.dropData A i = { st.release A (st.fs.files i).dataPointer with
        fs := st.fs.setData i 0 (st.fs.files i).size } := by
      by_cases hptr : (st.fs.files i).dataPointer = 0
      · rw [FsState.dropData_of_zero hptr, FsState.release, if_neg (not_not.mpr hptr), ← hptr,
          setData_self]
      · rw [FsState.dropData_of_ne hptr, FsState.release, if_pos hptr]
    rw [← hdrop] at hheap₀
  · rw [he]
    refine ⟨H₀, hheap₀.malloc_zero hA hz, hH₀, ?_⟩
    intro hr
    exact absurd hr (by simp)
  · obtain ⟨hhand, hnone, bs, hlen, hheap₁⟩ := hheap₀.malloc_block hA hne
    have hheap₂ := hheap₁.store hA (Function.update_self ..) hlen.symm
    rw [he]
    refine ⟨_, hheap₂.withFs (h.tree.setData i _ data.length) ?_, ?_, ?_⟩
    · rw [dataOf_setData hi htype, if_pos hne]
      have hacc := hheap₂.accounts
      have hfs : dataOf ((st.dropData A i).malloc A data.length).2.fs
          = Function.update (dataOf st.fs) i none := by
        rw [FsState.malloc_fs, FsState.dropData_fs, hdata₀]
      dsimp only at hacc
      rw [hfs] at hacc
      have hadopt := hacc.adopt hhand (Function.update_self ..) (Function.update_self ..) rfl
      rwa [Function.update_idem] at hadopt
    · intro j p n hji hj
      have hold := hH₀ j p n hji hj
      obtain ⟨cs, hcs, -⟩ := h.accounts.held j p n hj
      rw [Function.update_of_ne, Function.update_of_ne, hold]
      all_goals
        rintro rfl
        rw [hold, hcs] at hnone
        exact absurd hnone (by simp)
    · intro _
      exact ⟨_, rfl, hne, Function.update_self ..⟩

/-- **`fs_write`** keeps every other entry. -/
theorem FsHeap.write (hA : A.Serves I) (h : FsHeap I hand H st) (hp : IsPath path)
    (data : List UInt8) : ∃ r st' H', fsWrite A path data st = some (r, st') ∧
      FsHeap I hand H' st' ∧ Keeps (fun i => lookup st.fs path ≠ some i) st.fs H st'.fs H' ∧
      (∀ q, lookup st'.fs q = lookup st.fs q) ∧
      (r = 0 → ∃ i p, lookup st.fs path = some i ∧ (st.fs.files i).type = .file ∧
        st'.fs = st.fs.setData i p data.length ∧ p ≠ 0 ∧ H' p = some data) := by
  rcases h.tree.fsWrite_cases (A := A) hp data with ⟨he, -⟩ | ⟨i, hl, hfile, he⟩
  · exact ⟨_, _, H, he, h, Keeps.refl _ _ _, fun _ => rfl, fun hr => absurd hr (by decide)⟩
  · obtain ⟨hi, hd, -, -, -⟩ := h.tree.lookup_some hl
    have hlisted : Listed st.fs i := ⟨_, hd, hi⟩
    obtain ⟨H', hheap, hH, hzero⟩ := h.writeData hA hlisted hfile data
    obtain ⟨ptr, size, hfs⟩ := st.writeData_fs (A := A) i data
    refine ⟨(st.writeData A i data).1, (st.writeData A i data).2, H', he, hheap, ?_, ?_, ?_⟩
    · rw [hfs]
      exact (h.tree.keeps_setData hlisted hfile ptr size hH).mono (ne_of_lookup hl)
    · intro q
      rw [hfs, lookup, lookup, h.tree.resolve_setData ptr size (isParts_components q)]
    · intro hr
      obtain ⟨p, hfs', hpne, hH'⟩ := hzero hr
      exact ⟨i, p, hl, hfile, hfs', hpne, hH'⟩

/-! ### The other calls -/

theorem FsHeap.mkdir (h : FsHeap I hand H st) (hp : IsPath path)
    (hfit : mkdirParent st.fs path ≠ none → st.fs.fileCount < fsMaxFiles) :
    ∃ r fs', fsMkdir path st.fs = some (r, fs') ∧ FsHeap I hand H { st with fs := fs' } ∧
      Keeps (fun _ => True) st.fs H fs' H := by
  rcases h.tree.fsMkdir_cases hp hfit with ⟨-, he⟩ | ⟨d, -, hnew, -, htree, he⟩
  · exact ⟨_, _, he, h, Keeps.refl _ _ _⟩
  · have hdata : dataOf (st.fs.addDir d (dirEntry st.fs path d)) = dataOf st.fs :=
      h.tree.dataOf_addDir hnew.lt rfl
    exact ⟨_, _, he, h.withFs htree (hdata ▸ h.accounts),
      h.tree.keeps_addDir htree hnew.lt rfl H⟩

/-- **The data of a copy** go through a buffer; entries below `n` are not its target. -/
theorem FsHeap.copyData (hA : A.Serves I) (h : FsHeap I hand H st) (hp : IsPath path) {s n : Nat}
    (hs : s < fsMaxFiles) (hfar : ∀ i, lookup st.fs path = some i → n ≤ i) :
    ∃ r st' H', fsCopyData A s path st = some (r, st') ∧ FsHeap I hand H' st' ∧
      Keeps (fun i => i < n) st.fs H st'.fs H' := by
  have hmono : ∀ {fs : Filesystem}, (∀ i, lookup fs path = some i → n ≤ i) →
      ∀ i, i < n → lookup fs path ≠ some i :=
    fun hfar i hi hl => Nat.not_le.mpr hi (hfar i hl)
  rw [fsCopyData, getFile, if_pos hs]
  simp only [Option.bind_eq_bind, Option.bind_some]
  split
  · split
    · rename_i hz
      obtain ⟨r, st₂, H₂, he, h₂, hk, -⟩ := (h.malloc_zero hA hz).delete hA hp
      exact ⟨-1, st₂, H₂, by rw [he]; rfl, h₂, hk.mono (hmono hfar)⟩
    · rename_i hne
      obtain ⟨hhand, hnone, bs, hlen, h₁⟩ := h.malloc_block hA hne
      generalize hbuf : st.malloc A (st.fs.files s).size = buf at hne hhand hnone h₁
      have hfs : buf.2.fs = st.fs := by
        rw [← hbuf]
        rfl
      -- the buffer is filled
      have hfill : (loadBytes buf.2.mem (st.fs.files s).dataPointer (st.fs.files s).size).length
          = bs.length := by rw [loadBytes_length, hlen]
      have h₂ := h₁.store hA (Function.update_self ..) hfill
      rw [Function.update_idem] at h₂
      have hk₂ : Keeps (fun i => i < n) st.fs H buf.2.fs (Function.update H buf.1 (some
          (loadBytes buf.2.mem (st.fs.files s).dataPointer (st.fs.files s).size))) := by
        rw [hfs]
        refine Keeps.of_heap ?_
        intro i p k hi
        obtain ⟨cs, hcs, -⟩ := h.accounts.held i p k hi
        rw [Function.update_of_ne]
        rintro rfl
        rw [hnone] at hcs
        exact absurd hcs (by simp)
      have hfar₂ : ∀ i, lookup buf.2.fs path = some i → n ≤ i := hfs ▸ hfar
      generalize loadBytes (storeBytes buf.2.mem buf.1 (loadBytes buf.2.mem
        (st.fs.files s).dataPointer (st.fs.files s).size)) buf.1 (st.fs.files s).size = data
      -- the target gets the data, and the buffer is given back
      obtain ⟨r, st₃, H₃, he, h₃, hk₃, hlookup, -⟩ := h₂.write hA hp data
      have h₄ := h₃.free hA hhand
      have hk₄ : Keeps (fun i => i < n) st₃.fs H₃ st₃.fs (Function.update H₃ buf.1 none) := by
        refine Keeps.of_heap ?_
        intro i p k hi
        rw [Function.update_of_ne]
        rintro rfl
        exact h₃.accounts.apart i _ k hi (Set.mem_insert _ _)
      have hk := hk₂.trans ((hk₃.mono (hmono hfar₂)).trans hk₄)
      rw [he, Option.bind_some]
      dsimp only
      split
      · have hfar₃ : ∀ i, lookup st₃.fs path = some i → n ≤ i := by
          intro i hi
          exact hfar₂ i ((hlookup path).symm.trans hi)
        obtain ⟨r', st₅, H₅, he', h₅, hk₅, -⟩ := h₄.delete hA hp
        exact ⟨-1, st₅, H₅, by rw [he']; rfl, h₅, hk.trans (hk₅.mono (hmono hfar₃))⟩
      · exact ⟨0, _, _, rfl, h₄, hk⟩
  · exact ⟨0, st, H, rfl, h, Keeps.refl _ _ _⟩

/-- **A copy** keeps every entry there was. -/
theorem FsHeap.copy (hA : A.Serves I) (h : FsHeap I hand H st) {srcPath destPath : List UInt8}
    (hs : IsPath srcPath) (hd : IsPath destPath) :
    ∃ r st' H', fsCopy A srcPath destPath st = some (r, st') ∧ FsHeap I hand H' st' ∧
      Keeps (fun i => i < st.fs.fileCount) st.fs H st'.fs H' ∧
      (r = 0 → ∃ s, lookup st.fs srcPath = some s ∧ (st.fs.files s).type = .file) := by
  rw [h.tree.fsCopy_eq hs hd]
  cases hl : lookup st.fs srcPath with
  | none => exact ⟨-1, st, H, rfl, h, Keeps.refl _ _ _, fun hr => absurd hr (by decide)⟩
  | some s =>
      have hlt : s < fsMaxFiles :=
        Nat.lt_of_lt_of_le (h.tree.lookup_some hl).2.2.1 h.tree.fileCount_le
      dsimp only
      split
      · rename_i hfile
        obtain ⟨r, st₁, H₁, he, h₁, hk₁, hnew⟩ := h.create hA hd (st.fs.files s).size
        rw [he, Option.bind_some]
        dsimp only
        split
        · exact ⟨-1, st₁, H₁, rfl, h₁, hk₁.mono fun _ _ => trivial, fun hr => absurd hr (by decide)⟩
        · rename_i hr
          have hfar : ∀ i, lookup st₁.fs destPath = some i → st.fs.fileCount ≤ i := by
            intro i hi
            exact Nat.le_of_eq (hnew (not_not.mp hr) i hi).symm
          obtain ⟨r', st₂, H₂, he', h₂, hk₂⟩ := h₁.copyData hA hd hlt hfar
          exact ⟨r', st₂, H₂, he', h₂, (hk₁.mono fun _ _ => trivial).trans hk₂,
            fun _ => ⟨s, rfl, hfile⟩⟩
      · exact ⟨-1, st, H, rfl, h, Keeps.refl _ _ _, fun hr => absurd hr (by decide)⟩

/-- **A move** keeps every entry there was but the source. -/
theorem FsHeap.move (hA : A.Serves I) (h : FsHeap I hand H st) {srcPath destPath : List UInt8}
    (hs : IsPath srcPath) (hd : IsPath destPath) :
    ∃ r st' H', fsMove A srcPath destPath st = some (r, st') ∧ FsHeap I hand H' st' ∧
      Keeps (fun i => i < st.fs.fileCount ∧ lookup st.fs srcPath ≠ some i) st.fs H st'.fs H' := by
  have hinit := h.tree.not_initialized
  obtain ⟨r, st₁, H₁, he, h₁, hk₁, hsrc⟩ := h.copy hA hs hd
  rw [fsMove, hinit, if_neg Bool.false_ne_true, he]
  simp only [Option.bind_eq_bind, Option.bind_some]
  split
  · exact ⟨-1, st₁, H₁, rfl, h₁, hk₁.mono fun _ hi => hi.1⟩
  · rename_i hr
    obtain ⟨s, hl, hfile⟩ := hsrc (not_not.mp hr)
    -- the source is still a file, so its deletion succeeds
    have hlt : s < st.fs.fileCount := (h.tree.lookup_some hl).2.2.1
    have hl₁ : lookup st₁.fs srcPath = some s := hk₁.lookup hlt hl
    obtain ⟨r', st₂, H₂, he', h₂, hk₂, hzero⟩ := h₁.delete hA hs
    have hr' : r' = 0 := by
      refine hzero ⟨s, hl₁, ?_⟩
      rw [hk₁.files s hlt hlt, hfile]
    rw [he', Option.bind_some]
    dsimp only
    rw [if_neg (not_not.mpr hr')]
    refine ⟨0, st₂, H₂, rfl, h₂, (hk₁.mono fun _ hi => hi.1).trans (hk₂.mono ?_)⟩
    intro i hi
    rw [hl₁, ← hl]
    exact hi.2

/-! ### One step -/

/-- The call writes, deletes or moves entry `i`. -/
def Touches (i : Nat) : FsOp → FsState σ → Prop
  | .delete path, st => fsFind st.fs path = some (i : Int)
  | .write path _, st => fsFind st.fs path = some (i : Int)
  | .move srcPath _, st => fsFind st.fs srcPath = some (i : Int)
  | _, _ => False

instance (i : Nat) : ∀ (op : FsOp) (st : FsState σ), Decidable (Touches i op st)
  | .delete _, _ => inferInstanceAs (Decidable (_ = _))
  | .write _ _, _ => inferInstanceAs (Decidable (_ = _))
  | .move _ _, _ => inferInstanceAs (Decidable (_ = _))
  | .mkdir _, _ | .create _ _, _ | .copy _ _, _ | .changeDir _, _ =>
      inferInstanceAs (Decidable False)

theorem FsTree.fsFind_eq_some_iff {fs : Filesystem} {i : Nat} (h : FsTree fs) (hp : IsPath path) :
    fsFind fs path = some (i : Int) ↔ lookup fs path = some i := by
  constructor
  · intro hf
    cases hl : lookup fs path with
    | none =>
        obtain ⟨code, hcode, he⟩ := h.fsFind_of_none hp hl
        rw [he, Option.some.injEq] at hf
        omega
    | some j =>
        rw [h.fsFind_of_some hp hl, Option.some.injEq] at hf
        rw [Int.ofNat.inj hf]
  · intro hl
    exact h.fsFind_of_some hp hl

/-- **One step** keeps the entries it does not touch. -/
theorem fsStep_heap (hA : A.Serves I) (op : FsOp) (h : FsHeap I hand H st) (hp : op.HasPaths)
    (hfit : MkdirFits op st) : ∃ r st' H', fsStep A op st = some (r, st') ∧ FsHeap I hand H' st' ∧
      Keeps (fun i => i < st.fs.fileCount ∧ ¬Touches i op st) st.fs H st'.fs H' := by
  cases op with
  | mkdir path =>
      obtain ⟨r, fs', he, h', hk⟩ := h.mkdir (hp path (by simp [FsOp.paths])) hfit
      exact ⟨r, { st with fs := fs' }, H, by rw [fsStep, he]; rfl, h', hk.mono fun _ _ => trivial⟩
  | create path size =>
      obtain ⟨r, st', H', he, h', hk, -⟩ := h.create hA (hp path (by simp [FsOp.paths])) size
      exact ⟨r, st', H', he, h', hk.mono fun _ _ => trivial⟩
  | delete path =>
      have hpath := hp path (by simp [FsOp.paths])
      obtain ⟨r, st', H', he, h', hk, -⟩ := h.delete hA hpath
      refine ⟨r, st', H', he, h', hk.mono ?_⟩
      intro i hi hl
      exact hi.2 ((h.tree.fsFind_eq_some_iff hpath).mpr hl)
  | write path data =>
      have hpath := hp path (by simp [FsOp.paths])
      obtain ⟨r, st', H', he, h', hk, -⟩ := h.write hA hpath data
      refine ⟨r, st', H', he, h', hk.mono ?_⟩
      intro i hi hl
      exact hi.2 ((h.tree.fsFind_eq_some_iff hpath).mpr hl)
  | copy srcPath destPath =>
      obtain ⟨r, st', H', he, h', hk, -⟩ := h.copy hA (hp srcPath (by simp [FsOp.paths]))
        (hp destPath (by simp [FsOp.paths]))
      exact ⟨r, st', H', he, h', hk.mono fun _ hi => hi.1⟩
  | move srcPath destPath =>
      have hsrc := hp srcPath (by simp [FsOp.paths])
      obtain ⟨r, st', H', he, h', hk⟩ := h.move hA hsrc (hp destPath (by simp [FsOp.paths]))
      refine ⟨r, st', H', he, h', hk.mono ?_⟩
      intro i hi
      exact ⟨hi.1, fun hl => hi.2 ((h.tree.fsFind_eq_some_iff hsrc).mpr hl)⟩
  | changeDir path =>
      obtain ⟨r, cwd, hcwd, he⟩ :=
        fsChangeDir_cwd h.tree h.cwd (hp path (by simp [FsOp.paths])).noNul
      exact ⟨r, _, H, he, ⟨⟨h.tree, hcwd⟩, h.heap, h.accounts⟩, Keeps.refl _ _ _⟩

/-! ### Runs -/

theorem fsInitState_heap {heap : σ} {mem : Mem} (hI : I (fun _ => none) heap mem) :
    FsHeap I ∅ (fun _ => none) (fsInitState heap mem) where
  toFsInv := fsInitState_inv _ _
  heap := hI
  accounts := by
    have hnone : ∀ i p n, dataOf fsInit i ≠ some (p, n) := by
      intro i p n hi
      exact Nat.not_lt_zero i (fsInit_tree.dataOf_lt hi)
    refine ⟨?_, ?_, ?_, ?_, ?_⟩
    · exact fun i p n hi => absurd hi (hnone i p n)
    · exact fun i j p n _ hi => absurd hi (hnone i p n)
    · exact fun i p n hi => absurd hi (hnone i p n)
    · exact fun p hp => absurd rfl hp
    · exact fun p hp => absurd hp (Set.notMem_empty p)

/-- **The run** keeps the entries none of its calls touches. -/
theorem fsRun_heap (hA : A.Serves I) {ops : List FsOp} (hp : ∀ op ∈ ops, op.HasPaths)
    (h : FsHeap I hand H st) (hfit : Machine.Meets (fsStep A) MkdirFits ops st) :
    ∃ os st' H', Machine.run (fsStep A) ops st = some (os, st') ∧ FsHeap I hand H' st' ∧
      ∀ i < st.fs.fileCount, Machine.Meets (fsStep A) (fun op st => ¬Touches i op st) ops st →
        Keeps (fun j => j = i) st.fs H st'.fs H' := by
  induction ops generalizing st H with
  | nil => exact ⟨[], st, H, rfl, h, fun _ _ _ => Keeps.refl _ _ _⟩
  | cons op ops ih =>
      obtain ⟨r, t, H₁, hstep, h₁, hk₁⟩ :=
        fsStep_heap hA op h (hp op (List.mem_cons_self ..)) hfit.1
      obtain ⟨os, st', H₂, hrun, h₂, hk₂⟩ :=
        ih (fun op' hop => hp op' (List.mem_cons_of_mem op hop))
        h₁ (hfit.2 r t hstep)
      refine ⟨r :: os, st', H₂, Machine.run_cons_some.mpr ⟨r, t, os, hstep, hrun, rfl⟩, h₂, ?_⟩
      intro i hi huntouched
      have hfirst : Keeps (fun j => j = i) st.fs H t.fs H₁ := by
        refine hk₁.mono ?_
        rintro j rfl
        exact ⟨hi, huntouched.1⟩
      exact hfirst.trans (hk₂ i (Nat.lt_of_lt_of_le hi hk₁.grows) (huntouched.2 r t hstep))

/-- The blocks on the ledger are those of the listed files, one each, and nothing else
was ever given back. -/
structure OwnsBlocks (st : FsState (σ × Ledger)) : Prop where
  held : ∀ p, p ∈ st.heap.2.held ↔ ∃ i, Listed st.fs i ∧ (st.fs.files i).type = .file ∧
    (st.fs.files i).dataPointer ≠ 0 ∧ (st.fs.files i).dataPointer = p
  distinct : ∀ i j, Listed st.fs i → Listed st.fs j → (st.fs.files i).type = .file →
    (st.fs.files j).type = .file → (st.fs.files i).dataPointer ≠ 0 →
    (st.fs.files i).dataPointer = (st.fs.files j).dataPointer → i = j
  nodup : st.heap.2.held.Nodup
  clean : st.heap.2.clean = true

theorem FsHeap.ownsBlocks {live : σ → Set Nat} {st : FsState (σ × Ledger)}
    (h : FsHeap (fun H s _ => Ledgered live H s) ∅ H st) : OwnsBlocks st where
  held := by
    intro p
    rw [h.heap.mem_held]
    constructor
    · intro hp
      obtain ⟨i, n, hi⟩ := (h.accounts.only p hp).resolve_left (Set.notMem_empty p)
      obtain ⟨hlisted, hfile, hne, hptr, -⟩ := dataOf_eq_some.mp hi
      exact ⟨i, hlisted, hfile, hne, hptr⟩
    · rintro ⟨i, hlisted, hfile, hne, rfl⟩
      obtain ⟨bs, hbs, -⟩ :=
        h.accounts.held i _ _ (dataOf_eq_some.mpr ⟨hlisted, hfile, hne, rfl, rfl⟩)
      rw [hbs]
      simp
  distinct := by
    intro i j hi hj hfi hfj hne heq
    exact h.accounts.distinct i j _ _ _ (dataOf_eq_some.mpr ⟨hi, hfi, hne, rfl, rfl⟩)
      (dataOf_eq_some.mpr ⟨hj, hfj, heq ▸ hne, heq.symm, rfl⟩)
  nodup := h.heap.nodup
  clean := h.heap.clean

/-- **Ownership.**  After every run, up to a `fs_mkdir` with all 128 entries in use, the
file system holds the blocks of its listed files and no others. -/
theorem fsRun_ownsBlocks (A : Allocator σ) (live : σ → Set Nat) (hA : A.Fresh live) (heap : σ)
    (mem : Mem) (ops : List FsOp) (hp : ∀ op ∈ ops, op.HasPaths)
    (hspare : Machine.Meets (fsStep A.track) Spare ops (fsInitState (heap, ⟨[], true⟩) mem)) :
    ∃ os st, Machine.run (fsStep A.track) ops (fsInitState (heap, ⟨[], true⟩) mem)
      = some (os, st) ∧ OwnsBlocks st := by
  have hledger : Ledgered live (fun _ => none) (heap, ⟨[], true⟩) :=
    ⟨rfl, List.nodup_nil, fun p hp => absurd hp List.not_mem_nil, fun p => by simp⟩
  have hinit : FsHeap (fun H s _ => Ledgered live H s) ∅ (fun _ => none)
      (fsInitState (heap, (⟨[], true⟩ : Ledger)) mem) := fsInitState_heap hledger
  obtain ⟨os, st, H, hr, h, -⟩ := fsRun_heap hA.serves hp hinit
    (hspare.mono fun _ _ h => h.mkdirFits)
  exact ⟨os, st, hr, h.ownsBlocks⟩

theorem fsRun_ownsBlocks_bump : ∃ os st, Machine.run (fsStep bump.track)
    [.create [slash, 97] 4, .write [slash, 97] [1, 2], .move [slash, 97] [slash, 98]]
      (fsInitState (Bump.empty, ⟨[], true⟩) ⟨fun _ => 0⟩) = some (os, st) ∧ OwnsBlocks st :=
  fsRun_ownsBlocks bump _ bump_lawful.fresh Bump.empty ⟨fun _ => 0⟩ _ (by decide)
    (by decide +kernel)

end AceOS.Drivers.Fs
