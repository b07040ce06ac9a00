import AceOS.Drivers.Fs.Contents
import AceOS.Drivers.Fs.Namespace

/-!
# What a copy leaves

A copy that succeeds has added one entry, with the data of the source in a block of its own
(`FsHeap.copy_cases`).  A copy that fails has added nothing, or has added the entry and taken
it away again, and no path can tell the difference (`NewEntry.lookup_removed`).
-/

namespace AceOS.Drivers.Fs

open Filesystem Memory Memory.Allocator

variable {σ : Type} {A : Allocator σ} {blocks : σ → Nat → Option Nat} {hand : Set Nat}
  {H H' : Holdings} {st st' : FsState σ} {path srcPath destPath : List UInt8} {d i s t : Nat}

/-! ### Views -/

/-- The path is resolved, and what it names is read, in both states alike. -/
structure SameView (path : List UInt8) (st st' : FsState σ) : Prop where
  find : fsFind st'.fs path = fsFind st.fs path
  stat : fsStat path st'.fs = fsStat path st.fs
  read : ∀ m, fsRead path m st' = fsRead path m st

theorem FsBounds.fsFind_eq_lookup {fs : Filesystem} (h : FsBounds fs) (hp : IsPath path) :
    fsFind fs path = some (if fsIsRoot path then -2 else codeOf (lookup fs path)) := by
  rw [h.fsFind_eq hp, lookup]
  split <;> rfl

theorem FsHeap.sameView {P : Nat → Prop} (h : FsHeap (Holds blocks) hand H st)
    (h' : FsHeap (Holds blocks) hand H' st') (hk : Keeps P st.fs H st'.fs H') (hp : IsPath path)
    (hP : ∀ i, lookup st.fs path = some i → P i) (hl : lookup st'.fs path = lookup st.fs path) :
    SameView path st st' where
  find := by rw [h.tree.fsFind_eq_lookup hp, h'.tree.fsFind_eq_lookup hp, hl]
  stat := by
    rw [h.tree.fsStat_eq hp, h'.tree.fsStat_eq hp, hl]
    split
    · rfl
    · cases hi : lookup st.fs path with
      | none => rfl
      | some i =>
          dsimp only
          rw [hk.files i (h.tree.lookup_some hi).2.2.1 (hP i hi)]
  read := by
    intro m
    rw [h.fsRead_eq hp, h'.fsRead_eq hp, hl]
    cases hi : lookup st.fs path with
    | none => rfl
    | some i =>
        have hfile := hk.files i (h.tree.lookup_some hi).2.2.1 (hP i hi)
        obtain ⟨hmem, hd, -, -, -⟩ := h.tree.lookup_some hi
        obtain ⟨hmem', hd', -, -, -⟩ := h'.tree.lookup_some (hl.trans hi)
        have hlisted : Listed st.fs i := ⟨_, hd, hmem⟩
        have hlisted' : Listed st'.fs i := ⟨_, hd', hmem'⟩
        have hdata : dataOf st'.fs i = dataOf st.fs i := by
          rw [dataOf, dataOf, hfile]
          simp only [hlisted, hlisted']
        dsimp only
        rw [hfile, hdata]
        cases hb : dataOf st.fs i with
        | none => rfl
        | some b =>
            dsimp only
            rw [(hk.data i b.1 b.2 (hP i hi) hb).2]

/-! ### An entry added and taken away -/

theorem NewEntry.lookup_self {fs : Filesystem} {e : FsEntry} (hnew : NewEntry fs path d)
    (h : FsTree fs) (htree : FsTree (fs.addEntry d e)) (hname : e.name = lastName (components path))
    (hne : components path ≠ []) : lookup (fs.addEntry d e) path = some fs.fileCount := by
  have hfree := hnew.free
  rw [lookup_of_ne_nil hne] at hfree ⊢
  rw [h.resolve_addEntry htree (isParts_components path), if_pos ⟨hnew.parent, hname⟩, hfree,
    Option.none_or]

theorem NewEntry.mem_self {fs : Filesystem} {e : FsEntry} :
    fs.fileCount ∈ ((fs.addEntry d e).directories d).files := mem_addEntry.mpr (Or.inr ⟨rfl, rfl⟩)

theorem NewEntry.lookup_removed {fs : Filesystem} {e : FsEntry} (hnew : NewEntry fs path d)
    (h : FsTree fs) (htree : FsTree (fs.addEntry d e))
    (htree' : FsTree ((fs.addEntry d e).removeEntry fs.fileCount d)) {q : List UInt8}
    (hq : components q ≠ []) :
    lookup ((fs.addEntry d e).removeEntry fs.fileCount d) q = lookup fs q := by
  have hparts := isParts_components q
  rw [lookup_of_ne_nil hq, lookup_of_ne_nil hq, htree.resolve_removeEntry htree'
    (show d < (fs.addEntry d e).dirCount from hnew.lt) NewEntry.mem_self hparts hq,
    h.resolve_addEntry htree hparts]
  have hold : ∀ i, resolve fs (components q) = some i → i ≠ fs.fileCount :=
    fun i hi => Nat.ne_of_lt (h.resolve_lt hi)
  cases hr : resolve fs (components q) with
  | none =>
      by_cases hc : parentOf fs (components q) = some d ∧ e.name = lastName (components q)
      · rw [if_pos hc, Option.none_or, if_pos rfl]
      · rw [if_neg hc, if_neg (by simp)]
  | some i =>
      have hne := hold i hr
      simp [hne]

theorem FsHeap.deleteFile (hA : A.Lawful blocks) (h : FsHeap (Holds blocks) hand H st)
    (hp : IsPath path) (hl : lookup st.fs path = some i) (hfile : (st.fs.files i).type = .file) :
    ∃ st' H', fsDelete A path st = some (0, st') ∧ FsHeap (Holds blocks) hand H' st' ∧
      Keeps (fun j => j ≠ i) st.fs H st'.fs H' ∧
      st'.fs = st.fs.removeEntry i (st.fs.files i).parentDir ∧
      ∀ q, components q ≠ [] →
        lookup st'.fs q = if lookup st.fs q = some i then none else lookup st.fs q := by
  obtain ⟨r, st', H', he, h', hk, -⟩ := h.delete hA.serves hp
  have heq := h.tree.fsDelete_eq (A := A) hp
  rw [hl] at heq
  dsimp only at heq
  rw [if_neg (by rw [hfile]; decide), he, Option.some.injEq, Prod.mk.injEq] at heq
  obtain ⟨rfl, hst'⟩ := heq
  have hfs : st'.fs = st.fs.removeEntry i (st.fs.files i).parentDir := by rw [hst']
  refine ⟨st', H', he, h', hk.mono ?_, hfs, ?_⟩
  · intro j hj hlj
    rw [hl, Option.some.injEq] at hlj
    exact hj hlj.symm
  · intro q hq
    have htree := h'.tree
    rw [hfs] at htree ⊢
    obtain ⟨hmem, hd, -, -, -⟩ := h.tree.lookup_some hl
    rw [lookup_of_ne_nil hq, lookup_of_ne_nil hq]
    exact h.tree.resolve_removeEntry htree hd hmem (isParts_components q) hq

/-! ### The data -/

/-- **The data of a copy.**  The new entry is taken away again, or it stays and has the bytes
of the source. -/
theorem FsHeap.copyData_cases (hA : A.Lawful blocks) (h : FsHeap (Holds blocks) hand H st)
    (hd : IsPath destPath) (hs : Listed st.fs s)
    (ht : lookup st.fs destPath = some t) (htfile : (st.fs.files t).type = .file)
    (hsfile : (st.fs.files s).type = .file) (hsize : (st.fs.files t).size = (st.fs.files s).size)
    (hptr : 0 < (st.fs.files s).size → (st.fs.files t).dataPointer ≠ 0) :
    ∃ r st' H', fsCopyData A s destPath st = some (r, st') ∧ FsHeap (Holds blocks) hand H' st' ∧
      Keeps (fun i => i ≠ t) st.fs H st'.fs H' ∧
      ((r = -1 ∧ st'.fs = st.fs.removeEntry t (st.fs.files t).parentDir) ∨
        (r = 0 ∧ st'.fs = st.fs ∧ ∀ q n, dataOf st.fs s = some (q, n) → 0 < n →
          H' (st.fs.files t).dataPointer = H q)) := by
  have hslt : s < fsMaxFiles := Nat.lt_of_lt_of_le (h.tree.lt_of_listed hs) h.tree.fileCount_le
  obtain ⟨htmem, htd, -, -, -⟩ := h.tree.lookup_some ht
  have htlisted : Listed st.fs t := ⟨_, htd, htmem⟩
  rw [fsCopyData, getFile, if_pos hslt]
  simp only [Option.bind_eq_bind, Option.bind_some]
  by_cases hdata : (st.fs.files s).dataPointer ≠ 0 ∧ 0 < (st.fs.files s).size
  swap
  · rw [if_neg hdata]
    refine ⟨0, st, H, rfl, h, Keeps.refl _ _ _, Or.inr ⟨rfl, rfl, ?_⟩⟩
    intro q n hq hn
    obtain ⟨-, -, hne, -, rfl⟩ := dataOf_eq_some.mp hq
    exact absurd ⟨hne, hn⟩ hdata
  rw [if_pos hdata]
  have hsdata : dataOf st.fs s = some ((st.fs.files s).dataPointer, (st.fs.files s).size) :=
    dataOf_eq_some.mpr ⟨hs, hsfile, hdata.1, rfl, rfl⟩
  have htdata : dataOf st.fs t = some ((st.fs.files t).dataPointer, (st.fs.files t).size) :=
    dataOf_eq_some.mpr ⟨htlisted, htfile, hptr hdata.2, rfl, rfl⟩
  obtain ⟨bs, hbs, hbslen⟩ := h.accounts.held s _ _ hsdata
  obtain ⟨cs, hcs, hcslen⟩ := h.accounts.held t _ _ htdata
  by_cases hz : (st.malloc A (st.fs.files s).size).1 = 0
  · -- no memory for the buffer: the new entry is deleted
    rw [if_pos hz]
    have h₁ := h.malloc_zero hA.serves hz
    obtain ⟨st₂, H₂, he, h₂, hk, hfs, -⟩ := h₁.deleteFile hA hd ht htfile
    exact ⟨-1, st₂, H₂, by rw [he]; rfl, h₂, hk, Or.inl ⟨rfl, hfs⟩⟩
  rw [if_neg hz]
  obtain ⟨hhand, hnone, bs₀, hlen₀, h₁⟩ := h.malloc_block hA.serves hz
  generalize hbuf : st.malloc A (st.fs.files s).size = buf at hz hhand hnone h₁
  have hfs : buf.2.fs = st.fs := by
    rw [← hbuf]
    rfl
  have hne : ∀ p bs, H p = some bs → p ≠ buf.1 := by
    intro p bs hp he
    rw [he, hnone] at hp
    exact absurd hp (by simp)
  -- the buffer is filled with the bytes of the source
  have hload : loadBytes buf.2.mem (st.fs.files s).dataPointer (st.fs.files s).size = bs := by
    have hheld : Function.update H buf.1 (some bs₀) (st.fs.files s).dataPointer = some bs := by
      rw [Function.update_of_ne (hne _ _ hbs), hbs]
    rw [← hbslen]
    exact h₁.heap.contents _ _ hheld
  have h₂ := h₁.store hA.serves (Function.update_self ..) (hbslen.trans hlen₀.symm)
  rw [Function.update_idem] at h₂
  -- the target has a block of this size, which gets them
  have hload₂ : loadBytes (storeBytes buf.2.mem buf.1 bs) buf.1 (st.fs.files s).size = bs := by
    rw [← hbslen, loadBytes_storeBytes _ _ _ _ (Nat.le_refl _), List.take_length]
  have hcs₂ : Function.update H buf.1 (some bs) (st.fs.files t).dataPointer = some cs := by
    rw [Function.update_of_ne (hne _ _ hcs), hcs]
  have hsame : bs.length = cs.length := by rw [hbslen, hcslen, hsize]
  have h₃ := h₂.store hA.serves hcs₂ hsame
  have hwrite : fsWrite A destPath bs { buf.2 with mem := storeBytes buf.2.mem buf.1 bs }
      = some (0, { buf.2 with
        mem := storeBytes (storeBytes buf.2.mem buf.1 bs) (st.fs.files t).dataPointer bs }) := by
    have hreuse : (st.fs.files t).dataPointer ≠ 0 ∧ (st.fs.files t).size = bs.length :=
      ⟨hptr hdata.2, hsize.trans hbslen.symm⟩
    rw [h₂.tree.fsWrite_eq hd]
    dsimp only
    rw [hfs, ht]
    dsimp only
    rw [if_pos htfile, FsState.writeData]
    dsimp only
    rw [if_pos hreuse]
  have h₄ := h₃.free hA.serves hhand
  rw [hload, hload₂, hwrite, Option.bind_some]
  dsimp only
  rw [if_neg (by simp)]
  refine ⟨0, _, _, rfl, h₄, ?_, Or.inr ⟨rfl, hfs, ?_⟩⟩
  · show Keeps (fun i => i ≠ t) st.fs H buf.2.fs _
    rw [hfs]
    refine ⟨fun _ _ _ => rfl, ?_, fun _ _ _ _ hr => hr, Nat.le_refl _⟩
    intro i p n hi hip
    obtain ⟨as, has, -⟩ := h.accounts.held i p n hip
    refine ⟨hip, ?_⟩
    rw [Function.update_of_ne (hne _ _ has), Function.update_of_ne,
      Function.update_of_ne (hne _ _ has)]
    rintro rfl
    exact hi (h.accounts.distinct i t _ _ _ hip htdata)
  · intro q n hq _
    rw [hsdata, Option.some.injEq, Prod.mk.injEq] at hq
    rw [Function.update_of_ne (hne _ _ hcs), Function.update_self, ← hq.1, hbs]

/-! ### Copies -/

/-- A copy that has succeeded: the target is a new file, as long as the source, and has its
data. -/
structure Copied (srcPath destPath : List UInt8) (H H' : Holdings) (fs fs' : Filesystem)
    (s d p : Nat) : Prop where
  source : lookup fs srcPath = some s
  file : (fs.files s).type = .file
  new : NewEntry fs destPath d
  added : fs' = fs.addEntry d (fileEntry fs destPath d (fs.files s).size p)
  pointer : p = 0 ↔ (fs.files s).size = 0
  data : ∀ q n, dataOf fs s = some (q, n) → 0 < n → H' p = H q

theorem FsHeap.copyInto {st₁ : FsState σ} {H₁ : Holdings} {p : Nat} (hA : A.Lawful blocks)
    (h : FsHeap (Holds blocks) hand H st) (hd : IsPath destPath) (hne : components destPath ≠ [])
    (hl : lookup st.fs srcPath = some s) (hfile : (st.fs.files s).type = .file)
    (h₁ : FsHeap (Holds blocks) hand H₁ st₁) (hk₁ : Keeps (fun _ => True) st.fs H st₁.fs H₁)
    (hnew : NewEntry st.fs destPath d)
    (hfs : st₁.fs = st.fs.addEntry d (fileEntry st.fs destPath d (st.fs.files s).size p))
    (hp : p = 0 ↔ (st.fs.files s).size = 0) :
    ∃ r st' H', fsCopyData A s destPath st₁ = some (r, st') ∧ FsHeap (Holds blocks) hand H' st' ∧
      Keeps (fun i => i < st.fs.fileCount) st.fs H st'.fs H' ∧
      ((r = -1 ∧ ∀ q, components q ≠ [] → lookup st'.fs q = lookup st.fs q) ∨
        (r = 0 ∧ Copied srcPath destPath H H' st.fs st'.fs s d p)) := by
  obtain ⟨hsmem, hsd, hslt, -, -⟩ := h.tree.lookup_some hl
  have hslisted : Listed st.fs s := ⟨_, hsd, hsmem⟩
  have htree := h₁.tree
  rw [hfs] at htree
  -- what is known of the target and of the source in the new state
  have hlt : lookup st₁.fs destPath = some st.fs.fileCount := by
    rw [hfs]
    exact hnew.lookup_self h.tree htree rfl hne
  have htfile : st₁.fs.files st.fs.fileCount
      = fileEntry st.fs destPath d (st.fs.files s).size p := by
    rw [hfs, addEntry_file_self]
  have hsfile : st₁.fs.files s = st.fs.files s := hk₁.files s hslt trivial
  have hslisted₁ : Listed st₁.fs s := by
    rw [hfs]
    exact (listed_addEntry hnew.lt).mpr (Or.inl hslisted)
  obtain ⟨r, st', H', hcopy, h', hk, hcases⟩ := h₁.copyData_cases hA hd hslisted₁ hlt
    (by rw [htfile]; rfl) (by rw [hsfile]; exact hfile) (by rw [htfile, hsfile]; rfl)
    (by
      rw [htfile, hsfile]
      intro hpos hzero
      exact absurd (hp.mp hzero) (Nat.ne_of_gt hpos))
  refine ⟨r, st', H', hcopy, h', (hk₁.mono fun _ _ => trivial).trans
    (hk.mono fun i hi => Nat.ne_of_lt hi), ?_⟩
  rcases hcases with ⟨hr, hfs'⟩ | ⟨hr, hfs', hdata⟩
  · refine Or.inl ⟨hr, ?_⟩
    intro q hq
    have htree' := h'.tree
    rw [htfile] at hfs'
    rw [hfs', hfs] at htree' ⊢
    exact hnew.lookup_removed h.tree htree htree' hq
  · refine Or.inr ⟨hr, hl, hfile, hnew, hfs'.trans hfs, hp, ?_⟩
    intro q n hq hn
    obtain ⟨hq₁, hH⟩ := hk₁.data s q n trivial hq
    have hcopied := hdata q n hq₁ hn
    rw [htfile] at hcopied
    exact hcopied.trans hH

/-- **What a copy does**: no path can tell that it failed, or it succeeded. -/
theorem FsHeap.copy_cases (hA : A.Lawful blocks) (h : FsHeap (Holds blocks) hand H st)
    (hs : IsPath srcPath) (hd : IsPath destPath) (hne : components destPath ≠ []) :
    ∃ r st' H', fsCopy A srcPath destPath st = some (r, st') ∧ FsHeap (Holds blocks) hand H' st' ∧
      Keeps (fun i => i < st.fs.fileCount) st.fs H st'.fs H' ∧
      ((r = -1 ∧ ∀ q, components q ≠ [] → lookup st'.fs q = lookup st.fs q) ∨
        (r = 0 ∧ ∃ s d p, Copied srcPath destPath H H' st.fs st'.fs s d p)) := by
  rw [h.tree.fsCopy_eq hs hd]
  cases hl : lookup st.fs srcPath with
  | none => exact ⟨-1, st, H, rfl, h, Keeps.refl _ _ _, Or.inl ⟨rfl, fun _ _ => rfl⟩⟩
  | some s =>
      dsimp only
      by_cases hfile : (st.fs.files s).type = .file
      swap
      · rw [if_neg hfile]
        exact ⟨-1, st, H, rfl, h, Keeps.refl _ _ _, Or.inl ⟨rfl, fun _ _ => rfl⟩⟩
      rw [if_pos hfile]
      obtain ⟨r₁, st₁, H₁, he, h₁, hk₁, -⟩ := h.create hA.serves hd (st.fs.files s).size
      have hfail : ∀ st', st'.fs = st.fs → st₁ = st' → ∀ q, components q ≠ [] →
          lookup st₁.fs q = lookup st.fs q := by
        intro st' hfs he' q _
        rw [he', hfs]
      rcases h.tree.fsCreate_cases (A := A) hd (st.fs.files s).size with ⟨-, he'⟩ |
        ⟨d, -, -, -, he'⟩ | ⟨d, -, hnew, hpos, hptr, -, he'⟩ | ⟨d, -, hnew, hzero, -, he'⟩
      all_goals
        rw [he, Option.some.injEq, Prod.mk.injEq] at he'
        obtain ⟨hr₁, hst₁⟩ := he'
        rw [he, hr₁, Option.bind_some]
        dsimp only
      · rw [if_pos (by decide)]
        exact ⟨-1, st₁, H₁, rfl, h₁, hk₁.mono fun _ _ => trivial, Or.inl ⟨rfl, hfail _ rfl hst₁⟩⟩
      · rw [if_pos (by decide)]
        exact ⟨-1, st₁, H₁, rfl, h₁, hk₁.mono fun _ _ => trivial,
          Or.inl ⟨rfl, hfail _ (FsState.malloc_fs _) hst₁⟩⟩
      · rw [if_neg (by simp)]
        obtain ⟨r, st', H', hcopy, h', hk, hcases⟩ := h.copyInto hA hd hne hl hfile h₁ hk₁ hnew
          (by rw [hst₁]) (iff_of_false hptr (Nat.ne_of_gt hpos))
        exact ⟨r, st', H', hcopy, h', hk, hcases.imp_right fun hc => ⟨hc.1, s, d, _, hc.2⟩⟩
      · rw [if_neg (by simp)]
        obtain ⟨r, st', H', hcopy, h', hk, hcases⟩ := h.copyInto hA hd hne hl hfile h₁ hk₁ hnew
          (p := 0) (by rw [hst₁, hzero]) (iff_of_true rfl hzero)
        exact ⟨r, st', H', hcopy, h', hk, hcases.imp_right fun hc => ⟨hc.1, s, d, 0, hc.2⟩⟩

theorem Copied.lookup_dest {fs fs' : Filesystem} {p : Nat}
    (hc : Copied srcPath destPath H H' fs fs' s d p) (h : FsTree fs) (h' : FsTree fs')
    (hne : components destPath ≠ []) : lookup fs' destPath = some fs.fileCount ∧
      fs'.files fs.fileCount = fileEntry fs destPath d (fs.files s).size p := by
  have htree := h'
  rw [hc.added] at htree ⊢
  exact ⟨hc.new.lookup_self h htree rfl hne, addEntry_file_self⟩

/-- **The target of a copy reads as the source did**, if that had its data. -/
theorem FsHeap.read_copied {p : Nat} (h : FsHeap (Holds blocks) hand H st)
    (h' : FsHeap (Holds blocks) hand H' st')
    (hc : Copied srcPath destPath H H' st.fs st'.fs s d p) (hs : IsPath srcPath)
    (hd : IsPath destPath) (hne : components destPath ≠ [])
    (hdata : 0 < (st.fs.files s).size → (st.fs.files s).dataPointer ≠ 0) (m : Nat) :
    fsRead destPath m st' = fsRead srcPath m st := by
  obtain ⟨hl, hentry⟩ := hc.lookup_dest h.tree h'.tree hne
  obtain ⟨hsmem, hsd, -, -, -⟩ := h.tree.lookup_some hc.source
  have hslisted : Listed st.fs s := ⟨_, hsd, hsmem⟩
  have htype : (st'.fs.files st.fs.fileCount).type = .file := by
    rw [hentry]
    rfl
  have htarget : dataOf st'.fs st.fs.fileCount
      = if p ≠ 0 then some (p, (st.fs.files s).size) else none := by
    rw [hc.added, dataOf_addEntry hc.new.lt, Function.update_self]
    by_cases hp : p = 0
    · rw [if_neg (fun hcon => hcon.2 hp), if_neg (not_not.mpr hp)]
    · rw [if_pos ⟨rfl, hp⟩, if_pos hp]
      rfl
  rw [h.fsRead_eq hs, h'.fsRead_eq hd, hl, hc.source]
  dsimp only
  rw [if_pos htype, if_pos hc.file, htarget]
  by_cases hsize : (st.fs.files s).size = 0
  · rw [if_neg (not_not.mpr (hc.pointer.mpr hsize))]
    cases hb : dataOf st.fs s with
    | none => rfl
    | some b =>
        obtain ⟨q, n⟩ := b
        obtain ⟨bs, hbs, hlen⟩ := h.accounts.held s q n hb
        obtain ⟨-, -, -, -, hn⟩ := dataOf_eq_some.mp hb
        have hn0 : n = 0 := hn.symm.trans hsize
        have hnil : bs = [] := List.length_eq_zero_iff.mp (hlen.trans hn0)
        dsimp only
        rw [hbs, hnil, hn0, Nat.zero_min]
        simp [intOfU32]
  · have hpos : 0 < (st.fs.files s).size := Nat.pos_of_ne_zero hsize
    have hsource : dataOf st.fs s = some ((st.fs.files s).dataPointer, (st.fs.files s).size) :=
      dataOf_eq_some.mpr ⟨hslisted, hc.file, hdata hpos, rfl, rfl⟩
    rw [if_pos (fun hp => hsize (hc.pointer.mp hp)), hsource]
    dsimp only
    rw [hc.data _ _ hsource hpos]

end AceOS.Drivers.Fs
