import AceOS.Drivers.Fs.Capacity
import AceOS.Drivers.Fs.Copies

/-!
# Writes that fail

`fs_write` gives the old block back before it asks for the new one.  A write that fails has
changed nothing, unless it has given the block back and got none (`LosesData`).
-/

namespace AceOS.Drivers.Fs

open Filesystem Memory Memory.Allocator

variable {σ : Type} {A : Allocator σ} {blocks : σ → Nat → Option Nat} {hand : Set Nat}
  {H H' : Holdings} {st st' : FsState σ} {path data : List UInt8}

/-- The old block of the file is given back, and there is no memory for the data then. -/
def LosesData (A : Allocator σ) (path data : List UInt8) (st : FsState σ) : Prop :=
  ∃ i : Nat, fsFind st.fs path = some (i : Int) ∧ (st.fs.files i).type = .file ∧
    (st.fs.files i).dataPointer ≠ 0 ∧ (st.fs.files i).size ≠ data.length ∧
    ((st.free A (st.fs.files i).dataPointer).malloc A data.length).1 = 0

/-- The file system is as it was, and so is what the calls find, read and copy from `path`. -/
structure Unchanged (A : Allocator σ) (path : List UInt8) (st st' : FsState σ) : Prop where
  fs : st'.fs = st.fs
  currentDirectory : st'.currentDirectory = st.currentDirectory
  view : ∀ q, (0 : UInt8) ∉ q → SameView q st st'
  -- a file without a block, but with a size, is copied to a block nobody fills
  copy : ∀ destPath st₂, (0 : UInt8) ∉ destPath → components destPath ≠ [] →
    fsCopy A path destPath st' = some (0, st₂) →
    ∃ e e', fsStat path st.fs = some (0, some e) ∧ fsStat destPath st₂.fs = some (0, some e') ∧
      e'.type = e.type ∧ e'.size = e.size ∧
      ((0 < e.size → e.dataPointer ≠ 0) → ∀ m, fsRead destPath m st₂ = fsRead path m st)

/-! ### Reachable states -/

theorem fsStep_text_heap (hA : A.Lawful blocks) {op : FsOp} (h : FsHeap (Holds blocks) hand H st)
    (h0 : ∀ path ∈ op.paths, (0 : UInt8) ∉ path) {r : Int}
    (hstep : fsStep A op st = some (r, st')) : ∃ H', FsHeap (Holds blocks) hand H' st' := by
  by_cases hp : op.HasPaths
  · obtain ⟨r', t, H', he, h', -⟩ := fsStep_heap hA.serves op h hp
      (mkdirFits_of_step h.toFsInv hp hstep)
    rw [hstep, Option.some.injEq, Prod.mk.injEq] at he
    exact ⟨H', he.2 ▸ h'⟩
  · cases op with
    | changeDir path =>
        obtain ⟨r', cwd, hcwd, he⟩ := fsChangeDir_cwd h.tree h.cwd (h0 path (by simp [FsOp.paths]))
        rw [fsStep, he, Option.some.injEq, Prod.mk.injEq] at hstep
        exact ⟨H, hstep.2 ▸ ⟨⟨h.tree, hcwd⟩, h.heap, h.accounts⟩⟩
    | _ =>
        have hr := fsStep_of_le h0 (by simp) hp hstep
        rw [Prod.mk.injEq] at hr
        exact ⟨H, hr.2 ▸ h⟩

theorem fsRun_text_heap (hA : A.Lawful blocks) {heap : σ} {mem : Mem} {ops : List FsOp}
    (h0 : ∀ op ∈ ops, ∀ path ∈ op.paths, (0 : UInt8) ∉ path) {os : List Int}
    (hrun : Machine.run (fsStep A) ops (fsInitState heap mem) = some (os, st)) :
    ∃ H, FsHeap (Holds blocks) ∅ H st := by
  refine Machine.run_inv (I := fun st => ∃ H, FsHeap (Holds blocks) ∅ H st)
    (G := fun op _ => ∀ path ∈ op.paths, (0 : UInt8) ∉ path) ?_ ?_
    (Machine.meets_of_forall (fun op hop _ => h0 op hop) _) hrun
  · rintro op s r s' ⟨H, h⟩ h0 hstep
    exact fsStep_text_heap hA h h0 hstep
  · exact ⟨_, fsInitState_heap ⟨by simp, by simp, by simp, by simp⟩⟩

/-! ### What a failed write leaves -/

theorem FsTree.fsStat_of_lookup {fs : Filesystem} {i : Nat} (h : FsTree fs) (hp : IsPath path)
    (hl : lookup fs path = some i) : fsStat path fs = some (0, some (fs.files i)) := by
  rw [h.fsStat_eq hp, if_neg (by simp [(lookup_eq_some.mp hl).1]), hl]

theorem fsRead_of_le (hlen : fsMaxPathLen ≤ path.length) (h0 : (0 : UInt8) ∉ path)
    (hfs : st'.fs = st.fs) (m : Nat) : fsRead path m st' = fsRead path m st := by
  rw [fsRead, fsRead, hfs]
  cases hfind : fsFind st.fs path with
  | none => rfl
  | some code =>
      rw [(fsFind_of_le hlen h0 hfind).1]
      rfl

theorem FsHeap.unchanged (hA : A.Lawful blocks) (h : FsHeap (Holds blocks) hand H st)
    (h' : FsHeap (Holds blocks) hand H st') (hfs : st'.fs = st.fs)
    (hcwd : st'.currentDirectory = st.currentDirectory) (h0 : (0 : UInt8) ∉ path) :
    Unchanged A path st st' where
  fs := hfs
  currentDirectory := hcwd
  view := by
    intro q hq
    by_cases hlen : q.length < fsMaxPathLen
    · refine h.sameView (P := fun _ => True) h' ?_ ⟨hq, hlen⟩ (fun _ _ => trivial) (by rw [hfs])
      rw [hfs]
      exact Keeps.refl _ _ _
    · exact ⟨by rw [hfs], by rw [hfs], fsRead_of_le (Nat.not_lt.mp hlen) hq hfs⟩
  copy := by
    intro destPath st₂ hd hne hcopy
    have hfit : path.length < fsMaxPathLen ∧ destPath.length < fsMaxPathLen := by
      by_contra hcon
      have hlen : fsMaxPathLen ≤ path.length ∨ fsMaxPathLen ≤ destPath.length := by omega
      have hr := fsCopy_of_le h0 hd hlen hcopy
      rw [Prod.mk.injEq] at hr
      exact absurd hr.1 (by decide)
    have hs : IsPath path := ⟨h0, hfit.1⟩
    have hd : IsPath destPath := ⟨hd, hfit.2⟩
    obtain ⟨r, t, H₂, he, h₂, -, hcases⟩ := h'.copy_cases hA hs hd hne
    rw [hcopy, Option.some.injEq, Prod.mk.injEq] at he
    obtain ⟨rfl, rfl⟩ := he
    rcases hcases with ⟨hr, -⟩ | ⟨-, s, d, p, hc⟩
    · exact absurd hr (by decide)
    obtain ⟨hl, hentry⟩ := hc.lookup_dest h'.tree h₂.tree hne
    have hsource : lookup st.fs path = some s := hfs ▸ hc.source
    refine ⟨st'.fs.files s, _, ?_, h₂.tree.fsStat_of_lookup hd hl, ?_, ?_, ?_⟩
    · rw [hfs]
      exact h.tree.fsStat_of_lookup hs hsource
    · rw [hentry, hc.file]
      rfl
    · rw [hentry]
      rfl
    · intro hdata m
      rw [h'.read_copied h₂ hc hs hd hne hdata m]
      refine (h.sameView (P := fun _ => True) h' ?_ hs (fun _ _ => trivial) (by rw [hfs])).read m
      rw [hfs]
      exact Keeps.refl _ _ _

/-- **A write that fails** has changed nothing, if it has not lost the data. -/
theorem FsHeap.fsWrite_failed (hA : A.Lawful blocks) (h : FsHeap (Holds blocks) hand H st)
    (h0 : (0 : UInt8) ∉ path) (hwrite : fsWrite A path data st = some (-1, st'))
    (hkeep : ¬LosesData A path data st) : Unchanged A path st st' := by
  by_cases hlen : path.length < fsMaxPathLen
  swap
  · have hr := fsWrite_of_le (Nat.not_lt.mp hlen) h0 hwrite
    obtain ⟨-, rfl⟩ := Prod.mk.inj hr
    exact h.unchanged hA h rfl rfl h0
  have hp : IsPath path := ⟨h0, hlen⟩
  rcases h.tree.fsWrite_cases (A := A) hp data with ⟨he, -⟩ | ⟨i, hl, hfile, he⟩
  · rw [hwrite, Option.some.injEq, Prod.mk.injEq] at he
    obtain ⟨-, rfl⟩ := he
    exact h.unchanged hA h rfl rfl h0
  rw [hwrite, Option.some.injEq] at he
  rcases st.writeData_cases A i data with ⟨-, -, hd⟩ | ⟨hz, hd⟩ | ⟨-, hd⟩
  · rw [hd, Prod.mk.injEq] at he
    exact absurd he.1 (by decide)
  · rw [hd, Prod.mk.injEq] at he
    -- there was no memory, and no block had been given back
    have hptr : (st.fs.files i).dataPointer = 0 := by
      by_contra hne
      refine hkeep ⟨i, h.tree.fsFind_of_some hp hl, hfile, hne, ?_, ?_⟩
      · intro hsize
        have hreuse := hd
        rw [FsState.writeData] at hreuse
        dsimp only at hreuse
        rw [if_pos ⟨hne, hsize⟩, Prod.mk.injEq] at hreuse
        exact absurd hreuse.1 (by decide)
      · rw [FsState.dropData_of_ne hne] at hz
        exact hz
    rw [FsState.dropData_of_zero hptr] at hz he
    obtain ⟨-, rfl⟩ := he
    exact h.unchanged hA (h.malloc_zero hA.serves hz) rfl rfl h0
  · rw [hd, Prod.mk.injEq] at he
    exact absurd he.1 (by decide)

theorem FsTree.fsWrite_loses (h : FsTree st.fs) (h0 : (0 : UInt8) ∉ path)
    (hloses : LosesData A path data st) : ∃ i st', fsWrite A path data st = some (-1, st') ∧
      (st.fs.files i).dataPointer ≠ 0 ∧ (st'.fs.files i).dataPointer = 0 := by
  obtain ⟨i, hfind, hfile, hne, hsize, hz⟩ := hloses
  have hp : IsPath path := by
    refine ⟨h0, ?_⟩
    by_contra hlen
    have hcode := (fsFind_of_le (Nat.not_lt.mp hlen) h0 hfind).1
    omega
  have hl : lookup st.fs path = some i := (h.fsFind_eq_some_iff hp).mp hfind
  have heq := h.fsWrite_eq (A := A) hp data
  rw [hl] at heq
  dsimp only at heq
  rw [if_pos hfile] at heq
  refine ⟨i, ((st.dropData A i).malloc A data.length).2, ?_, hne, ?_⟩
  · have hz' : ((st.dropData A i).malloc A data.length).1 = 0 := by
      rw [FsState.dropData_of_ne hne]
      exact hz
    rw [heq, FsState.writeData]
    dsimp only
    rw [if_neg (fun hreuse => hsize hreuse.2), if_pos hz']
  · rw [FsState.malloc_fs, FsState.dropData_fs, setData_file_self]

/-- **A failed write changes nothing** exactly if the data of the file are not lost. -/
theorem fsWrite_unchanged_iff (A : Allocator σ) (blocks : σ → Nat → Option Nat)
    (hA : A.Lawful blocks) (heap : σ) (mem : Mem) (ops : List FsOp)
    (h0 : ∀ op ∈ ops, ∀ path ∈ op.paths, (0 : UInt8) ∉ path) (os : List Int) (st : FsState σ)
    (hrun : Machine.run (fsStep A) ops (fsInitState heap mem) = some (os, st))
    (path data : List UInt8) (hpath : (0 : UInt8) ∉ path) :
    (∀ st', fsWrite A path data st = some (-1, st') → Unchanged A path st st') ↔
      ¬LosesData A path data st := by
  obtain ⟨H, h⟩ := fsRun_text_heap hA h0 hrun
  constructor
  · intro hall hloses
    obtain ⟨i, st', hwrite, hne, hz⟩ := h.tree.fsWrite_loses hpath hloses
    rw [(hall st' hwrite).fs] at hz
    exact hne hz
  · intro hkeep st' hwrite
    exact h.fsWrite_failed hA hpath hwrite hkeep

theorem fsWrite_unchanged_iff_empty : ∃ os st st', Machine.run (fsStep (bumpBelow 4))
    [.create pathA 0] (fsInitState Bump.empty ⟨fun _ => 0⟩) = some (os, st) ∧
    fsWrite (bumpBelow 4) pathA [1, 2, 3, 4] st = some (-1, st') ∧
    Unchanged (bumpBelow 4) pathA st st' := by
  have hcode : ((Machine.run (fsStep (bumpBelow 4)) [.create pathA 0] (fsInitState Bump.empty
      ⟨fun _ => 0⟩)).bind fun r => (fsWrite (bumpBelow 4) pathA [1, 2, 3, 4] r.2).map fun w =>
        (w.1, decide (∀ i < r.2.fs.fileCount, (r.2.fs.files i).dataPointer = 0)))
      = some (-1, true) := by decide +kernel
  rw [Option.bind_eq_some_iff] at hcode
  obtain ⟨⟨os, st⟩, hrun, hcode⟩ := hcode
  obtain ⟨⟨r, st'⟩, hwrite, hr⟩ := Option.map_eq_some_iff.mp hcode
  rw [Prod.mk.injEq, decide_eq_true_iff] at hr
  obtain ⟨rfl, hptr⟩ := hr
  have h0 : ∀ op ∈ [FsOp.create pathA 0], ∀ path ∈ op.paths, (0 : UInt8) ∉ path := by decide
  have hiff := fsWrite_unchanged_iff (bumpBelow 4) Bump.blocks (bumpBelow_lawful 4) Bump.empty
    ⟨fun _ => 0⟩ _ h0 os st hrun pathA [1, 2, 3, 4] (by decide)
  refine ⟨os, st, st', hrun, hwrite, hiff.mpr ?_ st' hwrite⟩
  rintro ⟨i, hfind, -, hne, -⟩
  obtain ⟨H, h⟩ := fsRun_text_heap (bumpBelow_lawful 4) h0 hrun
  have hl : lookup st.fs pathA = some i := (h.tree.fsFind_eq_some_iff (by decide)).mp hfind
  exact hne (hptr i (h.tree.lookup_some hl).2.2.1)

/-- A write over one byte with no memory for four: the byte is gone. -/
theorem fsWrite_losesData : ∃ os st, Machine.run (fsStep (bumpBelow 4))
    [.create pathA 0, .write pathA [7]] (fsInitState Bump.empty ⟨fun _ => 0⟩) = some (os, st) ∧
    ¬∀ st', fsWrite (bumpBelow 4) pathA [1, 2, 3, 4] st = some (-1, st') →
      Unchanged (bumpBelow 4) pathA st st' := by
  have hcode : ((Machine.run (fsStep (bumpBelow 4)) [.create pathA 0, .write pathA [7]]
      (fsInitState Bump.empty ⟨fun _ => 0⟩)).bind fun r =>
        (fsWrite (bumpBelow 4) pathA [1, 2, 3, 4] r.2).map fun w =>
          (w.1, fsRead pathA 1 r.2, fsRead pathA 1 w.2))
      = some (-1, some (1, [7]), some (0, [])) := by decide +kernel
  rw [Option.bind_eq_some_iff] at hcode
  obtain ⟨⟨os, st⟩, hrun, hcode⟩ := hcode
  obtain ⟨⟨r, st'⟩, hwrite, hr⟩ := Option.map_eq_some_iff.mp hcode
  simp only [Prod.mk.injEq] at hr
  obtain ⟨rfl, hbefore, hafter⟩ := hr
  refine ⟨os, st, hrun, ?_⟩
  intro hall
  have hsame := ((hall st' hwrite).view pathA (by decide)).read 1
  rw [hbefore, hafter] at hsame
  exact absurd hsame (by decide)

end AceOS.Drivers.Fs
