import AceOS.Drivers.Fs.Data

/-!
# The contents of files

With a lawful allocator the blocks of the files have the contents the file system last
put there (`FsHeap` with `Holds`), so `fs_read` and `fs_stat` are functions of the
lookup, the records and the holdings (`fsRead_eq`, `fsStat_eq`).  A write sets one of
these, and no later call changes it but those that touch the file.
-/

namespace AceOS.Drivers.Fs

open Filesystem Memory Memory.Allocator

variable {σ : Type} {A : Allocator σ} {blocks : σ → Nat → Option Nat} {hand : Set Nat}
  {H : Holdings} {st : FsState σ} {path data : List UInt8}

/-! ### What the readers return -/

theorem FsTree.fsStat_eq {fs : Filesystem} (h : FsTree fs) (hp : IsPath path) :
    fsStat path fs = if fsIsRoot path then some (0, some ⟨[slash], .directory, 0, 0, 0, 0⟩)
      else match lookup fs path with
        | none => some (-1, none)
        | some i => some (0, some (fs.files i)) := by
  have hinit := h.not_initialized
  rw [fsStat, hinit, if_neg Bool.false_ne_true]
  cases hl : lookup fs path with
  | none =>
      obtain ⟨code, hcode, hfind⟩ := h.fsFind_of_none hp hl
      rw [hfind, Option.bind_eq_bind, Option.bind_some, if_pos hcode]
  | some i =>
      rw [h.fsFind_of_some hp hl]
      simp only [Option.bind_eq_bind, Option.bind_some]
      rw [if_neg (Int.not_lt.mpr (Int.natCast_nonneg i)), Int.toNat_natCast,
        h.getFile_eq (h.lookup_some hl).2.2.1]
      rfl

theorem FsHeap.fsRead_eq (h : FsHeap (Holds blocks) hand H st) (hp : IsPath path) (m : Nat) :
    fsRead path m st = match lookup st.fs path with
      | none => some (-1, [])
      | some i =>
          if (st.fs.files i).type = .file then
            match dataOf st.fs i with
            | none => some (0, [])
            | some (p, n) => some (intOfU32 (min n m), ((H p).getD []).take m)
          else some (-1, []) := by
  have hinit := h.tree.not_initialized
  rw [fsRead, hinit, if_neg Bool.false_ne_true]
  cases hl : lookup st.fs path with
  | none =>
      obtain ⟨code, hcode, hfind⟩ := h.tree.fsFind_of_none hp hl
      rw [hfind, Option.bind_eq_bind, Option.bind_some, if_pos hcode]
  | some i =>
      obtain ⟨hi, hd, hlt, -, -⟩ := h.tree.lookup_some hl
      rw [h.tree.fsFind_of_some hp hl]
      simp only [Option.bind_eq_bind, Option.bind_some]
      rw [if_neg (Int.not_lt.mpr (Int.natCast_nonneg i)), Int.toNat_natCast,
        h.tree.getFile_eq hlt, Option.bind_some]
      by_cases htype : (st.fs.files i).type = .file
      · rw [if_neg (not_not.mpr htype), if_pos htype]
        by_cases hptr : (st.fs.files i).dataPointer = 0
        · have hnone : dataOf st.fs i = none := by
            rw [dataOf, if_neg fun hcon => hcon.2.2 hptr]
          rw [if_pos hptr, hnone]
        · have hsome : dataOf st.fs i = some ((st.fs.files i).dataPointer, (st.fs.files i).size) :=
            dataOf_eq_some.mpr ⟨⟨_, hd, hi⟩, htype, hptr, rfl, rfl⟩
          obtain ⟨bs, hbs, hlen⟩ := h.accounts.held i _ _ hsome
          have hmin : (if (st.fs.files i).size < m then (st.fs.files i).size else m)
              = min (st.fs.files i).size m := by
            split <;> omega
          have hload := h.heap.contents _ _ hbs
          rw [hlen] at hload
          rw [if_neg hptr, hsome]
          dsimp only
          rw [hmin, hbs, Option.getD_some, ← hload, take_loadBytes, Nat.min_comm m]
      · rw [if_pos htype, if_neg htype]

/-! ### A file with its data -/

structure Delivers (path data : List UInt8) (st : FsState σ) : Prop where
  stat : ∃ e, fsStat path st.fs = some (0, some e) ∧ e.size = data.length
  read : ∀ m, fsRead path m st = some (((min m data.length : Nat) : Int), data.take m)

theorem FsHeap.delivers (h : FsHeap (Holds blocks) hand H st) (hp : IsPath path) {i p : Nat}
    (hl : lookup st.fs path = some i) (hdata : dataOf st.fs i = some (p, data.length))
    (hH : H p = some data) (hlen : data.length < 2 ^ 31) : Delivers path data st where
  stat := by
    obtain ⟨-, -, -, -, hsize⟩ := dataOf_eq_some.mp hdata
    obtain ⟨hroot, -⟩ := lookup_eq_some.mp hl
    refine ⟨st.fs.files i, ?_, hsize⟩
    rw [h.tree.fsStat_eq hp, hroot, if_neg Bool.false_ne_true, hl]
  read := by
    intro m
    obtain ⟨-, hfile, -, -, -⟩ := dataOf_eq_some.mp hdata
    rw [h.fsRead_eq hp, hl]
    dsimp only
    rw [if_pos hfile, hdata]
    dsimp only
    rw [hH, Option.getD_some, intOfU32, if_pos (by omega), Nat.min_comm]

theorem FsHeap.delivers_of_keeps {P : Nat → Prop} {H' : Holdings} {st' : FsState σ}
    (h' : FsHeap (Holds blocks) hand H' st') (hk : Keeps P st.fs H st'.fs H') (hp : IsPath path)
    {i p : Nat} (hP : P i) (hl : lookup st.fs path = some i)
    (hdata : dataOf st.fs i = some (p, data.length)) (hH : H p = some data)
    (hlen : data.length < 2 ^ 31) : Delivers path data st' := by
  obtain ⟨hdata', hH'⟩ := hk.data i p _ hP hdata
  exact h'.delivers hp (hk.lookup hP hl) hdata' (hH'.trans hH) hlen

/-! ### Writes -/

theorem FsHeap.write_other {H' : Holdings} {st' : FsState σ} {i ptr size : Nat}
    (h : FsHeap (Holds blocks) hand H st) (h' : FsHeap (Holds blocks) hand H' st')
    (hk : Keeps (fun j => j ≠ i) st.fs H st'.fs H') (hi : Listed st.fs i)
    (htype : (st.fs.files i).type = .file) (hfs : st'.fs = st.fs.setData i ptr size)
    {q : List UInt8} (hq : IsPath q) (hne : lookup st.fs q ≠ some i) :
    fsStat q st'.fs = fsStat q st.fs ∧ ∀ m, fsRead q m st' = fsRead q m st := by
  have hlookup : lookup st'.fs q = lookup st.fs q := by
    rw [hfs, lookup, lookup, h.tree.resolve_setData ptr size (isParts_components q)]
  rw [h.tree.fsStat_eq hq, h'.tree.fsStat_eq hq, hlookup]
  constructor
  · split
    · rfl
    · cases hl : lookup st.fs q with
      | none => rfl
      | some j =>
          have hj : j ≠ i := fun hj => hne (hj ▸ hl)
          dsimp only
          rw [hk.files j (h.tree.lookup_some hl).2.2.1 hj]
  · intro m
    rw [h.fsRead_eq hq, h'.fsRead_eq hq, hlookup]
    cases hl : lookup st.fs q with
    | none => rfl
    | some j =>
        have hj : j ≠ i := fun hj => hne (hj ▸ hl)
        have hdata : dataOf st'.fs j = dataOf st.fs j := by
          rw [hfs, dataOf_setData hi htype, Function.update_of_ne hj]
        dsimp only
        rw [hk.files j (h.tree.lookup_some hl).2.2.1 hj, hdata]
        cases hd : dataOf st.fs j with
        | none => rfl
        | some b =>
            dsimp only
            rw [(hk.data j b.1 b.2 hj hd).2]

/-- **Contents.**  After a write, the file delivers the data until a call touches it, and
every other file delivers what it did. -/
theorem fsWrite_delivers (A : Allocator σ) (blocks : σ → Nat → Option Nat) (hA : A.Lawful blocks)
    (heap : σ) (mem : Mem) (ops : List FsOp) (hp : ∀ op ∈ ops, op.HasPaths)
    (hspare : Machine.Meets (fsStep A) Spare ops (fsInitState heap mem)) (os : List Int)
    (st st₁ : FsState σ) (hrun : Machine.run (fsStep A) ops (fsInitState heap mem) = some (os, st))
    (path data : List UInt8) (hpath : IsPath path) (hlen : data.length < 2 ^ 31)
    (hwrite : fsWrite A path data st = some (0, st₁)) :
    ∃ i : Nat, fsFind st.fs path = some (i : Int) ∧
      (∀ ops', (∀ op ∈ ops', op.HasPaths) → Machine.Meets (fsStep A) Spare ops' st₁ →
        Machine.Meets (fsStep A) (fun op st => ¬Touches i op st) ops' st₁ →
        ∃ os' st₂, Machine.run (fsStep A) ops' st₁ = some (os', st₂) ∧ Delivers path data st₂) ∧
      ∀ q, IsPath q → fsFind st.fs q ≠ some (i : Int) →
        fsStat q st₁.fs = fsStat q st.fs ∧ ∀ m, fsRead q m st₁ = fsRead q m st := by
  have hinit : FsHeap (Holds blocks) ∅ (fun _ => none) (fsInitState heap mem) :=
    fsInitState_heap ⟨by simp, by simp, by simp, by simp⟩
  obtain ⟨os', st', H, hr, h, -⟩ := fsRun_heap hA.serves hp hinit
    (hspare.mono fun _ _ h => h.mkdirFits)
  rw [hrun, Option.some.injEq, Prod.mk.injEq] at hr
  obtain ⟨-, rfl⟩ := hr
  obtain ⟨r, st₁', H₁, he, h₁, hk₁, hlookup, hzero⟩ := h.write hA.serves hpath data
  rw [hwrite, Option.some.injEq, Prod.mk.injEq] at he
  obtain ⟨hr, rfl⟩ := he
  obtain ⟨i, p, hl, hfile, hfs, hne, hH⟩ := hzero hr.symm
  obtain ⟨hi, hd, hlt, -, -⟩ := h.tree.lookup_some hl
  have hlisted : Listed st.fs i := ⟨_, hd, hi⟩
  have hdata : dataOf st₁.fs i = some (p, data.length) := by
    rw [hfs, dataOf_setData hlisted hfile, Function.update_self, if_pos hne]
  have hl₁ : lookup st₁.fs path = some i := (hlookup path).trans hl
  refine ⟨i, h.tree.fsFind_of_some hpath hl, ?_, ?_⟩
  · intro ops' hp' hspare' huntouched
    obtain ⟨os', st₂, H₂, hr₂, h₂, hk₂⟩ := fsRun_heap hA.serves hp' h₁
      (hspare'.mono fun _ _ h => h.mkdirFits)
    have hlt₁ : i < st₁.fs.fileCount := (h₁.tree.lookup_some hl₁).2.2.1
    exact ⟨os', st₂, hr₂, h₂.delivers_of_keeps (hk₂ i hlt₁ huntouched) hpath rfl hl₁ hdata hH hlen⟩
  · intro q hq hqi
    refine h.write_other h₁ (hk₁.mono ?_) hlisted hfile hfs hq ?_
    · intro j hj hlj
      rw [hl, Option.some.injEq] at hlj
      exact hj hlj.symm
    · intro hlq
      exact hqi (h.tree.fsFind_of_some hq hlq)

/-- Two files: the other one keeps its data, and what is written outlives it. -/
theorem fsWrite_delivers_bump : ∃ os st st₁ os' st₂,
    Machine.run (fsStep bump) [.create pathA 0, .create [slash, 98] 0, .write [slash, 98] [9]]
      (fsInitState Bump.empty ⟨fun _ => 0⟩) = some (os, st) ∧
    fsWrite bump pathA [1, 2, 3] st = some (0, st₁) ∧ fsRead [slash, 98] 1 st₁ = some (1, [9]) ∧
    Machine.run (fsStep bump) [.delete [slash, 98], .create [slash, 99] 4] st₁ = some (os', st₂) ∧
    Delivers pathA [1, 2, 3] st₂ := by
  have hspare : Machine.Meets (fsStep bump) Spare
      [.create pathA 0, .create [slash, 98] 0, .write [slash, 98] [9]]
      (fsInitState Bump.empty ⟨fun _ => 0⟩) := by decide +kernel
  have hcode : ((Machine.run (fsStep bump)
      [.create pathA 0, .create [slash, 98] 0, .write [slash, 98] [9]]
      (fsInitState Bump.empty ⟨fun _ => 0⟩)).bind fun r =>
        (fsWrite bump pathA [1, 2, 3] r.2).map fun w => decide (w.1 = 0 ∧
          (fsFind r.2.fs pathA = some 0 ∧ fsFind r.2.fs [slash, 98] = some 1 ∧
            fsRead [slash, 98] 1 r.2 = some (1, [9])) ∧
          Machine.Meets (fsStep bump) Spare [.delete [slash, 98], .create [slash, 99] 4] w.2 ∧
          Machine.Meets (fsStep bump) (fun op st => ¬Touches 0 op st)
            [.delete [slash, 98], .create [slash, 99] 4] w.2)) = some true := by
    decide +kernel
  obtain ⟨⟨os, st⟩, hrun, hcode⟩ := Option.bind_eq_some_iff.mp hcode
  obtain ⟨⟨r, st₁⟩, hwrite, hst⟩ := Option.map_eq_some_iff.mp hcode
  obtain ⟨rfl, ⟨hfind, hother, hread⟩, hspare', huntouched⟩ := of_decide_eq_true hst
  obtain ⟨i, hi, hlater, hothers⟩ := fsWrite_delivers bump Bump.blocks bump_lawful Bump.empty
    ⟨fun _ => 0⟩ _ (by decide) hspare os st st₁ hrun pathA [1, 2, 3] (by decide) (by decide) hwrite
  obtain rfl : i = 0 := Int.ofNat.inj (Option.some.inj (hi.symm.trans hfind))
  obtain ⟨os', st₂, hrun', hd⟩ := hlater _ (by decide) hspare' huntouched
  have hne : fsFind st.fs [slash, 98] ≠ some ((0 : Nat) : Int) := by
    rw [hother]
    decide
  exact ⟨os, st, st₁, os', st₂, hrun, hwrite,
    ((hothers [slash, 98] (by decide) hne).2 1).trans hread, hrun', hd⟩

end AceOS.Drivers.Fs
