import AceOS.Drivers.Fs.Copies

/-!
# Moves are all or nothing

`fs_move` copies the source and then deletes it.  It is stated for every state whose tables are
a tree and whose files have blocks of their own (`OwnsData`), reachable or not.
-/

namespace AceOS.Drivers.Fs

open Filesystem Memory Memory.Allocator

variable {σ : Type} {A : Allocator σ} {blocks : σ → Nat → Option Nat} {hand : Set Nat}
  {H : Holdings} {st : FsState σ} {srcPath destPath : List UInt8}

/-! ### A move on the holdings -/

theorem FsTree.lookup_inj {fs : Filesystem} {p q : List UInt8} {i : Nat} (h : FsTree fs)
    (hp : IsKey (components p)) (hq : IsKey (components q)) (hlp : lookup fs p = some i)
    (hlq : lookup fs q = some i) : components p = components q := by
  rw [lookup_of_ne_nil hp.ne_nil] at hlp
  rw [lookup_of_ne_nil hq.ne_nil] at hlq
  exact h.resolve_inj hp hq hlp hlq

theorem Copied.lookup_other {H' : Holdings} {fs fs' : Filesystem} {s d p : Nat}
    (hc : Copied srcPath destPath H H' fs fs' s d p) (h : FsTree fs) (h' : FsTree fs')
    (hkd : IsKey (components destPath)) {q : List UInt8} (hq : IsKey (components q))
    (hqd : components q ≠ components destPath) : lookup fs' q = lookup fs q := by
  have htree := h'
  rw [hc.added] at htree ⊢
  rw [lookup_of_ne_nil hq.ne_nil, lookup_of_ne_nil hq.ne_nil,
    h.resolve_addEntry htree hq.isParts, if_neg]
  rintro ⟨hparent, hname⟩
  exact hqd (hq.ext hkd (h.parentOf_inj hq hkd hparent hc.new.parent) hname.symm)

/-- **What a move does.**  If it fails, every path is resolved and read as before; if it
succeeds, every path but the two, the target reads as the source did, and the source is gone. -/
theorem FsHeap.move_cases (hA : A.Lawful blocks) (h : FsHeap (Holds blocks) hand H st)
    (hs : IsPath srcPath) (hd : IsPath destPath) (hks : IsKey (components srcPath))
    (hkd : IsKey (components destPath))
    (hdata : ∀ i, Listed st.fs i → (st.fs.files i).type = .file → 0 < (st.fs.files i).size →
      (st.fs.files i).dataPointer ≠ 0) :
    ∃ r st', fsMove A srcPath destPath st = some (r, st') ∧
      ((r = -1 ∧ ∀ q, IsPath q → components q ≠ [] → SameView q st st') ∨
        (r = 0 ∧ fsFind st'.fs srcPath = some (-1) ∧
          (∃ e e', fsStat srcPath st.fs = some (0, some e) ∧
            fsStat destPath st'.fs = some (0, some e') ∧
            e.type = .file ∧ e'.type = .file ∧ e'.size = e.size) ∧
          (∀ m, fsRead destPath m st' = fsRead srcPath m st) ∧
          ∀ q, IsPath q → IsKey (components q) → components q ≠ components srcPath →
            components q ≠ components destPath → SameView q st st')) := by
  have hinit := h.tree.not_initialized
  obtain ⟨r, st₁, H₁, he, h₁, hk₁, hcases⟩ := h.copy_cases hA hs hd hkd.ne_nil
  rw [fsMove, hinit, if_neg Bool.false_ne_true, he]
  simp only [Option.bind_eq_bind, Option.bind_some]
  rcases hcases with ⟨rfl, hsame⟩ | ⟨rfl, s, d, p, hc⟩
  · rw [if_pos (by decide)]
    refine ⟨-1, st₁, rfl, Or.inl ⟨rfl, ?_⟩⟩
    intro q hq hne
    exact h.sameView h₁ hk₁ hq (fun i hi => (h.tree.lookup_some hi).2.2.1) (hsame q hne)
  rw [if_neg (by simp)]
  -- the source is still there, and its deletion succeeds
  obtain ⟨hsmem, hsd, hslt, hsparent, hsname⟩ := h.tree.lookup_some hc.source
  have hl₁ : lookup st₁.fs srcPath = some s := hk₁.lookup hslt hc.source
  have hfile₁ : st₁.fs.files s = st.fs.files s := hk₁.files s hslt hslt
  obtain ⟨st₂, H₂, he', h₂, hk₂, -, hlookup₂⟩ :=
    h₁.deleteFile hA hs hl₁ (by rw [hfile₁]; exact hc.file)
  rw [he', Option.bind_some]
  dsimp only
  rw [if_neg (by simp)]
  -- every other path is resolved as before
  have hother : ∀ q, IsKey (components q) → components q ≠ components srcPath →
      components q ≠ components destPath → lookup st₂.fs q = lookup st.fs q := by
    intro q hq hqs hqd
    rw [hlookup₂ q hq.ne_nil, hc.lookup_other h.tree h₁.tree hkd hq hqd, if_neg]
    exact fun hls => hqs (h.tree.lookup_inj hq hks hls hc.source)
  have hk : Keeps (fun i => i < st.fs.fileCount ∧ i ≠ s) st.fs H st₂.fs H₂ :=
    (hk₁.mono fun i hi => hi.1).trans (hk₂.mono fun i hi => hi.2)
  -- the target is the new entry
  obtain ⟨hldest, hentry⟩ := hc.lookup_dest h.tree h₁.tree hkd.ne_nil
  have hns : st.fs.fileCount ≠ s := (Nat.ne_of_lt hslt).symm
  have hldest₂ : lookup st₂.fs destPath = some st.fs.fileCount := by
    rw [hlookup₂ destPath hkd.ne_nil, hldest, if_neg]
    intro hn
    exact hns (Option.some.inj hn)
  have hview : SameView destPath st₁ st₂ := by
    refine h₁.sameView h₂ hk₂ hd ?_ (hldest₂.trans hldest.symm)
    intro i hi
    rw [hldest, Option.some.injEq] at hi
    exact hi ▸ hns
  refine ⟨0, st₂, rfl, Or.inr ⟨rfl, ?_, ?_, ?_, ?_⟩⟩
  · rw [h₂.tree.fsFind_key hs hks]
    have hgone := hlookup₂ srcPath hks.ne_nil
    rw [if_pos hl₁, lookup_of_ne_nil hks.ne_nil] at hgone
    rw [hgone]
    rfl
  · have hroot : ∀ q : List UInt8, components q ≠ [] → ¬fsIsRoot q = true :=
      fun q hq hr => hq (components_of_fsIsRoot hr)
    refine ⟨st.fs.files s, fileEntry st.fs destPath d (st.fs.files s).size p, ?_, ?_, hc.file, rfl,
      rfl⟩
    · rw [h.tree.fsStat_eq hs, if_neg (hroot _ hks.ne_nil), hc.source]
    · rw [hview.stat, h₁.tree.fsStat_eq hd, if_neg (hroot _ hkd.ne_nil), hldest]
      dsimp only
      rw [hentry]
  · intro m
    rw [hview.read]
    exact h.read_copied h₁ hc hs hd hkd.ne_nil (hdata s ⟨_, hsd, hsmem⟩ hc.file) m
  · intro q hq hkq hqs hqd
    refine h.sameView h₂ hk hq ?_ (hother q hkq hqs hqd)
    intro i hi
    refine ⟨(h.tree.lookup_some hi).2.2.1, ?_⟩
    rintro rfl
    exact hqs (h.tree.lookup_inj hkq hks hi hc.source)

/-! ### The current directory -/

def FsState.inDir (c : List UInt8) (st : FsState σ) : FsState σ :=
  { st with currentDirectory := c }

/-- The call neither reads nor writes the current directory. -/
def IgnoresCwd (call : FsState σ → Option (Int × FsState σ)) : Prop :=
  ∀ c st, call (st.inDir c) = (call st).map fun r => (r.1, r.2.inDir c)

section Branches

variable {α β γ : Type} {f : α → β}

theorem ite_eq_map {p : Prop} [Decidable p] {a b : Option β} {a' b' : Option α}
    (ha : a = a'.map f) (hb : b = b'.map f) :
    (if p then a else b) = (if p then a' else b').map f := by
  split
  · exact ha
  · exact hb

theorem bind_eq_map {x : Option γ} {g : γ → Option β} {g' : γ → Option α}
    (h : ∀ y, g y = (g' y).map f) : x.bind g = (x.bind g').map f := by
  cases x with
  | none => rfl
  | some y => exact h y

end Branches

theorem ignoresCwd_fsCreate (path : List UInt8) (size : Nat) :
    IgnoresCwd (fsCreate A path size) := by
  intro c st
  rw [fsCreate, fsCreate]
  refine ite_eq_map rfl (bind_eq_map fun _ => ite_eq_map rfl (bind_eq_map fun _ => ite_eq_map rfl
    (ite_eq_map rfl (bind_eq_map fun _ => ite_eq_map rfl (bind_eq_map fun _ => ?_)))))
  by_cases hs : 0 < size
  · simp only [if_pos hs]
    exact ite_eq_map rfl (bind_eq_map fun _ => rfl)
  · simp only [if_neg hs]
    exact ite_eq_map rfl (bind_eq_map fun _ => rfl)

theorem ignoresCwd_fsDelete (path : List UInt8) : IgnoresCwd (fsDelete A path) := by
  intro c st
  rw [fsDelete, fsDelete]
  refine ite_eq_map rfl (ite_eq_map rfl (bind_eq_map fun _ => ite_eq_map rfl
    (bind_eq_map fun entry => ite_eq_map (bind_eq_map fun slot => ?_) ?_)))
  · cases slot with
    | none => rfl
    | some k => exact bind_eq_map fun _ => ite_eq_map rfl (bind_eq_map fun _ => rfl)
  · by_cases hp : entry.dataPointer ≠ 0
    · simp only [if_pos hp]
      exact bind_eq_map fun _ => rfl
    · simp only [if_neg hp]
      exact bind_eq_map fun _ => rfl

theorem ignoresCwd_fsWrite (path data : List UInt8) : IgnoresCwd (fsWrite A path data) := by
  intro c st
  rw [fsWrite, fsWrite]
  refine ite_eq_map rfl (bind_eq_map fun _ => ite_eq_map rfl (bind_eq_map fun entry =>
    ite_eq_map rfl ?_))
  by_cases hstale : entry.dataPointer ≠ 0 ∧ entry.size ≠ data.length
  · simp only [if_pos hstale, if_true]
    exact ite_eq_map rfl rfl
  · simp only [if_neg hstale]
    by_cases hp : entry.dataPointer = 0
    · simp only [if_pos hp]
      exact ite_eq_map rfl rfl
    · simp only [if_neg hp]
      rfl

theorem call_eq_map {call : FsState σ → Option (Int × FsState σ)} (h : IgnoresCwd call)
    (c : List UInt8) {g g' : Int × FsState σ → Option (Int × FsState σ)} (st : FsState σ)
    (hg : ∀ r, g (r.1, r.2.inDir c) = (g' r).map fun r => (r.1, r.2.inDir c)) :
    (call (st.inDir c)).bind g = ((call st).bind g').map fun r => (r.1, r.2.inDir c) := by
  rw [h c st]
  cases call st with
  | none => rfl
  | some r => exact hg r

theorem ignoresCwd_fsCopyData (s : Nat) (path : List UInt8) : IgnoresCwd (fsCopyData A s path) := by
  have hd := ignoresCwd_fsDelete (A := A) path
  intro c st
  rw [fsCopyData, fsCopyData]
  refine bind_eq_map fun src => ite_eq_map (ite_eq_map ?_ ?_) rfl
  · exact call_eq_map hd c (st.malloc A src.size).2 fun _ => rfl
  · let st₁ := (st.malloc A src.size).2
    let st₂ := { st₁ with
      mem := storeBytes st₁.mem (st.malloc A src.size).1
        (loadBytes st₁.mem src.dataPointer src.size) }
    refine call_eq_map (ignoresCwd_fsWrite path _) c st₂ fun r => ite_eq_map ?_ rfl
    exact call_eq_map hd c (r.2.free A (st.malloc A src.size).1) fun _ => rfl

theorem ignoresCwd_fsCopy (srcPath destPath : List UInt8) :
    IgnoresCwd (fsCopy A srcPath destPath) := by
  intro c st
  rw [fsCopy, fsCopy]
  refine ite_eq_map rfl (bind_eq_map fun _ => ite_eq_map rfl (bind_eq_map fun _ => ite_eq_map rfl
    (bind_eq_map fun _ => ite_eq_map rfl ?_)))
  refine call_eq_map (ignoresCwd_fsCreate destPath _) c _ fun r => ite_eq_map rfl ?_
  exact ignoresCwd_fsCopyData _ destPath c r.2

theorem ignoresCwd_fsMove (srcPath destPath : List UInt8) :
    IgnoresCwd (fsMove A srcPath destPath) := by
  intro c st
  rw [fsMove, fsMove]
  refine ite_eq_map rfl (call_eq_map (ignoresCwd_fsCopy srcPath destPath) c st fun r =>
    ite_eq_map rfl ?_)
  refine call_eq_map (ignoresCwd_fsDelete srcPath) c _ fun r => ite_eq_map ?_ rfl
  exact call_eq_map (ignoresCwd_fsDelete destPath) c _ fun _ => rfl

/-! ### Any state with a tree and its blocks -/

/-- The data of the files are in live blocks, each in one of its own. -/
structure OwnsData (blocks : Nat → Option Nat) (fs : Filesystem) : Prop where
  live : ∀ i p n, dataOf fs i = some (p, n) → ∃ l, blocks p = some l ∧ n ≤ l
  apart : ∀ i j p n q m, dataOf fs i = some (p, n) → dataOf fs j = some (q, m) → i ≠ j →
    p ≠ q ∧ (p + n ≤ q ∨ q + m ≤ p)

open Classical in
noncomputable def holdingsOf (fs : Filesystem) (mem : Mem) : Holdings := fun p =>
  if h : ∃ n i, dataOf fs i = some (p, n) then some (loadBytes mem p h.choose) else none

section Holdings

variable {fs : Filesystem} {mem : Mem} {bl : Nat → Option Nat}

theorem OwnsData.unique (h : OwnsData bl fs) {i j p n m : Nat} (hi : dataOf fs i = some (p, n))
    (hj : dataOf fs j = some (p, m)) : i = j := by
  by_contra hij
  exact (h.apart i j p n p m hi hj hij).1 rfl

theorem OwnsData.holdingsOf_eq (h : OwnsData bl fs) {i p n : Nat}
    (hi : dataOf fs i = some (p, n)) : holdingsOf fs mem p = some (loadBytes mem p n) := by
  have hex : ∃ n i, dataOf fs i = some (p, n) := ⟨n, i, hi⟩
  rw [holdingsOf, dif_pos hex]
  obtain ⟨j, hj⟩ := hex.choose_spec
  obtain rfl := h.unique hi hj
  rw [hi, Option.some.injEq, Prod.mk.injEq] at hj
  rw [← hj.2]

theorem holdingsOf_some {p : Nat} {bs : List UInt8} (hp : holdingsOf fs mem p = some bs) :
    ∃ n i, dataOf fs i = some (p, n) ∧ bs = loadBytes mem p n := by
  rw [holdingsOf] at hp
  split at hp
  · rename_i hex
    obtain ⟨i, hi⟩ := hex.choose_spec
    exact ⟨_, i, hi, (Option.some.inj hp).symm⟩
  · exact absurd hp (by simp)

/-- The contents of its blocks are the holdings of the file system. -/
theorem OwnsData.fsHeap (htree : FsTree st.fs) (h : OwnsData (blocks st.heap) st.fs) :
    FsHeap (Holds blocks) ∅ (holdingsOf st.fs st.mem) (st.inDir [slash]) where
  tree := htree
  cwd := isCwd_slash
  heap := by
    refine ⟨?_, ?_, ?_, ?_⟩
    · intro p bs hp
      obtain ⟨n, i, hi, -⟩ := holdingsOf_some hp
      obtain ⟨-, -, hne, rfl, -⟩ := dataOf_eq_some.mp hi
      exact hne
    · intro p bs hp
      obtain ⟨n, i, hi, rfl⟩ := holdingsOf_some hp
      rw [loadBytes_length]
      exact h.live i p n hi
    · intro p q bs cs hp hq hpq
      obtain ⟨n, i, hi, rfl⟩ := holdingsOf_some hp
      obtain ⟨m, j, hj, rfl⟩ := holdingsOf_some hq
      rw [loadBytes_length, loadBytes_length]
      refine (h.apart i j p n q m hi hj ?_).2
      rintro rfl
      rw [hi, Option.some.injEq, Prod.mk.injEq] at hj
      exact hpq hj.1
    · intro p bs hp
      obtain ⟨n, i, -, rfl⟩ := holdingsOf_some hp
      rw [loadBytes_length]
      rfl
  accounts := by
    refine ⟨?_, ?_, ?_, ?_, ?_⟩
    · intro i p n hi
      exact ⟨_, h.holdingsOf_eq hi, loadBytes_length ..⟩
    · intro i j p n m hi hj
      exact h.unique hi hj
    · exact fun _ _ _ _ => Set.notMem_empty _
    · intro p hp
      obtain ⟨bs, hbs⟩ := Option.ne_none_iff_exists'.mp hp
      obtain ⟨n, i, hi, -⟩ := holdingsOf_some hbs
      exact Or.inr ⟨i, n, hi⟩
    · exact fun p hp => absurd hp (Set.notMem_empty p)

theorem FsHeap.ownsData (h : FsHeap (Holds blocks) hand H st) :
    OwnsData (blocks st.heap) st.fs where
  live := by
    intro i p n hi
    obtain ⟨bs, hbs, rfl⟩ := h.accounts.held i p n hi
    exact h.heap.live p bs hbs
  apart := by
    intro i j p n q m hi hj hij
    have hpq : p ≠ q := by
      rintro rfl
      exact hij (h.accounts.distinct i j p n m hi hj)
    obtain ⟨bs, hbs, rfl⟩ := h.accounts.held i p n hi
    obtain ⟨cs, hcs, rfl⟩ := h.accounts.held j q m hj
    exact ⟨hpq, h.heap.apart p q bs cs hbs hcs hpq⟩

end Holdings

/-- **`fs_move` is all or nothing**, whatever memory there is for the copy. -/
theorem fsMove_allOrNothing (A : Allocator σ) (blocks : σ → Nat → Option Nat)
    (hA : A.Lawful blocks) (st : FsState σ) (htree : FsTree st.fs)
    (howns : OwnsData (blocks st.heap) st.fs)
    (hdata : ∀ i, Listed st.fs i → (st.fs.files i).type = .file → 0 < (st.fs.files i).size →
      (st.fs.files i).dataPointer ≠ 0)
    (srcPath destPath : List UInt8) (hs : IsPath srcPath) (hd : IsPath destPath)
    (hks : IsKey (components srcPath)) (hkd : IsKey (components destPath)) :
    ∃ r st', fsMove A srcPath destPath st = some (r, st') ∧
      ((r = -1 ∧ ∀ q, IsPath q → IsKey (components q) → SameView q st st') ∨
        (r = 0 ∧ fsFind st'.fs srcPath = some (-1) ∧
          (∃ e e', fsStat srcPath st.fs = some (0, some e) ∧
            fsStat destPath st'.fs = some (0, some e') ∧
            e.type = .file ∧ e'.type = .file ∧ e'.size = e.size) ∧
          (∀ m, fsRead destPath m st' = fsRead srcPath m st) ∧
          ∀ q, IsPath q → IsKey (components q) → components q ≠ components srcPath →
            components q ≠ components destPath → SameView q st st')) := by
  obtain ⟨r, st₁, hmove, hcases⟩ := (howns.fsHeap htree).move_cases hA hs hd hks hkd hdata
  rw [ignoresCwd_fsMove, Option.map_eq_some_iff] at hmove
  obtain ⟨⟨r', st'⟩, hmove, he⟩ := hmove
  rw [Prod.mk.injEq] at he
  obtain ⟨rfl, rfl⟩ := he
  refine ⟨r', st', hmove, ?_⟩
  rcases hcases with ⟨hr, hsame⟩ | ⟨hr, hgone, hstat, hread, hsame⟩
  · refine Or.inl ⟨hr, ?_⟩
    intro q hq hkq
    exact ⟨(hsame q hq hkq.ne_nil).find, (hsame q hq hkq.ne_nil).stat, (hsame q hq hkq.ne_nil).read⟩
  · refine Or.inr ⟨hr, hgone, hstat, hread, ?_⟩
    intro q hq hkq hqs hqd
    have hview := hsame q hq hkq hqs hqd
    exact ⟨hview.find, hview.stat, hview.read⟩

theorem fsMove_allOrNothing_bump :
    ∃ st st', fsMove bump [slash, 97] [slash, 98] st = some (0, st') ∧
    fsFind st'.fs [slash, 97] = some (-1) ∧
    ∀ m, fsRead [slash, 98] m st' = fsRead [slash, 97] m st := by
  have hpaths : (∀ op ∈ [FsOp.create [slash, 97] 3], op.HasPaths) ∧ IsPath [slash, 97] ∧
      IsPath [slash, 98] ∧ IsKey (components [slash, 97]) ∧ IsKey (components [slash, 98]) ∧
      Machine.Meets (fsStep bump) Spare [.create [slash, 97] 3]
        (fsInitState Bump.empty ⟨fun _ => 0⟩) ∧
      ((Machine.run (fsStep bump) [.create [slash, 97] 3] (fsInitState Bump.empty
        ⟨fun _ => 0⟩)).all fun r => decide ((fsMove bump [slash, 97] [slash, 98] r.2).map Prod.fst
          = some 0 ∧ ∀ i < r.2.fs.fileCount, (r.2.fs.files i).dataPointer ≠ 0)) = true := by
    decide +kernel
  obtain ⟨hp, hs, hd, hks, hkd, hfit, hrest⟩ := hpaths
  obtain ⟨os, st, H, hrun, h, -⟩ := fsRun_heap (bump_lawful.serves) hp
    (fsInitState_heap (I := Holds Bump.blocks) ⟨by simp, by simp, by simp, by simp⟩)
    (hfit.mono fun _ _ h => h.mkdirFits)
  rw [hrun, Option.all_some, decide_eq_true_iff] at hrest
  obtain ⟨hcode, hptr⟩ := hrest
  obtain ⟨r, st', he, hcases⟩ := fsMove_allOrNothing bump Bump.blocks bump_lawful st h.tree
    h.ownsData (fun i hi _ _ => hptr i (h.tree.lt_of_listed hi)) _ _ hs hd hks hkd
  rw [he, Option.map_some, Option.some.injEq] at hcode
  have hr : r = 0 := hcode
  rcases hcases with ⟨hfail, -⟩ | ⟨-, hgone, -, hread, -⟩
  · exact absurd (hr.symm.trans hfail) (by decide)
  · exact ⟨st, st', hr ▸ he, hgone, hread⟩

end AceOS.Drivers.Fs
