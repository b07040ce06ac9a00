import AceOS.Libc.StdlibSizes
import AceOS.Lib.Ownership

/-!
# What the libc heap does to the bytes of a block

`malloc` writes inside one free block, and `free` writes headers only: the payloads of
the blocks in use keep their bytes (`libcStep_payload`).  So the two calls are an
allocator in the sense of `Memory.Allocator`, and one that serves its clients as long as
they ask for no more than `0xFFFFFFF8` bytes, up to where the size can be rounded
(`libcAllocator_serves`).
-/

namespace AceOS.Libc

open Memory Segments

/-! ### Where the calls write -/

section Frames

variable {heap : Nat} {m m' : Mem} {bs xs ys : List Seg} {b c : Seg} {size x : Nat}

theorem LibcRepr.take_outside (h : LibcRepr heap m (xs ++ b :: ys)) (hsize : size ≤ b.size)
    (hx : x < b.addr ∨ b.addr + 12 + b.size ≤ x) :
    setBlockFree (splitMemoryBlock b.addr size m) b.addr 0 x = m x := by
  have hb : BlockHdr _ _ _ _ := h.header_eq
  obtain ⟨-, hlt, hsmall⟩ := h.bounds (b := b) (by simp)
  simp only [heapSize] at hsmall
  rw [setBlockFree, store32_of_disjoint (by omega), splitMemoryBlock, hb.1]
  split
  · rename_i hfit
    rw [memoryBlockSize, add32_of_lt (a := size) (b := 12) (by omega),
      add32_of_lt (by omega)] at hfit
    have hnew : add32 (add32 b.addr memoryBlockSize) size = b.addr + 12 + size := by
      rw [memoryBlockSize, add32_of_lt (a := b.addr) (b := 12) (by omega), add32_of_lt (by omega)]
    simp only [setBlockSize, setBlockFree, setBlockNext, hnew]
    rw [store32_of_disjoint (by omega), store32_of_disjoint (by omega),
      store32_of_disjoint (by omega), store32_of_disjoint (by omega),
      store32_of_disjoint (by omega)]
  · rfl

/-- The walk of `malloc` writes inside one free block, if at all. -/
theorem mallocLoop_outside (h : LibcRepr heap m (xs ++ ys)) {fuel : Nat} {r : Nat × Mem}
    (he : mallocLoop size fuel (headAddr ys 0) m = some r) :
    r.2 = m ∨ ∃ b ∈ ys, b.free = true ∧
      ∀ x, x < b.addr ∨ b.addr + 12 + b.size ≤ x → r.2 x = m x := by
  induction ys generalizing xs fuel with
  | nil =>
      cases fuel with
      | zero => exact absurd he (by simp [mallocLoop])
      | succ fuel =>
          rw [headAddr_nil, mallocLoop, if_pos rfl, Option.some.injEq] at he
          exact Or.inl (he ▸ rfl)
  | cons b ys ih =>
      cases fuel with
      | zero => exact absurd he (by simp [mallocLoop])
      | succ fuel =>
          have hb : BlockHdr _ _ _ _ := h.header_eq
          have hpos := (h.bounds (b := b) (by simp)).1
          rw [headAddr_cons, mallocLoop, if_neg (by omega), hb.1] at he
          by_cases hfit : blockFree m b.addr ≠ 0 ∧ size ≤ b.size
          · have hbf : b.free = true := by
              by_contra hf
              exact hfit.1 (by rw [hb.2.1, if_neg hf])
            rw [if_pos hfit, Option.some.injEq] at he
            subst he
            exact Or.inr ⟨b, List.mem_cons_self .., hbf, fun x hx => h.take_outside hfit.2 hx⟩
          · have h' : LibcRepr heap m ((xs ++ [b]) ++ ys) := by simpa using h
            rw [if_neg hfit, hb.2.2] at he
            refine (ih h' he).imp_right ?_
            rintro ⟨c, hc, hcf, hout⟩
            exact ⟨c, List.mem_cons_of_mem b hc, hcf, hout⟩

theorem absorbMemoryBlock_outside {block next : Nat} (hx : x < block ∨ block + 12 ≤ x) :
    absorbMemoryBlock block next m x = m x := by
  simp only [absorbMemoryBlock, setBlockSize, setBlockNext]
  rw [store32_of_disjoint (by omega), store32_of_disjoint (by omega)]

/-- The walk of `free` writes the header of one block, if at all. -/
theorem freeLoop_outside (h : LibcRepr heap m (xs ++ b :: ys))
    (he : freeLoop listFuel b.addr (headAddr (xs ++ b :: ys) 0) m = some m') :
    m' = m ∨ ∃ a ∈ xs ++ b :: ys, ∀ x, x < a.addr ∨ a.addr + 12 ≤ x → m' x = m x := by
  by_cases hprev : ∃ a ∈ xs.getLast?, a.free = true
  · obtain ⟨a, hlast, ha⟩ := hprev
    obtain ⟨us, rfl⟩ := List.getLast?_eq_some_iff.mp hlast
    rw [List.append_assoc, List.singleton_append] at h he
    rw [freeLoop_prev h ha, Option.some.injEq] at he
    subst he
    exact Or.inr ⟨a, by simp, fun x hx => absorbMemoryBlock_outside hx⟩
  · have hxs : ∀ a ∈ xs.getLast?, a.free = false := by
      intro a ha
      by_contra hf
      exact hprev ⟨a, ha, by simpa using hf⟩
    by_cases hnext : ∃ c ∈ ys.head?, c.free = true
    · obtain ⟨c, hhead, hc⟩ := hnext
      obtain ⟨cs, rfl⟩ := List.head?_eq_some_iff.mp hhead
      rw [freeLoop_next h hxs hc, Option.some.injEq] at he
      subst he
      exact Or.inr ⟨b, by simp, fun x hx => absorbMemoryBlock_outside hx⟩
    · have hys : ∀ c ∈ ys.head?, c.free = false := by
        intro c hc
        by_contra hf
        exact hnext ⟨c, hc, by simpa using hf⟩
      rw [freeLoop_alone h hxs hys, Option.some.injEq] at he
      exact Or.inl he.symm

theorem LibcRepr.outside_of_payload (h : LibcRepr heap m bs) (hb : b ∈ bs) (hc : c ∈ bs)
    (hcb : c ≠ b) (h₁ : c.addr + 12 ≤ x) (h₂ : x < c.addr + 12 + c.size) :
    x < b.addr ∨ b.addr + 12 + b.size ≤ x := by
  rcases h.tiles.apart hc hb hcb with h' | h' <;> omega

theorem malloc_payload {st st' : LibcHeap} {p : Nat} (h : LibcRepr heap st.mem bs)
    (hfirst : st.freeList = headAddr bs 0) (hinit : st.initialized = true)
    (he : malloc heap size st = some (p, st')) (hc : c ∈ bs) (hcf : c.free = false)
    (h₁ : c.addr + 12 ≤ x) (h₂ : x < c.addr + 12 + c.size) : st'.mem x = st.mem x := by
  rw [malloc, initializeHeap_of_initialized heap hinit, Option.map_eq_some_iff] at he
  obtain ⟨r, hloop, hr⟩ := he
  obtain ⟨rfl, rfl⟩ := Prod.mk.inj hr
  rw [hfirst] at hloop
  rcases mallocLoop_outside (show LibcRepr heap st.mem ([] ++ bs) from h) hloop with
    hm | ⟨b, hb, hbf, hout⟩
  · exact congrArg (fun m : Mem => m x) hm
  · refine hout x (h.outside_of_payload hb hc ?_ h₁ h₂)
    rintro rfl
    rw [hcf] at hbf
    exact absurd hbf (by decide)

theorem free_payload {st st' : LibcHeap} (h : LibcRepr heap st.mem (xs ++ b :: ys))
    (hfirst : st.freeList = headAddr (xs ++ b :: ys) 0)
    (he : free (b.addr + 12) st = some st') (hc : c ∈ xs ++ b :: ys)
    (h₁ : c.addr + 12 ≤ x) (h₂ : x < c.addr + 12 + c.size) : st'.mem x = st.mem x := by
  have hbounds := h.bounds (b := b) (by simp)
  have hblock : sub32 (b.addr + 12) memoryBlockSize = b.addr := by
    rw [memoryBlockSize, sub32_of_le (by omega) (by omega)]
    omega
  -- no header reaches into the payload of `c`
  have hheader : ∀ a ∈ xs ++ b :: ys, x < a.addr ∨ a.addr + 12 ≤ x := by
    intro a ha
    by_cases hca : c = a
    · subst hca
      exact Or.inr h₁
    · have := h.outside_of_payload ha hc hca h₁ h₂
      omega
  have hflag : setBlockFree st.mem b.addr 1 x = st.mem x := by
    have := hheader b (by simp)
    rw [setBlockFree, store32_of_disjoint (by omega)]
  rw [free, if_neg (by omega)] at he
  simp only [hblock, Option.map_eq_some_iff] at he
  obtain ⟨m', hloop, rfl⟩ := he
  have hloop' : freeLoop listFuel { b with free := true }.addr
      (headAddr (xs ++ { b with free := true } :: ys) 0) (setBlockFree st.mem b.addr 1)
        = some m' := by
    rw [← hloop, hfirst, headAddr_append, headAddr_append, headAddr_cons, headAddr_cons]
  rw [← hflag]
  rcases freeLoop_outside (h.retag true) hloop' with hm | ⟨a, ha, hout⟩
  · exact congrArg (fun m : Mem => m x) hm
  · apply hout
    rcases List.mem_append.mp ha with ha | ha
    · exact hheader a (by simp [ha])
    · rcases List.mem_cons.mp ha with rfl | ha
      · exact hheader b (by simp)
      · exact hheader a (by simp [ha])

end Frames

/-! ### The live blocks -/

section Live

variable {heap : Nat} {s t : LibcRun} {p x o : Nat}

theorem LibcTiled.segment {bs : List Seg} (hrepr : LibcRepr heap s.st.mem bs)
    (hlive : ∀ p, p ∈ s.live ↔ ∃ b ∈ bs, b.free = false ∧ p = b.addr + 12) (hp : p ∈ s.live) :
    ∃ c ∈ bs, c.free = false ∧ p = c.addr + 12 ∧
      blockSize s.st.mem (p - memoryBlockSize) = c.size := by
  obtain ⟨c, hc, hcf, rfl⟩ := (hlive p).mp hp
  refine ⟨c, hc, hcf, rfl, ?_⟩
  rw [memoryBlockSize, Nat.add_sub_cancel, hrepr.size_eq hc]

/-- **Payloads.**  `malloc` and `free` change no byte of a live block, but for the block
that is freed. -/
theorem libcStep_payload (h : LibcInv heap s) (op : LibcOp) (hop : LibcAllowed op s)
    (hno : ∀ a v, op ≠ .write a v) (hstep : libcStep heap op s = some (o, t)) (hp : p ∈ s.live)
    (hx : p ≤ x) (hx' : x < p + blockSize s.st.mem (p - memoryBlockSize)) :
    t.st.mem x = s.st.mem x := by
  obtain ⟨hinit, bs, hrepr, hfirst, hlive⟩ := h.tiled hp
  obtain ⟨c, hc, hcf, rfl, hsize⟩ := LibcTiled.segment hrepr hlive hp
  rw [hsize] at hx'
  cases op with
  | malloc size =>
      obtain ⟨⟨q, st'⟩, he, hr⟩ := Option.map_eq_some_iff.mp hstep
      obtain ⟨-, rfl⟩ := Prod.mk.inj hr
      exact malloc_payload hrepr hfirst hinit he hc hcf hx hx'
  | free ptr =>
      obtain ⟨st', he, hr⟩ := Option.map_eq_some_iff.mp hstep
      obtain ⟨-, rfl⟩ := Prod.mk.inj hr
      rcases hop with rfl | hptr
      · rw [free, if_pos rfl, Option.some.injEq] at he
        exact he ▸ rfl
      · obtain ⟨b, hb, -, rfl⟩ := (hlive ptr).mp hptr
        obtain ⟨us, ys, rfl⟩ := List.append_of_mem hb
        exact free_payload hrepr hfirst he hc hx hx'
  | write a v => exact absurd rfl (hno a v)

end Live

/-! ### An allocator -/

/-- The statics of `stdlib.c`, apart from the array. -/
structure LibcStatics where
  freeList : Nat
  initialized : Bool
  deriving DecidableEq, Repr

def LibcStatics.heap (s : LibcStatics) (m : Mem) : LibcHeap := ⟨m, s.freeList, s.initialized⟩

def LibcHeap.statics (st : LibcHeap) : LibcStatics := ⟨st.freeList, st.initialized⟩

/-- The two calls on the heap at `heap`.  A call that does not return, which no client
that keeps to the contract sees (`libcStep_inv`), is one that does nothing. -/
def libcAllocator (heap : Nat) : Allocator LibcStatics where
  malloc n s m :=
    match malloc heap n (s.heap m) with
    | some (p, st) => (p, st.statics, st.mem)
    | none => (0, s, m)
  free p s m :=
    match free p (s.heap m) with
    | some st => (st.statics, st.mem)
    | none => (s, m)

/-- The largest size that rounds up to a multiple of 8 below `2 ^ 32`. -/
abbrev libcMaxSize : Nat := 0xFFFFFFF8

/-- The pointers a client holds are the live ones, their blocks are large enough, and they
have these contents. -/
structure LibcHolds (heap : Nat) (H : Holdings) (s : LibcStatics) (m : Mem) : Prop where
  inv : ∃ live, LibcInv heap ⟨s.heap m, live⟩ ∧ ∀ p, p ∈ live ↔ H p ≠ none
  fits : ∀ p bs, H p = some bs → bs.length ≤ blockSize m (p - memoryBlockSize)
  contents : ∀ p bs, H p = some bs → loadBytes m p bs.length = bs

theorem LibcHolds.start (heap : Nat) (m : Mem) :
    LibcHolds heap (fun _ => none) ⟨0, false⟩ m :=
  ⟨⟨∅, ⟨rfl, rfl⟩, by simp⟩, by simp, by simp⟩

section Serves

variable {heap : Nat} {H H' : Holdings} {s s' : LibcStatics} {m m' : Mem} {p : Nat}
  {bs data : List UInt8}

theorem LibcHolds.step (h₀ : 0 < heap) (h₁ : heap + heapSize < 4294967296) {live : Finset Nat}
    {op : LibcOp} {o : Nat} {t : LibcRun} (h : LibcHolds heap H s m)
    (hinv : LibcInv heap ⟨s.heap m, live⟩) (hlive : ∀ p, p ∈ live ↔ H p ≠ none)
    (hop : LibcAllowed op ⟨s.heap m, live⟩) (hno : ∀ a v, op ≠ .write a v)
    (hstep : libcStep heap op ⟨s.heap m, live⟩ = some (o, t)) (hp : H p = some bs)
    (hfree : op ≠ .free p) :
    bs.length ≤ blockSize t.st.mem (p - memoryBlockSize) ∧ loadBytes t.st.mem p bs.length = bs := by
  have hpl : p ∈ live := (hlive p).mpr (by simp [hp])
  have hfit := h.fits p bs hp
  obtain ⟨o', t', hstep', -, -, hkeep⟩ := libcStep_inv h₀ h₁ hinv op hop
  rw [hstep, Option.some.injEq, Prod.mk.injEq] at hstep'
  obtain ⟨-, rfl⟩ := hstep'
  have hsame : loadBytes t.st.mem p bs.length = loadBytes m p bs.length := by
    refine loadBytes_congr ?_
    intro x hx hx'
    exact libcStep_payload hinv op hop hno hstep hpl hx
      (Nat.lt_of_lt_of_le hx' (Nat.add_le_add_left hfit p))
  exact ⟨(hkeep p hpl hfree).2 ▸ hfit, hsame.trans (h.contents p bs hp)⟩

theorem LibcHolds.malloc (h₀ : 0 < heap) (h₁ : heap + heapSize < 4294967296) {n : Nat}
    (h : LibcHolds heap H s m) (hn : n ≤ libcMaxSize) :
    ((libcAllocator heap).malloc n s m).1 = 0 ∧
      LibcHolds heap H ((libcAllocator heap).malloc n s m).2.1
        ((libcAllocator heap).malloc n s m).2.2 ∨
    ((libcAllocator heap).malloc n s m).1 ≠ 0 ∧
      H ((libcAllocator heap).malloc n s m).1 = none ∧ ∃ bs, bs.length = n ∧
      LibcHolds heap (Function.update H ((libcAllocator heap).malloc n s m).1 (some bs))
        ((libcAllocator heap).malloc n s m).2.1 ((libcAllocator heap).malloc n s m).2.2 := by
  obtain ⟨live, hinv, hlive⟩ := h.inv
  have hop : LibcAllowed (.malloc n) ⟨s.heap m, live⟩ := Nat.lt_of_le_of_lt hn (by decide)
  obtain ⟨o, t, hstep, hinv', -, -⟩ := libcStep_inv h₀ h₁ hinv _ hop
  have hkeep := fun {p bs} (hp : H p = some bs) => h.step h₀ h₁ hinv hlive hop (by simp) hstep hp
    (by simp)
  obtain ⟨⟨q, st'⟩, he, hr⟩ := Option.map_eq_some_iff.mp hstep
  obtain ⟨rfl, rfl⟩ := Prod.mk.inj hr
  have hcall : (libcAllocator heap).malloc n s m = (q, st'.statics, st'.mem) := by
    simp only [libcAllocator, he]
  rw [hcall]
  rcases malloc_outcome h₀ h₁ hinv n with
    ⟨st'', he', -⟩ | ⟨b, bs, st'', he', hrepr, hfirst, hb, hbf, hsize, -, hold⟩
  · rw [he, Option.some.injEq, Prod.mk.injEq] at he'
    obtain ⟨rfl, rfl⟩ := he'
    refine Or.inl ⟨rfl, ⟨live, hinv', hlive⟩, ?_, ?_⟩
    · exact fun p bs hp => (hkeep hp).1
    · exact fun p bs hp => (hkeep hp).2
  · rw [he, Option.some.injEq, Prod.mk.injEq] at he'
    obtain ⟨rfl, rfl⟩ := he'
    have hne : b.addr + 12 ≠ 0 := Nat.succ_ne_zero _
    have hlarge : n ≤ blockSize st'.mem (b.addr + 12 - memoryBlockSize) := by
      rw [memoryBlockSize, Nat.add_sub_cancel, hrepr.size_eq hb]
      exact (le_mallocSize hn).trans hsize
    have hnew : H (b.addr + 12) = none := by
      by_contra hcon
      obtain ⟨c, hc, -, hpc, hcb, -⟩ := hold _ ((hlive _).mpr hcon)
      exact hcb (hrepr.tiles.eq_of_addr (by decide) hc hb (by omega))
    refine Or.inr ⟨hne, hnew, loadBytes st'.mem (b.addr + 12) n, loadBytes_length .., ?_, ?_, ?_⟩
    · refine ⟨insert (b.addr + 12) live, by rwa [if_neg hne] at hinv', ?_⟩
      intro p
      by_cases hpb : p = b.addr + 12
      · subst hpb
        rw [Function.update_self]
        simp
      · rw [Function.update_of_ne hpb, Finset.mem_insert, or_iff_right hpb]
        exact hlive p
    · intro p bs hp
      rcases Allocator.update_some_cases hp with ⟨rfl, rfl⟩ | ⟨-, hp⟩
      · rwa [loadBytes_length]
      · exact (hkeep hp).1
    · intro p bs hp
      rcases Allocator.update_some_cases hp with ⟨rfl, rfl⟩ | ⟨-, hp⟩
      · rw [loadBytes_length]
      · exact (hkeep hp).2

theorem LibcHolds.free (h₀ : 0 < heap) (h₁ : heap + heapSize < 4294967296)
    (h : LibcHolds heap H s m) (hp : H p = some bs) :
    LibcHolds heap (Function.update H p none) ((libcAllocator heap).free p s m).1
      ((libcAllocator heap).free p s m).2 := by
  obtain ⟨live, hinv, hlive⟩ := h.inv
  have hop : LibcAllowed (.free p) ⟨s.heap m, live⟩ := Or.inr ((hlive p).mpr (by simp [hp]))
  obtain ⟨o, t, hstep, hinv', -, -⟩ := libcStep_inv h₀ h₁ hinv _ hop
  have hkeep := fun {q cs} (hq : H q = some cs) (hqp : q ≠ p) =>
    h.step h₀ h₁ hinv hlive hop (by simp) hstep hq (by simpa using hqp.symm)
  obtain ⟨st', he, hr⟩ := Option.map_eq_some_iff.mp hstep
  obtain ⟨-, rfl⟩ := Prod.mk.inj hr
  have hcall : (libcAllocator heap).free p s m = (st'.statics, st'.mem) := by
    simp only [libcAllocator, he]
  rw [hcall]
  refine ⟨⟨live.erase p, hinv', ?_⟩, ?_, ?_⟩
  · intro q
    by_cases hqp : q = p
    · subst hqp
      rw [Function.update_self]
      simp
    · rw [Function.update_of_ne hqp, Finset.mem_erase, and_iff_right hqp]
      exact hlive q
  · intro q cs hq
    obtain ⟨hqp, hq⟩ := Allocator.update_none_cases hq
    exact (hkeep hq hqp).1
  · intro q cs hq
    obtain ⟨hqp, hq⟩ := Allocator.update_none_cases hq
    exact (hkeep hq hqp).2

theorem LibcHolds.store (h : LibcHolds heap H s m) (hp : H p = some bs)
    (hlen : data.length = bs.length) :
    LibcHolds heap (Function.update H p (some data)) s (storeBytes m p data) := by
  obtain ⟨live, hinv, hlive⟩ := h.inv
  have hpl : p ∈ live := (hlive p).mpr (by simp [hp])
  have hfit := h.fits p bs hp
  obtain ⟨hinit, htiled⟩ := hinv.tiled hpl
  obtain ⟨bs', hrepr, hfirst, hsegs⟩ := htiled
  obtain ⟨c, hc, -, rfl, hsize⟩ := LibcTiled.segment hrepr hsegs hpl
  change LibcRepr heap m bs' at hrepr
  change blockSize m (c.addr + 12 - memoryBlockSize) = c.size at hsize
  have hrepr' : LibcRepr heap (storeBytes m (c.addr + 12) data) bs' := by
    refine hrepr.payload hc ?_
    intro x hx
    exact storeBytes_of_disjoint (by omega)
  have htiled' : LibcTiled heap ⟨s.heap (storeBytes m (c.addr + 12) data), live⟩ :=
    ⟨bs', hrepr', hfirst, hsegs⟩
  -- the headers are as they were
  have hheader : ∀ q ∈ live, blockSize (storeBytes m (c.addr + 12) data) (q - memoryBlockSize)
      = blockSize m (q - memoryBlockSize) := by
    intro q hq
    obtain ⟨d, hd, -, rfl⟩ := (hsegs q).mp hq
    rw [memoryBlockSize, Nat.add_sub_cancel, hrepr'.size_eq hd, hrepr.size_eq hd]
  refine ⟨⟨live, htiled'.inv hinit, ?_⟩, ?_, ?_⟩
  · intro q
    by_cases hq : q = c.addr + 12
    · subst hq
      rw [Function.update_self]
      simp [hpl]
    · rw [Function.update_of_ne hq]
      exact hlive q
  · intro q cs hq
    rcases Allocator.update_some_cases hq with ⟨rfl, rfl⟩ | ⟨-, hq⟩
    · rw [hheader _ hpl, hlen]
      exact hfit
    · rw [hheader q ((hlive q).mpr (by simp [hq]))]
      exact h.fits q cs hq
  · intro q cs hq
    rcases Allocator.update_some_cases hq with ⟨rfl, rfl⟩ | ⟨hqp, hq⟩
    · rw [loadBytes_storeBytes _ _ _ _ (Nat.le_refl _), List.take_length]
    · have hfit' := h.fits q cs hq
      have happart := LibcTiled.disjoint ⟨bs', hrepr, hfirst, hsegs⟩
        ((hlive q).mpr (by simp [hq])) hpl hqp
      have hsame : loadBytes (storeBytes m (c.addr + 12) data) q cs.length
          = loadBytes m q cs.length := by
        refine loadBytes_congr ?_
        intro x hx hx'
        refine storeBytes_of_disjoint ?_
        rw [hlen]
        change q + blockSize m (q - memoryBlockSize) ≤ _ ∨ _ + blockSize m _ ≤ _ at happart
        omega
      rw [hsame, h.contents q cs hq]

/-- **The libc heap serves** a client whose requests can be rounded up. -/
theorem libcAllocator_serves (h₀ : 0 < heap) (h₁ : heap + heapSize < 4294967296) :
    (Allocator.limited libcMaxSize (libcAllocator heap)).Serves (LibcHolds heap) where
  malloc_zero := by
    intro H n s m hH hz
    rw [Allocator.limited] at hz ⊢
    dsimp only at hz ⊢
    split
    · rename_i hn
      rw [if_pos hn] at hz
      rcases hH.malloc h₀ h₁ hn with ⟨-, h⟩ | ⟨hne, -⟩
      · exact h
      · exact absurd hz hne
    · exact hH
  malloc_block := by
    intro H n s m hH hne
    rw [Allocator.limited] at hne ⊢
    dsimp only at hne ⊢
    split
    · rename_i hn
      rw [if_pos hn] at hne
      rcases hH.malloc h₀ h₁ hn with ⟨hz, -⟩ | ⟨-, h⟩
      · exact absurd hz hne
      · exact h
    · rename_i hn
      rw [if_neg hn] at hne
      exact absurd rfl hne
  free := fun _ _ _ _ _ hH hp => hH.free h₀ h₁ hp
  store := fun _ _ _ _ _ _ hH hp hlen => hH.store hp hlen

/-- What is held lies apart and has its contents; no block is larger than the array. -/
theorem LibcHolds.holds (h : LibcHolds heap H s m) :
    Allocator.Holds (fun (_ : LibcStatics) _ => some heapSize) H s m where
  pos := by
    intro p bs hp
    obtain ⟨live, hinv, hlive⟩ := h.inv
    exact hinv.ne_zero ((hlive p).mpr (by simp [hp]))
  live := by
    intro p bs hp
    obtain ⟨live, hinv, hlive⟩ := h.inv
    have hpl := (hlive p).mpr (by simp [hp])
    have hfit := h.fits p bs hp
    have hin := (hinv.tiled hpl).2.inside hpl
    change heap ≤ p ∧ p + blockSize m (p - memoryBlockSize) ≤ _ at hin
    exact ⟨heapSize, rfl, by omega⟩
  apart := by
    intro p q bs cs hp hq hpq
    obtain ⟨live, hinv, hlive⟩ := h.inv
    have hpl := (hlive p).mpr (by simp [hp])
    have hql := (hlive q).mpr (by simp [hq])
    have hp' := h.fits p bs hp
    have hq' := h.fits q cs hq
    have happart := (hinv.tiled hpl).2.disjoint hpl hql hpq
    change p + blockSize m (p - memoryBlockSize) ≤ q ∨ q + blockSize m _ ≤ p at happart
    omega
  contents := h.contents

end Serves

end AceOS.Libc
