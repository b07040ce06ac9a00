import AceOS.Kernel.HeapCoalesce

/-!
# `heap_realloc`

To grow a block, `heap_realloc` allocates a new one, copies as many bytes as the old header
says after that, and frees the old one.  If no free block fits the new size with less than a
header to spare, the steps do not meet (`heapRealloc_roomy`).  Otherwise `split_block` has
written a header over the block after the one it took (`heapRealloc_overlap`).
-/

namespace AceOS.Kernel

open Memory Libc Segments

variable {st st' : HeapState} {bs xs ys : List Seg} {b c : Seg} {n q : Nat}

/-! ### Rounded sizes -/

theorem memoryAlignUp_eight {n : Nat} (hn : n < 4294967296) :
    memoryAlignUp n 8 = (n + 7) / 8 * 8 % 4294967296 := by
  rw [memoryAlignUp, if_neg (by decide)]
  dsimp only
  split
  · omega
  · rw [add32]
    omega

theorem roundSize_eq {n : Nat} (hn : n < 4294967296) :
    roundSize n = max 32 ((n + 7) / 8 * 8 % 4294967296) := by
  simp only [roundSize, memoryAlignUp_eight hn, minAllocSize]
  split <;> omega

theorem roundSize_roundSize (hn : n < 4294967296) : roundSize (roundSize n) = roundSize n := by
  have h := roundSize_eq hn
  rw [roundSize_eq (n := roundSize n) (by omega)]
  omega

theorem roundSize_bounds (hn : n < 4294967296) : 32 ≤ roundSize n ∧ roundSize n ≤ 0xFFFFFFF8 := by
  have h := roundSize_eq hn
  omega

/-! ### The two ways of a reallocation -/

theorem heapRealloc_of_used (h : HeapRepr st bs) (hb : b ∈ bs) (hbf : b.free = false)
    (hn0 : n ≠ 0) : heapRealloc (b.addr + 20) n st
      = if roundSize n ≤ b.size then some (b.addr + 20, st)
        else (heapMalloc (roundSize n) st).map fun r =>
          if r.1 = 0 then (0, r.2)
          else (r.1, heapFree (b.addr + 20) { r.2 with
            mem := memcpy r.2.mem r.1 (b.addr + 20) (blkSize r.2.mem b.addr) }) := by
  have hmagic := h.magic_eq hb
  rw [hbf, if_neg Bool.false_ne_true] at hmagic
  rw [heapRealloc, if_neg (by omega), if_neg hn0, h.sub32_payload hb]
  dsimp only
  rw [if_neg (not_not.mpr hmagic), h.size_eq hb]
  split
  · rfl
  · cases hm : heapMalloc (roundSize n) st with
    | none => rfl
    | some r =>
        obtain ⟨q, st₁⟩ := r
        dsimp only [Option.map_some]
        split <;> rfl

/-- Block `c` is what `heap_realloc` of block `b` to `n` bytes may return. -/
structure Moved (st : HeapState) (bs : List Seg) (b : Seg) (n : Nat) (st' : HeapState)
    (bs' : List Seg) (c : Seg) : Prop where
  inv : HeapInv st' bs'
  mem : c ∈ bs'
  live : c.free = false
  /-- The length of the copy is read after `heap_malloc`. -/
  copied : c.addr ≠ b.addr → ∀ st₁, heapMalloc (roundSize n) st = some (c.addr + 20, st₁) →
    blkSize st₁.mem b.addr ≤ c.size
  contents : ∀ k < min b.size n, st'.mem (c.addr + 20 + k) = st.mem (b.addr + 20 + k)
  kept : ∀ e ∈ bs, e.free = false → e ≠ b → e ∈ bs' ∧
    ∀ x, e.addr + 20 ≤ x → x < e.addr + 20 + e.size → st'.mem x = st.mem x
  released : c.addr ≠ b.addr → ∃ f ∈ bs', f.free = true ∧ f.addr ≤ b.addr ∧
    b.addr + 20 + b.size ≤ f.addr + 20 + f.size

/-- `heap_realloc` of block `b` to `n` bytes changes nothing or moves the block. -/
def Reallocates (st : HeapState) (bs : List Seg) (b : Seg) (n : Nat) : Prop :=
  ∃ q st', heapRealloc (b.addr + 20) n st = some (q, st') ∧
    ((q = 0 ∧ st' = st) ∨ ∃ bs' c, q = c.addr + 20 ∧ Moved st bs b n st' bs' c)

theorem heapRealloc_inPlace (h : HeapInv st bs) (hb : b ∈ bs) (hbf : b.free = false)
    (hn0 : n ≠ 0) (hfits : roundSize n ≤ b.size) : Reallocates st bs b n := by
  refine ⟨b.addr + 20, st, ?_, Or.inr ⟨bs, b, rfl, ?_⟩⟩
  · rw [heapRealloc_of_used h.toHeapRepr hb hbf hn0, if_pos hfits]
  · exact
      { inv := h
        mem := hb
        live := hbf
        copied := fun hne => absurd rfl hne
        contents := fun _ _ => rfl
        kept := fun e he _ _ => ⟨he, fun _ _ _ => rfl⟩
        released := fun hne => absurd rfl hne }

/-- **A block grows** on a heap with room for the header of what is left. -/
theorem heapRealloc_roomy (h : HeapInv st bs) (hb : b ∈ bs) (hbf : b.free = false)
    (hn0 : n ≠ 0) (hn : n < 4294967296) (hgrow : b.size < roundSize n) (hroomy : Roomy st n) :
    heapRealloc (b.addr + 20) n st = some (0, st) ∨
      ∃ st' bs' c, heapRealloc (b.addr + 20) n st = some (c.addr + 20, st') ∧
        Moved st bs b n st' bs' c ∧ roundSize n ≤ c.size := by
  have hround := roundSize_bounds hn
  have hroomy' : Roomy st (roundSize n) := by
    rw [Roomy, roundSize_roundSize hn]
    exact hroomy
  rw [heapRealloc_of_used h.toHeapRepr hb hbf hn0, if_neg (by omega)]
  rcases heapMalloc_spec h hround.2 (Or.inr hroomy') with he |
    ⟨c, st₁, bs₁, he, h₁, -, -, hcf, hsize, hnew, hmem, hkeep⟩
  · rw [he]
    exact Or.inl rfl
  right
  have hc₁ : c ∈ bs₁ := (hmem c hcf).mpr (Or.inl rfl)
  have hb₁ : b ∈ bs₁ := (hmem b hbf).mpr (Or.inr hb)
  have hcb : c ≠ b := by
    rintro rfl
    omega
  have hlen : blkSize st₁.mem b.addr = b.size := h₁.size_eq hb₁
  have hapart := h₁.tiles.apart hc₁ hb₁ hcb
  -- the copy fills the payload of the new block
  have hcopy : ∀ x, x < c.addr + 20 ∨ c.addr + 20 + b.size ≤ x →
      memcpy st₁.mem (c.addr + 20) (b.addr + 20) b.size x = st₁.mem x :=
    fun x hx => memcpy_of_outside hx
  have h₂ := h₁.writePayload hc₁ (m := memcpy st₁.mem (c.addr + 20) (b.addr + 20) b.size)
    (fun x hx => hcopy x (by omega))
  obtain ⟨xs, f, ys, h₃, -, -, ⟨hff, hle, hend⟩, hmem₃, -, hout⟩ := heapFree_spec h₂ hb₁ hbf
  rw [he, Option.map_some, if_neg (by omega), hlen]
  refine ⟨_, xs ++ f :: ys, c, rfl, ?_, hsize⟩
  have hpayload : ∀ e ∈ bs₁, ∀ x, e.addr + 20 ≤ x → x < e.addr + 20 + e.size →
      (heapFree (b.addr + 20) { st₁ with
        mem := memcpy st₁.mem (c.addr + 20) (b.addr + 20) b.size }).mem x
        = memcpy st₁.mem (c.addr + 20) (b.addr + 20) b.size x :=
    fun e hmem' x hx hx' => hout x (h₂.outsideHeaders hmem' hx hx')
  exact
    { inv := h₃
      mem := (hmem₃ c hcf).mpr ⟨hc₁, hcb⟩
      live := hcf
      copied := by
        intro _ st₂ he₂
        rw [he, Option.some.injEq, Prod.mk.injEq] at he₂
        rw [← he₂.2, hlen]
        omega
      contents := by
        intro k hk
        have hk' : k < b.size := by omega
        rw [hpayload c hc₁ _ (by omega) (by omega), memcpy_eq_storeBytes (by omega),
          storeBytes_apply (by simpa using hk')]
        simp only [loadBytes, List.getElem_map, List.getElem_range]
        exact hkeep b hb hbf _ (by omega) (by omega)
      kept := by
        intro e he' hef heb
        have he₁ : e ∈ bs₁ := (hmem e hef).mpr (Or.inr he')
        refine ⟨(hmem₃ e hef).mpr ⟨he₁, heb⟩, ?_⟩
        intro x hx hx'
        have hec : e ≠ c := by
          rintro rfl
          exact hnew he'
        have hd := h₁.tiles.apart he₁ hc₁ hec
        rw [hpayload e he₁ x hx hx', hcopy x (by omega)]
        exact hkeep e he' hef x hx hx'
      released := fun _ => ⟨f, by simp, hff, hle, by omega⟩ }

/-! ### A split with too little room -/

/-- **`split_block` underflows** on a block with less than a header to spare: a header is
written right after the payload, whatever is there. -/
theorem takeBlock_overlap (h : HeapRepr st (xs ++ c :: ys)) {size : Nat} (hfit : size ≤ c.size)
    (hspare : c.size < size + 20) :
    (blkSize (takeBlock c.addr size st).mem c.addr = size ∧
      blkFree (takeBlock c.addr size st).mem c.addr = 0 ∧
      blkMagic (takeBlock c.addr size st).mem c.addr = heapMagicAllocated ∧
      blkNext (takeBlock c.addr size st).mem c.addr = c.addr + 20 + size) ∧
    blkSize (takeBlock c.addr size st).mem (c.addr + 20 + size) = 4294967276 + c.size - size ∧
      blkFree (takeBlock c.addr size st).mem (c.addr + 20 + size) = 1 := by
  obtain ⟨hpos, hlt⟩ := h.bounds (b := c) (by simp)
  have hsize := h.size_eq (b := c) (by simp)
  have hrem : sub32 (sub32 (blkSize st.mem c.addr) size) heapBlockSize
      = 4294967276 + c.size - size := by
    rw [hsize, heapBlockSize, sub32_of_le (a := c.size) (b := size) (by omega) (by omega), sub32]
    omega
  have hnew : add32 (add32 c.addr heapBlockSize) size = c.addr + 20 + size := by
    rw [heapBlockSize, add32_of_lt (a := c.addr) (b := 20) (by omega), add32_of_lt (by omega)]
  have hnext := h.headAddr_after
  have hblk : (header st.mem c.addr).next = headAddr ys 0 := h.next_eq
  have hbig : minAllocSize ≤ 4294967276 + c.size - size := by
    rw [minAllocSize]
    omega
  simp only [takeBlock, splitBlock, hrem, hnew, if_pos hbig]
  simp (disch := omega) only [← header_next, header_setBlkSize_apart, header_setBlkFree_apart,
    header_setBlkMagic_apart, header_setBlkNext_apart, header_setBlkPrev_apart, hblk]
  refine ⟨?_, ?_⟩
  · show (header _ _).size = size ∧ (header _ _).free = 0 ∧
      (header _ _).magic = heapMagicAllocated ∧ (header _ _).next = c.addr + 20 + size
    simp (disch := omega) only [header_setBlkMagic_self, header_setBlkFree_self,
      header_setBlkSize_self, header_setBlkNext_self, heapMagicAllocated, and_self]
  · -- the link back of the next block lies behind the two words
    have hrelink : ∀ (m : Mem) k, k ≤ 4 →
        load32 (if headAddr ys 0 ≠ 0 then setBlkPrev m (headAddr ys 0) (c.addr + 20 + size) else m)
          (c.addr + 20 + size + k) = load32 m (c.addr + 20 + size + k) := by
      intro m k hk
      refine load32_congr fun x h₁ h₂ => relink_outside ?_
      omega
    have hword := fun m => hrelink m 0 (by decide)
    simp only [Nat.add_zero] at hword
    simp only [blkSize, blkFree, setBlkSize, setBlkFree, setBlkMagic, setBlkNext]
    simp (disch := omega) only [load32_store32_of_disjoint, hword, hrelink _ 4 (by decide)]
    simp (disch := omega) only [setBlkPrev, load32_store32_of_disjoint, load32_store32, and_true]

/-! ### A release where other headers are overwritten -/

theorem HeapRepr.outside_header (h : HeapRepr st bs) (hc : c ∈ bs) {x : Nat} (h₁ : c.addr ≤ x)
    (h₂ : x < c.addr + 20) {a : Seg} (ha : a ∈ bs) (hac : a ≠ c) :
    x < a.addr ∨ a.addr + 20 ≤ x := by
  rcases h.tiles.apart ha hc hac with hd | hd <;> omega

theorem HeapRepr.outside_links (h : HeapRepr st bs) (hc : c ∈ bs) {x : Nat} (h₁ : c.addr ≤ x)
    (h₂ : x < c.addr + 16) : ∀ g ∈ bs, x < g.addr + 16 ∨ g.addr + 20 ≤ x := by
  intro g hg
  by_cases hgc : g = c
  · subst hgc
    omega
  · have := h.outside_header hc h₁ (by omega) hg hgc
    omega

theorem absorbBlock_next {a b : Nat} (hab : a + 20 ≤ b ∨ b + 20 ≤ a)
    (hnext : blkNext st.mem b = 0 ∨ a + 20 ≤ blkNext st.mem b ∨ blkNext st.mem b + 20 ≤ a) :
    blkNext (absorbBlock a b st).mem a = blkNext st.mem b := by
  have hlt : (header st.mem b).next < 4294967296 := load32_lt ..
  rw [← header_next] at hnext
  simp only [absorbBlock, ← header_next, header_setBlkSize_apart hab, header_setBlkNext_apart hab]
  rw [header_relink_apart (hnext.imp id Or.symm), header_setBlkNext_self hlt]

theorem mergeNext_local (h : HeapRepr st bs) (hb : b ∈ bs) {s : HeapState}
    (hlink : blkNext s.mem b.addr = blkNext st.mem b.addr)
    (hnext : ∀ d ∈ bs, d.addr = blkNext st.mem b.addr → blkFree s.mem d.addr ≠ 0 →
      header s.mem d.addr = header st.mem d.addr) :
    (∀ x, (x < b.addr ∨ b.addr + 4 ≤ x ∧ x < b.addr + 12 ∨ b.addr + 16 ≤ x) →
      (∀ g ∈ bs, g ≠ b → x < g.addr + 16 ∨ g.addr + 20 ≤ x) →
      (mergeNext b.addr s).mem x = s.mem x) ∧
    (blkNext (mergeNext b.addr s).mem b.addr = 0 ∨
      ∃ g ∈ bs, g ≠ b ∧ g.addr = blkNext (mergeNext b.addr s).mem b.addr) := by
  have hsucc : ∀ d ∈ bs, blkNext st.mem d.addr = 0 ∨
      ∃ g ∈ bs, g.addr = blkNext st.mem d.addr ∧ d.addr + 20 + d.size = g.addr :=
    fun d hd => h.next_mem hd
  rw [mergeNext, hlink]
  split
  case isFalse =>
    refine ⟨fun _ _ _ => rfl, ?_⟩
    rw [hlink]
    rcases hsucc b hb with hz | ⟨d, hd, he, hbd⟩
    · exact Or.inl hz
    · refine Or.inr ⟨d, hd, ?_, he⟩
      rintro rfl
      omega
  case isTrue hmerge =>
    obtain ⟨d, hd, he, hbd⟩ := (hsucc b hb).resolve_left hmerge.1
    rw [← he] at hmerge ⊢
    have hhead := hnext d hd he hmerge.2
    have hlink' : blkNext s.mem d.addr = blkNext st.mem d.addr := congrArg Header.next hhead
    have hafter : blkNext s.mem d.addr = 0 ∨
        ∃ g ∈ bs, g ≠ b ∧ g.addr = blkNext s.mem d.addr ∧ b.addr + 20 ≤ g.addr := by
      rw [hlink']
      rcases hsucc d hd with hz | ⟨g, hg, he', hdg⟩
      · exact Or.inl hz
      · refine Or.inr ⟨g, hg, ?_, he', by omega⟩
        rintro rfl
        omega
    constructor
    · intro x hx hxg
      refine absorbBlock_outside (by omega) hx ?_
      rcases hafter with hz | ⟨g, hg, hgb, he', -⟩
      · exact Or.inl hz
      · have := hxg g hg hgb
        omega
    · rw [absorbBlock_next (by omega) (by
        rcases hafter with hz | ⟨g, -, -, he', hbg⟩
        · exact Or.inl hz
        · omega)]
      rcases hafter with hz | ⟨g, hg, hgb, he', -⟩
      · exact Or.inl hz
      · exact Or.inr ⟨g, hg, hgb, he'⟩

/-- **A release** that finds its own header and the one after it writes into its own header,
into the one before it and into links back. -/
theorem heapFree_local (h : HeapRepr st bs) (hb : b ∈ bs) (hbf : b.free = false) {s : HeapState}
    (hinit : s.initialized = true) (hself : header s.mem b.addr = header st.mem b.addr)
    (hnext : ∀ d ∈ bs, d.addr = blkNext st.mem b.addr → blkFree s.mem d.addr ≠ 0 →
      header s.mem d.addr = header st.mem d.addr) {x : Nat}
    (hxb : x < b.addr ∨ b.addr + 20 ≤ x) (hxg : ∀ g ∈ bs, x < g.addr + 16 ∨ g.addr + 20 ≤ x)
    (hxa : ∀ a ∈ bs, a.addr = blkPrev st.mem b.addr → blkFree s.mem a.addr ≠ 0 →
      x < a.addr ∨ a.addr + 4 ≤ x ∧ x < a.addr + 12 ∨ a.addr + 16 ≤ x) :
    (heapFree (b.addr + 20) s).mem x = s.mem x := by
  have hmagic : blkMagic s.mem b.addr = heapMagicAllocated := by
    have hm := h.magic_eq hb
    rw [hbf, if_neg Bool.false_ne_true] at hm
    exact (congrArg Header.magic hself).trans hm
  have hfree : heapFree (b.addr + 20) s
      = mergePrev b.addr (mergeNext b.addr (releaseBlock b.addr s)) := by
    rw [heapFree_of_magic hinit (by omega) (by rw [h.sub32_payload hb, hmagic]),
      h.sub32_payload hb, mergeFreeBlocks]
  -- the block is marked free
  have hout₁ : ∀ y, (y < b.addr ∨ b.addr + 20 ≤ y) → (releaseBlock b.addr s).mem y = s.mem y :=
    fun y hy => releaseBlock_outside hy
  have hself₁ : header (releaseBlock b.addr s).mem b.addr
      = { header s.mem b.addr with free := 1, magic := heapMagicFree } := by
    show header (setBlkMagic (setBlkFree s.mem b.addr 1) b.addr heapMagicFree) b.addr = _
    rw [header_setBlkMagic_self (by decide), header_setBlkFree_self (by decide)]
  have hother₁ : ∀ d ∈ bs, d ≠ b →
      header (releaseBlock b.addr s).mem d.addr = header s.mem d.addr :=
    fun d hd hdb => header_congr fun y h₁ h₂ => hout₁ y (h.outside_header hd h₁ h₂ hb hdb.symm)
  have hne : ∀ d ∈ bs, d.addr = blkNext st.mem b.addr → d ≠ b := by
    intro d hd hde
    rintro rfl
    rcases h.next_mem hd with hz | ⟨g, -, he, hlt⟩
    · have := (h.bounds hd).1
      omega
    · omega
  have hprevlink : blkPrev (releaseBlock b.addr s).mem b.addr = blkPrev st.mem b.addr := by
    show (header (releaseBlock b.addr s).mem b.addr).prev = _
    rw [hself₁, hself]
    rfl
  obtain ⟨hout₂, hlink₂⟩ := mergeNext_local h hb (s := releaseBlock b.addr s)
    (by
      show (header (releaseBlock b.addr s).mem b.addr).next = _
      rw [hself₁, hself]
      rfl)
    (by
      intro d hd hde hfree
      have hd₁ := hother₁ d hd (hne d hd hde)
      rw [hd₁]
      refine hnext d hd hde ?_
      rwa [← show blkFree (releaseBlock b.addr s).mem d.addr = blkFree s.mem d.addr from
        congrArg Header.free hd₁])
  have hbytes : ∀ y, (y < b.addr ∨ b.addr + 20 ≤ y) →
      (∀ g ∈ bs, y < g.addr + 16 ∨ g.addr + 20 ≤ y) →
      (mergeNext b.addr (releaseBlock b.addr s)).mem y = s.mem y := by
    intro y hy hyg
    rw [hout₂ y (by omega) (fun g hg _ => hyg g hg), hout₁ y hy]
  have hprev₂ : blkPrev (mergeNext b.addr (releaseBlock b.addr s)).mem b.addr
      = blkPrev st.mem b.addr := by
    rw [← hprevlink]
    refine load32_congr fun y h₁ h₂ => hout₂ y (by omega) ?_
    intro g hg hgb
    have := h.outside_header hb (x := y) (by omega) (by omega) hg hgb
    omega
  rw [hfree, mergePrev, hprev₂]
  split
  case isFalse => exact hbytes x hxb hxg
  case isTrue hmerge =>
    obtain ⟨a, ha, he, hab⟩ := (h.prev_mem hb).resolve_left hmerge.1
    rw [← he] at hmerge ⊢
    have hfree₂ : blkFree (mergeNext b.addr (releaseBlock b.addr s)).mem a.addr
        = blkFree s.mem a.addr :=
      load32_congr fun y h₁ h₂ =>
        hbytes y (by omega) (h.outside_links ha (by omega) (by omega))
    rw [absorbBlock_outside (by omega) (hxa a ha he (hfree₂ ▸ hmerge.2)) (by
      rcases hlink₂ with hz | ⟨g, hg, -, he'⟩
      · exact Or.inl hz
      · have := hxg g hg
        omega)]
    exact hbytes x hxb hxg

/-! ### A reallocation with too little room -/

theorem HeapRepr.far_after (h : HeapRepr st bs) (hc : c ∈ bs) {d : Seg} (hd : d ∈ bs)
    (hlt : c.addr < d.addr) (hne : d.addr ≠ c.addr + 20 + c.size) :
    c.addr + 40 + c.size ≤ d.addr := by
  obtain ⟨xs, ys, rfl⟩ := List.append_of_mem hc
  rcases List.mem_append.mp hd with hx | hy
  · have := h.before d hx
    omega
  · rcases List.mem_cons.mp hy with rfl | hy
    · omega
    · cases ys with
      | nil => exact absurd hy (by simp)
      | cons e ys =>
          obtain ⟨he, htail⟩ := h.tiles.around.2
          rcases List.mem_cons.mp hy with rfl | hy
          · exact absurd he hne
          · have := (htail.bounds hy).1
            omega

theorem takeBlock_initialized (b size : Nat) (st : HeapState) :
    (takeBlock b size st).initialized = st.initialized := by
  simp only [takeBlock, splitBlock]
  split <;> rfl

theorem takeBlock_intact (h : HeapRepr st bs) (hc : c ∈ bs) {size : Nat} (hfit : size ≤ c.size)
    {d : Seg} (hd : d ∈ bs) (hdc : d ≠ c) (hne : d.addr ≠ c.addr + 20 + c.size) :
    header (takeBlock c.addr size st).mem d.addr = header st.mem d.addr := by
  have hbounds := h.bounds hc
  have hap := h.tiles.apart hd hc hdc
  refine header_congr fun x h₁ h₂ => takeBlock_outside (by omega) (by omega) ?_ ?_
  · by_cases hlt : c.addr < d.addr
    · have := h.far_after hc hd hlt hne
      omega
    · omega
  · rcases h.next_mem hc with hz | ⟨e, he, hnext, hce⟩
    · exact Or.inl hz
    · have hed : e ≠ d := by
        rintro rfl
        omega
      rcases h.tiles.apart he hd hed with hap | hap <;> omega

theorem heapMalloc_of_fit_rounded (h : HeapRepr st bs) (hc : c ∈ bs) (hn : n < 4294967296)
    (hfit : findBestFit (roundSize n) st = some c.addr) :
    heapMalloc (roundSize n) st = some (c.addr + 20, takeBlock c.addr (roundSize n) st) := by
  have hround := roundSize_bounds hn
  have hm := heapMalloc_of_fit h hc (n := roundSize n) (by omega)
  rw [roundSize_roundSize hn] at hm
  exact hm hfit

/-- The release of `b` when the header after `c` is overwritten and `c` is in use.  It leaves
the words of `c` alone, and of every other block the two words after its size. -/
theorem heapFree_beside (h : HeapRepr st bs) (hb : b ∈ bs) (hbf : b.free = false) (hc : c ∈ bs)
    (hcb : c ≠ b) (hown : c.addr + 20 + c.size ≠ b.addr) {s : HeapState}
    (hinit : s.initialized = true)
    (hintact : ∀ d ∈ bs, d ≠ c → d.addr ≠ c.addr + 20 + c.size →
      header s.mem d.addr = header st.mem d.addr)
    (hused : blkFree s.mem c.addr = 0) {d : Seg} (hd : d ∈ bs) (hdb : d ≠ b) {x : Nat}
    (h₁ : d.addr ≤ x) (h₂ : x < d.addr + 16) (hpart : d = c ∨ d.addr + 4 ≤ x ∧ x < d.addr + 12) :
    (heapFree (b.addr + 20) s).mem x = s.mem x := by
  have hap := h.tiles.apart hc hb hcb
  refine heapFree_local h hb hbf hinit (hintact b hb hcb.symm hown.symm) ?_
    (h.outside_header hd h₁ (by omega) hb hdb.symm) (h.outside_links hd h₁ h₂) ?_
  · intro e he hee hef
    refine hintact e he ?_ ?_
    · rintro rfl
      exact hef hused
    · rcases h.next_mem hb with hz | ⟨g, -, hge, hbg⟩
      · have := (h.bounds he).1
        omega
      · omega
  · intro a ha _ haf
    by_cases had : a = d
    · subst had
      rcases hpart with rfl | hmid
      · exact absurd hused haf
      · exact Or.inr (Or.inl hmid)
    · have := h.outside_header hd h₁ (by omega) ha had
      omega

/-- **A block grows into one with too little room.**  If that one is not right before the block
itself, it is returned with the size asked for, and the header of the block after it is gone. -/
theorem heapRealloc_overlap (h : HeapInv st bs) (hb : b ∈ bs) (hbf : b.free = false)
    (hn0 : n ≠ 0) (hn : n < 4294967296) (hgrow : b.size < roundSize n) (hc : c ∈ bs)
    (hcf : c.free = true) (hfit : findBestFit (roundSize n) st = some c.addr)
    (hle : roundSize n ≤ c.size) (hspare : c.size < roundSize n + 20)
    (hown : c.addr + 20 + c.size ≠ b.addr) :
    ∃ st', heapRealloc (b.addr + 20) n st = some (c.addr + 20, st') ∧
      st'.mgr.heapEnd = st.mgr.heapEnd ∧
      (blkSize st'.mem c.addr = roundSize n ∧ blkFree st'.mem c.addr = 0 ∧
        blkMagic st'.mem c.addr = heapMagicAllocated ∧
        blkNext st'.mem c.addr = c.addr + 20 + roundSize n) ∧
      (c.size = roundSize n → ∀ e ∈ bs, e.addr = c.addr + 20 + c.size →
        blkFree st'.mem e.addr = 1) := by
  have hcb : c ≠ b := by
    rintro rfl
    rw [hbf] at hcf
    exact absurd hcf (by decide)
  have hap := h.tiles.apart hc hb hcb
  have hmalloc := heapMalloc_of_fit_rounded h.toHeapRepr hc hn hfit
  obtain ⟨xs, ys, hbs⟩ := List.append_of_mem hc
  obtain ⟨⟨hsize, hfree, hmagic, hlink⟩, -, hnew⟩ :=
    takeBlock_overlap (hbs ▸ h.toHeapRepr) hle hspare
  have hinit := (takeBlock_initialized c.addr (roundSize n) st).trans h.initialized
  have hregion := (takeBlock_region c.addr (roundSize n) st).2
  have hintact : ∀ d ∈ bs, d ≠ c → d.addr ≠ c.addr + 20 + c.size →
      header (takeBlock c.addr (roundSize n) st).mem d.addr = header st.mem d.addr :=
    fun d hd hdc hne => takeBlock_intact h.toHeapRepr hc hle hd hdc hne
  have hlen : blkSize (takeBlock c.addr (roundSize n) st).mem b.addr = b.size :=
    (congrArg Header.size (hintact b hb hcb.symm hown.symm)).trans (h.size_eq hb)
  rw [heapRealloc_of_used h.toHeapRepr hb hbf hn0, if_neg (by omega), hmalloc, Option.map_some,
    if_neg (by omega), hlen]
  generalize takeBlock c.addr (roundSize n) st = st₁ at *
  -- the copy stays in the new block
  obtain ⟨s₂, hs₂⟩ : ∃ s₂ : HeapState,
      s₂ = { st₁ with mem := memcpy st₁.mem (c.addr + 20) (b.addr + 20) b.size } := ⟨_, rfl⟩
  have hcopy : ∀ x, x < c.addr + 20 ∨ c.addr + 20 + roundSize n ≤ x → s₂.mem x = st₁.mem x := by
    intro x hx
    rw [hs₂]
    exact memcpy_of_outside (by omega)
  have hinit₂ : s₂.initialized = true := by
    rw [hs₂]
    exact hinit
  rw [← hs₂]
  have hintact₂ : ∀ d ∈ bs, d ≠ c → d.addr ≠ c.addr + 20 + c.size →
      header s₂.mem d.addr = header st.mem d.addr := by
    intro d hd hdc hne
    rw [← hintact d hd hdc hne]
    refine header_congr fun x h₁ h₂ => hcopy x ?_
    rcases h.tiles.apart hd hc hdc with hdap | hdap <;> omega
  have hfree₂ : blkFree s₂.mem c.addr = 0 :=
    (load32_congr fun x h₁ h₂ => hcopy x (by omega)).trans hfree
  -- the release leaves the words of the new block alone
  have hword : ∀ k ≤ 12, load32 (heapFree (b.addr + 20) s₂).mem (c.addr + k)
      = load32 st₁.mem (c.addr + k) := by
    intro k hk
    refine load32_congr fun x h₁ h₂ => ?_
    rw [heapFree_beside h.toHeapRepr hb hbf hc hcb hown hinit₂ hintact₂ hfree₂ hc hcb (by omega)
      (by omega) (Or.inl rfl), hcopy x (by omega)]
  refine ⟨_, rfl, ?_, ⟨(hword 0 (by omega)).trans hsize, (hword 4 (by omega)).trans hfree,
    (hword 8 (by omega)).trans hmagic, (hword 12 (by omega)).trans hlink⟩, ?_⟩
  · rw [(heapFree_region _ _).2, hs₂]
    exact hregion
  · intro hs e he hce
    have heb : e ≠ b := by
      rintro rfl
      omega
    rw [← hnew, ← hs, ← hce]
    refine load32_congr fun x h₁ h₂ => ?_
    rw [heapFree_beside h.toHeapRepr hb hbf hc hcb hown hinit₂ hintact₂ hfree₂ he heb (by omega)
      (by omega) (Or.inr (by omega)), hcopy x (by omega)]

/-- The heap after that is not well formed with the blocks in use on it. -/
theorem not_reallocates_of_overlap (h : HeapInv st bs) (hb : b ∈ bs) (hbf : b.free = false)
    (hn0 : n ≠ 0) (hn : n < 4294967296) (hgrow : b.size < roundSize n) (hc : c ∈ bs)
    (hcf : c.free = true) (hfit : findBestFit (roundSize n) st = some c.addr)
    (hle : roundSize n ≤ c.size) (hspare : c.size < roundSize n + 20)
    (hown : c.addr + 20 + c.size ≠ b.addr) : ¬Reallocates st bs b n := by
  obtain ⟨st', he, hregion, ⟨hsize, -, -, hlink⟩, hexact⟩ :=
    heapRealloc_overlap h hb hbf hn0 hn hgrow hc hcf hfit hle hspare hown
  rintro ⟨q, st'', he', hcase⟩
  rw [he, Option.some.injEq, Prod.mk.injEq] at he'
  obtain ⟨rfl, rfl⟩ := he'
  rcases hcase with ⟨hq, -⟩ | ⟨bs', c', hq, hm⟩
  · omega
  have hcc : c'.addr = c.addr := by omega
  -- the block after the new one, by its header
  obtain ⟨g, hg, hge, -⟩ := (hm.inv.next_mem hm.mem).resolve_left (by rw [hcc, hlink]; omega)
  rw [hcc, hlink] at hge
  have hgend := (hm.inv.tiles.bounds hg).2
  rw [hregion] at hgend
  obtain ⟨xs, ys, rfl⟩ := List.append_of_mem hc
  have hused := ((coalesced_append_free hcf).mp h.coalesced).2.2
  have htail := h.tiles.around.2
  cases ys with
  | nil =>
      -- it would lie beyond the end of the heap
      rw [tiles_nil] at htail
      omega
  | cons e ys =>
      have hee : e.addr = c.addr + 20 + c.size := htail.1
      have hef : e.free = false := hused e rfl
      have heb : e ≠ b := by
        rintro rfl
        exact hown hee.symm
      have he' := (hm.kept e (by simp) hef heb).1
      by_cases hge' : g = e
      · subst hge'
        have hfree := hm.inv.free_eq he'
        rw [hef, hexact (by omega) g (by simp) hee] at hfree
        exact absurd hfree (by decide)
      · rcases hm.inv.tiles.apart hg he' hge' with hd | hd <;> omega

/-- An exact fit right before the block: the length of the copy is wrong. -/
theorem not_reallocates_of_exact (h : HeapInv st bs) (hb : b ∈ bs) (hbf : b.free = false)
    (hn0 : n ≠ 0) (hn : n < 4294967296) (hgrow : b.size < roundSize n) (hc : c ∈ bs)
    (hfit : findBestFit (roundSize n) st = some c.addr) (hexact : c.size = roundSize n)
    (hown : c.addr + 20 + c.size = b.addr) : ¬Reallocates st bs b n := by
  have hround := roundSize_bounds hn
  have hmalloc := heapMalloc_of_fit_rounded h.toHeapRepr hc hn hfit
  obtain ⟨xs, ys, hbs⟩ := List.append_of_mem hc
  have hsize := (takeBlock_overlap (hbs ▸ h.toHeapRepr) hexact.ge (by omega)).2.1
  rw [← hexact, hown, Nat.add_sub_cancel] at hsize
  rintro ⟨q, st', he, hcase⟩
  rw [heapRealloc_of_used h.toHeapRepr hb hbf hn0, if_neg (by omega), hmalloc, Option.map_some,
    if_neg (by omega), Option.some.injEq, Prod.mk.injEq] at he
  rcases hcase with ⟨hq, -⟩ | ⟨bs', c', hq, hm⟩
  · omega
  have hcc : c'.addr = c.addr := by omega
  have hcopied := hm.copied (by omega) (takeBlock c.addr (roundSize n) st) (by rw [hcc, hmalloc])
  rw [← hexact, hsize] at hcopied
  have := hm.inv.bounds hm.mem
  omega

/-! ### The condition -/

/-- The block found for the request is the one before `block`, with less than a header to spare. -/
def CrampedPrevious (block n : Nat) (st : HeapState) : Prop :=
  blkPrev st.mem block ≠ 0 ∧ findBestFit (roundSize n) st = some (blkPrev st.mem block) ∧
    blkSize st.mem (blkPrev st.mem block) < roundSize n + heapBlockSize

theorem cramped_of_not_roomy (h : HeapInv st bs) (hroomy : ¬Roomy st n) :
    ∃ c ∈ bs, c.free = true ∧ findBestFit (roundSize n) st = some c.addr ∧
      roundSize n ≤ c.size ∧ c.size < roundSize n + 20 := by
  rw [h.roomy_iff] at hroomy
  simp only [not_forall, not_not] at hroomy
  obtain ⟨a, ha, haf, hle, hlt⟩ := hroomy
  obtain ⟨r, hr, hcase⟩ := findBestFit_spec h.toHeapRepr (roundSize n)
  rcases hcase with ⟨-, hnone⟩ | ⟨c, hc, hcf, hfit, rfl, hmin⟩
  · have := hnone a ha haf
    omega
  · have := hmin a ha haf hle
    exact ⟨c, hc, hcf, hr, hfit, by omega⟩

theorem HeapRepr.prev_eq_of_adjacent (h : HeapRepr st bs) (hb : b ∈ bs) (hc : c ∈ bs)
    (hcb : c.addr + 20 + c.size = b.addr) : blkPrev st.mem b.addr = c.addr := by
  obtain ⟨xs, ys, rfl⟩ := List.append_of_mem hb
  obtain ⟨us, rfl⟩ :=
    List.getLast?_eq_some_iff.mp ((h.tiles.mem_getLast? (by decide)).mpr ⟨hc, hcb⟩)
  rw [h.prev_eq, lastAddr_concat]

theorem crampedPrevious_of_adjacent (h : HeapRepr st bs) (hb : b ∈ bs) (hc : c ∈ bs)
    (hcb : c.addr + 20 + c.size = b.addr) (hfit : findBestFit (roundSize n) st = some c.addr)
    (hspare : c.size < roundSize n + 20) : CrampedPrevious b.addr n st := by
  have hbounds := h.bounds hc
  rw [CrampedPrevious, h.prev_eq_of_adjacent hb hc hcb, h.size_eq hc]
  exact ⟨by omega, hfit, hspare⟩

/-- **`heap_realloc` keeps the contents** if the block is large enough or the heap has room, and
only then, except after a block with one to nineteen bytes to spare. -/
theorem heapRealloc_preserves (st : HeapState) (bs : List Seg) (h : HeapInv st bs) (b : Seg)
    (hb : b ∈ bs) (hbf : b.free = false) (n : Nat) (hn0 : 0 < n) (hn : n ≤ 0xFFFFFFF8) :
    ((roundSize n ≤ b.size ∨ Roomy st n) → Reallocates st bs b n) ∧
    (Reallocates st bs b n → (roundSize n ≤ b.size ∨ Roomy st n) ∨
      (CrampedPrevious b.addr n st ∧ blkSize st.mem (blkPrev st.mem b.addr) ≠ roundSize n)) := by
  constructor
  · intro hcond
    by_cases hfits : roundSize n ≤ b.size
    · exact heapRealloc_inPlace h hb hbf (by omega) hfits
    · rcases heapRealloc_roomy h hb hbf (by omega) (by omega) (by omega)
        (hcond.resolve_left hfits) with he | ⟨st', bs', c, he, hm, -⟩
      · exact ⟨0, st, he, Or.inl ⟨rfl, rfl⟩⟩
      · exact ⟨_, st', he, Or.inr ⟨bs', c, rfl, hm⟩⟩
  · intro hre
    by_contra hcon
    rw [not_or, not_or, Nat.not_le] at hcon
    obtain ⟨⟨hgrow, hroomy⟩, hcramped⟩ := hcon
    obtain ⟨c, hc, hcf, hfit, hle, hspare⟩ := cramped_of_not_roomy h hroomy
    by_cases hown : c.addr + 20 + c.size = b.addr
    · have hexact : c.size = roundSize n := by
        by_contra hne
        refine hcramped ⟨crampedPrevious_of_adjacent h.toHeapRepr hb hc hown hfit hspare, ?_⟩
        rw [h.prev_eq_of_adjacent hb hc hown, h.size_eq hc]
        exact hne
      exact not_reallocates_of_exact h hb hbf (by omega) (by omega) hgrow hc hfit hexact hown hre
    · exact not_reallocates_of_overlap h hb hbf (by omega) (by omega) hgrow hc hcf hfit hle hspare
        hown hre

theorem heapRealloc_preserves_kernel : ∃ p st,
    heapMalloc 100 (heapInit 0x800000 0x400000 heapBlank) = some (p, st) ∧
      Reallocates st [⟨0x800000, 104, false⟩, ⟨0x80007C, 0x3FFF70, true⟩]
        ⟨0x800000, 104, false⟩ 200 := by
  have hfacts : ((heapMalloc 100 (heapInit 0x800000 0x400000 heapBlank)).map fun r =>
      decide (HeapInv r.2 [⟨0x800000, 104, false⟩, ⟨0x80007C, 0x3FFF70, true⟩]))
        = some true ∧ roundSize 200 = 200 := by decide +kernel
  obtain ⟨⟨p, st⟩, he, hinv⟩ := Option.map_eq_some_iff.mp hfacts.1
  have h := of_decide_eq_true hinv
  refine ⟨p, st, he, (heapRealloc_preserves st _ h ⟨0x800000, 104, false⟩ (by simp) rfl 200
    (by decide) (by decide)).1 (Or.inr (h.roomy_iff.mpr ?_))⟩
  rw [hfacts.2]
  decide

/-- Three blocks, of which the first is freed and found again for the third: its exact fit is
split all the same, over the header of the second. -/
theorem heapRealloc_exact_fit : ∃ os s, Machine.run heapStep
    [.malloc 64, .malloc 32, .malloc 32, .free 0x800014]
      ⟨heapInit 0x800000 0x400000 heapBlank, ∅⟩ = some (os, s) ∧
    HeapInv s.heap [⟨0x800000, 64, true⟩, ⟨0x800054, 32, false⟩, ⟨0x800088, 32, false⟩,
      ⟨0x8000BC, 0x3FFF30, true⟩] ∧
    ¬Reallocates s.heap [⟨0x800000, 64, true⟩, ⟨0x800054, 32, false⟩, ⟨0x800088, 32, false⟩,
      ⟨0x8000BC, 0x3FFF30, true⟩] ⟨0x800088, 32, false⟩ 64 := by
  have hfacts : ((Machine.run heapStep [.malloc 64, .malloc 32, .malloc 32, .free 0x800014]
      ⟨heapInit 0x800000 0x400000 heapBlank, ∅⟩).map fun r =>
        (decide (HeapInv r.2.heap [⟨0x800000, 64, true⟩, ⟨0x800054, 32, false⟩,
          ⟨0x800088, 32, false⟩, ⟨0x8000BC, 0x3FFF30, true⟩]),
        findBestFit (roundSize 64) r.2.heap)) = some (true, some 0x800000) ∧ roundSize 64 = 64 := by
    decide +kernel
  obtain ⟨⟨os, s⟩, hrun, hs⟩ := Option.map_eq_some_iff.mp hfacts.1
  rw [Prod.mk.injEq, decide_eq_true_iff] at hs
  refine ⟨os, s, hrun, hs.1, ?_⟩
  refine not_reallocates_of_overlap (c := ⟨0x800000, 64, true⟩) hs.1 (by simp) rfl (by decide)
    (by decide) ?_ (by simp) rfl hs.2 ?_ ?_ (by decide)
  · rw [hfacts.2]
    decide
  · rw [hfacts.2]
  · rw [hfacts.2]
    decide

end AceOS.Kernel
