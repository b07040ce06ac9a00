import AceOS.Libc.Stdlib

/-!
# Runs of the libc heap

Before the first `malloc` there is no list at all: `free_list` is `NULL` and the
array is untouched.  From the first `malloc` on the list tiles the array and its
allocated blocks are the live pointers (`libcRun_tiled`); two free neighbours may
stay unmerged, which costs memory but not the tiling.
-/

namespace AceOS.Libc

open Memory Segments

structure LibcRun where
  st : LibcHeap
  live : Finset Nat

/-- What the callers of the heap do: `write` stores a byte through a pointer they own. -/
inductive LibcOp
  | malloc (size : Nat)
  | free (ptr : Nat)
  | write (addr : Nat) (v : UInt8)

def libcStep (heap : Nat) : LibcOp → LibcRun → Option (Nat × LibcRun)
  | .malloc size, s =>
      (malloc heap size s.st).map fun r =>
        (r.1, { st := r.2, live := if r.1 = 0 then s.live else insert r.1 s.live })
  | .free ptr, s => (free ptr s.st).map fun st => (0, { st := st, live := s.live.erase ptr })
  | .write addr v, s => some (0, { s with st := { s.st with mem := store8 s.st.mem addr v } })

/-- The callers keep to the contract: 32-bit sizes, only `NULL` and live pointers freed,
stores only into live payloads. -/
def LibcAllowed : LibcOp → LibcRun → Prop
  | .malloc size, _ => size < 4294967296
  | .free ptr, s => ptr = 0 ∨ ptr ∈ s.live
  | .write addr _, s =>
      ∃ p ∈ s.live, p ≤ addr ∧ addr < p + blockSize s.st.mem (p - memoryBlockSize)

instance : ∀ (op : LibcOp) (s : LibcRun), Decidable (LibcAllowed op s)
  | .malloc size, _ => inferInstanceAs (Decidable (size < 4294967296))
  | .free ptr, s => inferInstanceAs (Decidable (ptr = 0 ∨ ptr ∈ s.live))
  | .write addr _, s => inferInstanceAs (Decidable
      (∃ p ∈ s.live, p ≤ addr ∧ addr < p + blockSize s.st.mem (p - memoryBlockSize)))

def libcStart (m : Mem) : LibcRun := ⟨⟨m, 0, false⟩, ∅⟩

/-- The list from `free_list` tiles the array, and its allocated blocks are the live
pointers. -/
def LibcTiled (heap : Nat) (s : LibcRun) : Prop :=
  ∃ bs, LibcRepr heap s.st.mem bs ∧ s.st.freeList = headAddr bs 0 ∧
    ∀ p, p ∈ s.live ↔ ∃ b ∈ bs, b.free = false ∧ p = b.addr + 12

/-- Before the first `malloc` there is no list; afterwards the list tiles the array. -/
def LibcInv (heap : Nat) (s : LibcRun) : Prop :=
  if s.st.initialized then LibcTiled heap s else s.st.freeList = 0 ∧ s.live = ∅

/-- The live blocks of `s` other than `q` are live blocks of `t` at the same place and of
the same size. -/
def KeepsBlocks (q : Nat) (s t : LibcRun) : Prop :=
  ∀ p ∈ s.live, p ≠ q →
    p ∈ t.live ∧
      blockSize t.st.mem (p - memoryBlockSize) = blockSize s.st.mem (p - memoryBlockSize)

section Step

variable {heap : Nat} {s : LibcRun}

/-- A step that keeps the allocated segments but `q`, and may add one. -/
theorem keepsBlocks_of_segments {t : LibcRun} {bs bs' : List Seg} {q : Nat}
    (hs : LibcRepr heap s.st.mem bs) (ht : LibcRepr heap t.st.mem bs')
    (hlive : ∀ p, p ∈ s.live ↔ ∃ b ∈ bs, b.free = false ∧ p = b.addr + 12)
    (hlive' : ∀ p, p ∈ t.live ↔ ∃ b ∈ bs', b.free = false ∧ p = b.addr + 12)
    (hkeep : ∀ c ∈ bs, c.free = false → c.addr + 12 ≠ q → c ∈ bs') : KeepsBlocks q s t := by
  intro p hp hpq
  obtain ⟨c, hc, hcf, rfl⟩ := (hlive p).mp hp
  have hc' := hkeep c hc hcf hpq
  refine ⟨(hlive' _).mpr ⟨c, hc', hcf, rfl⟩, ?_⟩
  rw [memoryBlockSize, Nat.add_sub_cancel, hs.size_eq hc, ht.size_eq hc']

theorem libcStep_malloc (h : LibcTiled heap s) (hinit : s.st.initialized = true) (size : Nat) :
    ∃ o t, libcStep heap (.malloc size) s = some (o, t) ∧ t.st.initialized = true ∧
      LibcTiled heap t ∧ KeepsBlocks 0 s t := by
  obtain ⟨bs, hrepr, hfirst, hlive⟩ := h
  rcases malloc_spec hrepr hfirst hinit size with
    ⟨he, -⟩ | ⟨b, bs', st', he, hinit', hrepr', hfirst', hbf, -, -, hmem, -⟩
  · refine ⟨0, s, ?_, hinit, ⟨bs, hrepr, hfirst, hlive⟩, ?_⟩
    · simp [libcStep, he]
    · exact keepsBlocks_of_segments hrepr hrepr hlive hlive fun c hc _ _ => hc
  · have hlive' : ∀ p, p ∈ insert (b.addr + 12) s.live ↔
        ∃ c ∈ bs', c.free = false ∧ p = c.addr + 12 := by
      intro p
      rw [Finset.mem_insert, hlive]
      constructor
      · rintro (rfl | ⟨c, hc, hcf, rfl⟩)
        · exact ⟨b, (hmem b hbf).mpr (Or.inl rfl), hbf, rfl⟩
        · exact ⟨c, (hmem c hcf).mpr (Or.inr hc), hcf, rfl⟩
      · rintro ⟨c, hc, hcf, rfl⟩
        rcases (hmem c hcf).mp hc with rfl | hc
        · exact Or.inl rfl
        · exact Or.inr ⟨c, hc, hcf, rfl⟩
    refine ⟨b.addr + 12, ⟨st', insert (b.addr + 12) s.live⟩, ?_, hinit',
      ⟨bs', hrepr', hfirst', hlive'⟩, ?_⟩
    · simp [libcStep, he]
    · exact keepsBlocks_of_segments hrepr hrepr' hlive hlive' fun c hc hcf _ =>
        (hmem c hcf).mpr (Or.inr hc)

theorem libcStep_free (h : LibcTiled heap s) {ptr : Nat} (hptr : ptr ∈ s.live) :
    ∃ t, libcStep heap (.free ptr) s = some (0, t) ∧
      t.st.initialized = s.st.initialized ∧ LibcTiled heap t ∧ KeepsBlocks ptr s t := by
  obtain ⟨bs, hrepr, hfirst, hlive⟩ := h
  obtain ⟨b, hb, hbf, rfl⟩ := (hlive ptr).mp hptr
  obtain ⟨xs, ys, rfl⟩ := List.append_of_mem hb
  obtain ⟨bs', st', hfree, hinit, hrepr', hfirst', hmem, -⟩ := free_spec hrepr hfirst hbf
  have hlive' : ∀ p, p ∈ s.live.erase (b.addr + 12) ↔
      ∃ c ∈ bs', c.free = false ∧ p = c.addr + 12 := by
    intro p
    rw [Finset.mem_erase, hlive]
    constructor
    · rintro ⟨hne, c, hc, hcf, rfl⟩
      exact ⟨c, (hmem c hcf).mpr ⟨hc, by rintro rfl; exact hne rfl⟩, hcf, rfl⟩
    · rintro ⟨c, hc, hcf, rfl⟩
      obtain ⟨hc, hne⟩ := (hmem c hcf).mp hc
      refine ⟨?_, c, hc, hcf, rfl⟩
      intro he
      exact hne (hrepr.tiles.eq_of_addr (by decide) hc hb (by omega))
  refine ⟨⟨st', s.live.erase (b.addr + 12)⟩, ?_, hinit, ⟨bs', hrepr', hfirst', hlive'⟩, ?_⟩
  · rw [libcStep, hfree, Option.map_some]
  · refine keepsBlocks_of_segments hrepr hrepr' hlive hlive' ?_
    intro c hc hcf hne
    exact (hmem c hcf).mpr ⟨hc, by rintro rfl; exact hne rfl⟩

theorem libcStep_write (h : LibcTiled heap s) {addr : Nat} {v : UInt8}
    (hw : LibcAllowed (.write addr v) s) :
    ∃ t, libcStep heap (.write addr v) s = some (0, t) ∧
      t.st.initialized = s.st.initialized ∧ LibcTiled heap t ∧ KeepsBlocks 0 s t := by
  obtain ⟨bs, hrepr, hfirst, hlive⟩ := h
  obtain ⟨p, hp, h₁, h₂⟩ := hw
  obtain ⟨b, hb, -, rfl⟩ := (hlive p).mp hp
  rw [memoryBlockSize, Nat.add_sub_cancel, hrepr.size_eq hb] at h₂
  have hrepr' : LibcRepr heap (store8 s.st.mem addr v) bs := hrepr.write hb h₁ h₂ v
  exact ⟨_, rfl, rfl, ⟨bs, hrepr', hfirst, hlive⟩,
    keepsBlocks_of_segments hrepr hrepr' hlive hlive fun c hc _ _ => hc⟩

/-- `initialize_heap` lays out the array as one free block, if it has not been laid out. -/
theorem LibcInv.tiled_initializeHeap (h₀ : 0 < heap) (h₁ : heap + heapSize < 4294967296)
    (h : LibcInv heap s) : LibcTiled heap ⟨initializeHeap heap s.st, s.live⟩ := by
  cases hinit : s.st.initialized with
  | false =>
      rw [LibcInv, hinit, if_neg Bool.false_ne_true] at h
      refine ⟨_, initializeHeap_repr h₀ h₁ hinit, ?_, ?_⟩
      · simp only [initializeHeap, hinit]
        rfl
      · intro p
        simp [h.2]
  | true =>
      rw [LibcInv, hinit, if_pos rfl] at h
      rw [initializeHeap_of_initialized heap hinit]
      exact h

theorem LibcTiled.inv (h : LibcTiled heap s) (hinit : s.st.initialized = true) :
    LibcInv heap s := by
  rw [LibcInv, if_pos hinit]
  exact h

theorem LibcInv.tiled (h : LibcInv heap s) {p : Nat} (hp : p ∈ s.live) :
    s.st.initialized = true ∧ LibcTiled heap s := by
  cases hinit : s.st.initialized with
  | false =>
      rw [LibcInv, hinit, if_neg Bool.false_ne_true] at h
      rw [h.2] at hp
      exact absurd hp (Finset.notMem_empty p)
  | true =>
      rw [LibcInv, hinit, if_pos rfl] at h
      exact ⟨rfl, h⟩

theorem LibcInv.ne_zero (h : LibcInv heap s) {p : Nat} (hp : p ∈ s.live) : p ≠ 0 := by
  obtain ⟨bs, -, -, hlive⟩ := (h.tiled hp).2
  obtain ⟨b, -, -, rfl⟩ := (hlive p).mp hp
  omega

/-- **One step** keeps the invariant and every live block but the one it frees. -/
theorem libcStep_inv (h₀ : 0 < heap) (h₁ : heap + heapSize < 4294967296) (h : LibcInv heap s)
    (op : LibcOp) (hop : LibcAllowed op s) :
    ∃ o t, libcStep heap op s = some (o, t) ∧ LibcInv heap t ∧
      (t.st.initialized = true ↔ s.st.initialized = true ∨ ∃ n, op = .malloc n) ∧
      ∀ p ∈ s.live, op ≠ .free p →
        p ∈ t.live ∧
          blockSize t.st.mem (p - memoryBlockSize) = blockSize s.st.mem (p - memoryBlockSize) := by
  cases op with
  | malloc size =>
      obtain ⟨o, t, ht, hti, htiled, hk⟩ := libcStep_malloc (h.tiled_initializeHeap h₀ h₁)
        (initializeHeap_initialized heap s.st) size
      refine ⟨o, t, ?_, htiled.inv hti, iff_of_true hti (Or.inr ⟨size, rfl⟩), ?_⟩
      · rw [← ht]
        simp only [libcStep, malloc_initializeHeap]
      · intro p hp _
        have hst := initializeHeap_of_initialized heap (h.tiled hp).1
        rw [hst] at hk
        exact hk p hp (h.ne_zero hp)
  | free ptr =>
      by_cases hp : ptr ∈ s.live
      · obtain ⟨hinit, htiled⟩ := h.tiled hp
        obtain ⟨t, ht, hti, htiled', hk⟩ := libcStep_free htiled hp
        refine ⟨0, t, ht, htiled'.inv (hti.trans hinit), by simp [hti, hinit], ?_⟩
        intro q hq hne
        exact hk q hq fun hqp => hne (by rw [hqp])
      · obtain rfl := hop.resolve_right hp
        have he : s.live.erase 0 = s.live := Finset.erase_eq_of_notMem hp
        exact ⟨0, s, by simp [libcStep, free, he], h, by simp, fun p hp _ => ⟨hp, rfl⟩⟩
  | write addr v =>
      obtain ⟨p, hp, hlo, hhi⟩ := hop
      obtain ⟨hinit, htiled⟩ := h.tiled hp
      obtain ⟨t, ht, hti, htiled', hk⟩ := libcStep_write htiled ⟨p, hp, hlo, hhi⟩
      refine ⟨0, t, ht, htiled'.inv (hti.trans hinit), by simp [hti, hinit], ?_⟩
      intro q hq _
      exact hk q hq (h.ne_zero hq)

end Step

/-! ### Runs -/

section Run

variable {heap : Nat} {s : LibcRun}

theorem libcRun_inv (h₀ : 0 < heap) (h₁ : heap + heapSize < 4294967296) {ops : List LibcOp}
    (h : LibcInv heap s) (hops : Machine.Meets (libcStep heap) LibcAllowed ops s) :
    ∃ os t, Machine.run (libcStep heap) ops s = some (os, t) ∧ LibcInv heap t ∧
      (t.st.initialized = true ↔ s.st.initialized = true ∨ ∃ n, .malloc n ∈ ops) := by
  induction ops generalizing s with
  | nil => exact ⟨[], s, rfl, h, by simp⟩
  | cons op ops ih =>
      obtain ⟨o, t, ht, hinv, hinit, -⟩ := libcStep_inv h₀ h₁ h op hops.1
      obtain ⟨os, u, hu, hinv', hinit'⟩ := ih hinv (hops.2 o t ht)
      refine ⟨o :: os, u, Machine.run_cons_some.mpr ⟨o, t, os, ht, hu, rfl⟩, hinv', ?_⟩
      rw [hinit', hinit, or_assoc]
      refine or_congr Iff.rfl ?_
      constructor
      · rintro (⟨n, rfl⟩ | ⟨n, hn⟩)
        · exact ⟨n, List.mem_cons_self ..⟩
        · exact ⟨n, List.mem_cons_of_mem op hn⟩
      · rintro ⟨n, hn⟩
        rcases List.mem_cons.mp hn with he | hn
        · exact Or.inl ⟨n, he.symm⟩
        · exact Or.inr ⟨n, hn⟩

theorem LibcTiled.inside (h : LibcTiled heap s) {p : Nat} (hp : p ∈ s.live) :
    heap ≤ p ∧ p + blockSize s.st.mem (p - memoryBlockSize) ≤ heap + heapSize := by
  obtain ⟨bs, hrepr, -, hlive⟩ := h
  obtain ⟨b, hb, -, rfl⟩ := (hlive p).mp hp
  have := hrepr.tiles.bounds hb
  rw [memoryBlockSize, Nat.add_sub_cancel, hrepr.size_eq hb]
  omega

theorem LibcTiled.disjoint (h : LibcTiled heap s) {p q : Nat} (hp : p ∈ s.live) (hq : q ∈ s.live)
    (hne : p ≠ q) :
    p + blockSize s.st.mem (p - memoryBlockSize) ≤ q ∨
      q + blockSize s.st.mem (q - memoryBlockSize) ≤ p := by
  obtain ⟨bs, hrepr, -, hlive⟩ := h
  obtain ⟨b, hb, -, rfl⟩ := (hlive p).mp hp
  obtain ⟨c, hc, -, rfl⟩ := (hlive q).mp hq
  rw [memoryBlockSize, Nat.add_sub_cancel, Nat.add_sub_cancel, hrepr.size_eq hb, hrepr.size_eq hc]
  rcases hrepr.tiles.apart hb hc (by rintro rfl; exact hne rfl) with h | h <;> omega

end Run

/-- **The libc heap over a whole run.**  Until the first `malloc` the list is empty and
nothing is live; from then on the list tiles the array, its allocated blocks are the
live pointers, and a step changes no live block but the one it frees. -/
theorem libcRun_tiled (heap : Nat) (m : Mem) (h₀ : 0 < heap) (h₁ : heap + heapSize < 4294967296)
    (ops : List LibcOp)
    (hops : Machine.Meets (libcStep heap) LibcAllowed ops (libcStart m)) :
    ∃ os s, Machine.run (libcStep heap) ops (libcStart m) = some (os, s) ∧
      ((∀ n, .malloc n ∉ ops) → s.st.freeList = 0 ∧ s.live = ∅) ∧
      ((∃ n, .malloc n ∈ ops) → LibcTiled heap s) ∧
      (∀ p ∈ s.live,
        heap ≤ p ∧ p + blockSize s.st.mem (p - memoryBlockSize) ≤ heap + heapSize) ∧
      (∀ p ∈ s.live, ∀ q ∈ s.live, p ≠ q →
        p + blockSize s.st.mem (p - memoryBlockSize) ≤ q ∨
          q + blockSize s.st.mem (q - memoryBlockSize) ≤ p) ∧
      ∀ op, LibcAllowed op s → ∃ o t, libcStep heap op s = some (o, t) ∧
        ∀ p ∈ s.live, op ≠ .free p →
          p ∈ t.live ∧
            blockSize t.st.mem (p - memoryBlockSize)
              = blockSize s.st.mem (p - memoryBlockSize) := by
  have hstart : LibcInv heap (libcStart m) := ⟨rfl, rfl⟩
  obtain ⟨os, s, hrun, hinv, hinit⟩ := libcRun_inv h₀ h₁ hstart hops
  have hno : (libcStart m).st.initialized ≠ true := Bool.false_ne_true
  refine ⟨os, s, hrun, ?_, ?_, ?_, ?_, ?_⟩
  · intro hnone
    have hf : s.st.initialized ≠ true := fun h => (hinit.mp h).elim hno fun ⟨n, hn⟩ => hnone n hn
    rwa [LibcInv, if_neg hf] at hinv
  · intro hsome
    rwa [LibcInv, if_pos (hinit.mpr (Or.inr hsome))] at hinv
  · intro p hp
    exact (hinv.tiled hp).2.inside hp
  · intro p hp q hq hne
    exact (hinv.tiled hp).2.disjoint hp hq hne
  · intro op hop
    obtain ⟨o, t, ht, -, -, hk⟩ := libcStep_inv h₀ h₁ hinv op hop
    exact ⟨o, t, ht, hk⟩

theorem libcRun_tiled_merge :
    ∃ os s, Machine.run (libcStep 0x20000)
        [.malloc 20, .malloc 40, .free 0x2000C, .write 0x20040 9, .free 0x20030]
        (libcStart ⟨fun _ => 0⟩) = some (os, s) ∧ LibcTiled 0x20000 s := by
  obtain ⟨os, s, hrun, -, h, -⟩ := libcRun_tiled 0x20000 ⟨fun _ => 0⟩ (by decide) (by decide)
    [.malloc 20, .malloc 40, .free 0x2000C, .write 0x20040 9, .free 0x20030] (by decide +kernel)
  exact ⟨os, s, hrun, h ⟨20, List.mem_cons_self ..⟩⟩

/-- In the empty run the list from `free_list` has no block: it does not tile the array. -/
theorem libcRun_empty :
    ∃ s, Machine.run (libcStep 0x20000) [] (libcStart ⟨fun _ => 0⟩) = some ([], s) ∧
      ¬LibcTiled 0x20000 s := by
  refine ⟨libcStart ⟨fun _ => 0⟩, rfl, ?_⟩
  rintro ⟨bs, hrepr, hfirst, -⟩
  rw [hrepr.headAddr_eq] at hfirst
  exact absurd hfirst (by decide)

end AceOS.Libc
