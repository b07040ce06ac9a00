import Mathlib.Algebra.Ring.Nat
import Mathlib.Data.List.Chain
import Mathlib.Tactic.Common

/-!
# Segments with headers that tile an interval

A heap that keeps its headers in the memory it manages is, seen from above, a
list of segments: a header of `hdr` bytes at `addr`, then `size` bytes of payload,
and a flag that says whether the payload is free.  `Tiles hdr lo hi bs` says the
segments lie one after the other and fill `[lo, hi)`.

`Linked` is the list in memory: a relation `H b p n` says that the header of `b`
is in memory with predecessor `p` and successor `n`, and `Linked H p bs n` puts
those together along the list.  It knows nothing about the fields of a header, so
that lists with one link or with two are both instances.
-/

namespace Segments

/-- A header address, the size of the payload after it, and whether it is free. -/
structure Seg where
  addr : Nat
  size : Nat
  free : Bool
  deriving DecidableEq, Repr

variable {hdr : Nat}

/-! ### Tilings -/

/-- The segments lie one after the other from `lo` to `hi`. -/
def Tiles (hdr : Nat) : Nat → Nat → List Seg → Prop
  | lo, hi, [] => lo = hi
  | lo, hi, b :: bs => b.addr = lo ∧ Tiles hdr (b.addr + hdr + b.size) hi bs

@[simp] theorem tiles_nil {lo hi : Nat} : Tiles hdr lo hi [] ↔ lo = hi := Iff.rfl

@[simp] theorem tiles_cons {lo hi : Nat} {b : Seg} {bs : List Seg} :
    Tiles hdr lo hi (b :: bs) ↔ b.addr = lo ∧ Tiles hdr (b.addr + hdr + b.size) hi bs := Iff.rfl

instance decidableTiles : ∀ (lo hi : Nat) (bs : List Seg), Decidable (Tiles hdr lo hi bs)
  | lo, hi, [] => inferInstanceAs (Decidable (lo = hi))
  | lo, hi, b :: bs =>
      have := decidableTiles (b.addr + hdr + b.size) hi bs
      inferInstanceAs (Decidable (b.addr = lo ∧ Tiles hdr (b.addr + hdr + b.size) hi bs))

theorem tiles_append {lo hi : Nat} {xs ys : List Seg} :
    Tiles hdr lo hi (xs ++ ys) ↔ ∃ mid, Tiles hdr lo mid xs ∧ Tiles hdr mid hi ys := by
  induction xs generalizing lo with
  | nil => simp
  | cons x xs ih => simp only [List.cons_append, tiles_cons, ih, ← exists_and_left, and_assoc]

theorem Tiles.le {lo hi : Nat} {bs : List Seg} (h : Tiles hdr lo hi bs) : lo ≤ hi := by
  induction bs generalizing lo with
  | nil => exact Nat.le_of_eq h
  | cons b bs ih =>
      have := ih h.2
      have := h.1
      omega

theorem Tiles.unique {lo hi hi' : Nat} {bs : List Seg} (h : Tiles hdr lo hi bs)
    (h' : Tiles hdr lo hi' bs) : hi = hi' := by
  induction bs generalizing lo with
  | nil => exact h.symm.trans h'
  | cons b bs ih => exact ih h.2 h'.2

theorem Tiles.bounds {lo hi : Nat} {bs : List Seg} (h : Tiles hdr lo hi bs) {b : Seg}
    (hb : b ∈ bs) : lo ≤ b.addr ∧ b.addr + hdr + b.size ≤ hi := by
  induction bs generalizing lo with
  | nil => exact absurd hb (by simp)
  | cons c bs ih =>
      have h₁ := h.1
      rcases List.mem_cons.mp hb with rfl | hb
      · have := h.2.le
        omega
      · have := ih h.2 hb
        omega

theorem Tiles.around {lo hi : Nat} {xs ys : List Seg} {b : Seg}
    (h : Tiles hdr lo hi (xs ++ b :: ys)) :
    Tiles hdr lo b.addr xs ∧ Tiles hdr (b.addr + hdr + b.size) hi ys := by
  obtain ⟨mid, h₁, h₂, h₃⟩ := tiles_append.mp h
  exact ⟨h₂ ▸ h₁, h₃⟩

theorem Tiles.before {lo hi : Nat} {xs ys : List Seg} {a b : Seg}
    (h : Tiles hdr lo hi (xs ++ b :: ys)) (ha : a ∈ xs) : a.addr + hdr + a.size ≤ b.addr :=
  (h.around.1.bounds ha).2

theorem Tiles.after {lo hi : Nat} {xs ys : List Seg} {b c : Seg}
    (h : Tiles hdr lo hi (xs ++ b :: ys)) (hc : c ∈ ys) : b.addr + hdr + b.size ≤ c.addr :=
  (h.around.2.bounds hc).1

/-- Two different segments of a tiling are disjoint, headers included. -/
theorem Tiles.apart {lo hi : Nat} {bs : List Seg} (h : Tiles hdr lo hi bs) {a b : Seg}
    (ha : a ∈ bs) (hb : b ∈ bs) (hne : a ≠ b) :
    a.addr + hdr + a.size ≤ b.addr ∨ b.addr + hdr + b.size ≤ a.addr := by
  obtain ⟨xs, ys, rfl⟩ := List.append_of_mem hb
  rcases List.mem_append.mp ha with hx | hy
  · exact Or.inl (h.before hx)
  · rcases List.mem_cons.mp hy with he | hy
    · exact absurd he hne
    · exact Or.inr (h.after hy)

theorem Tiles.pairwise_addr {lo hi : Nat} {bs : List Seg} (h : Tiles hdr lo hi bs)
    (hpos : 0 < hdr) : bs.Pairwise (fun a b => a.addr < b.addr) := by
  induction bs generalizing lo with
  | nil => exact List.Pairwise.nil
  | cons b bs ih =>
      refine List.pairwise_cons.mpr ⟨fun c hc => ?_, ih h.2⟩
      have hbounds := h.2.bounds hc
      omega

theorem Tiles.eq_of_addr {lo hi : Nat} {bs : List Seg} (h : Tiles hdr lo hi bs) (hpos : 0 < hdr)
    {a b : Seg} (ha : a ∈ bs) (hb : b ∈ bs) (he : a.addr = b.addr) : a = b := by
  by_contra hne
  rcases h.apart ha hb hne with h | h <;> omega

theorem Tiles.mem_remove {lo hi : Nat} {xs ys : List Seg} {b c : Seg} (hpos : 0 < hdr)
    (h : Tiles hdr lo hi (xs ++ b :: ys)) : c ∈ xs ∨ c ∈ ys ↔ c ∈ xs ++ b :: ys ∧ c ≠ b := by
  rw [List.mem_append, List.mem_cons]
  constructor
  · intro hc
    refine ⟨hc.imp_right Or.inr, ?_⟩
    rintro rfl
    rcases hc with hx | hy
    · have := h.before hx
      omega
    · have := h.after hy
      omega
  · rintro ⟨hx | rfl | hy, hne⟩
    · exact Or.inl hx
    · exact absurd rfl hne
    · exact Or.inr hy

theorem Tiles.length_mul_le {lo hi : Nat} {bs : List Seg} (h : Tiles hdr lo hi bs) :
    bs.length * hdr ≤ hi - lo := by
  induction bs generalizing lo with
  | nil => simp
  | cons b bs ih =>
      have := ih h.2
      have := h.1
      have := h.2.le
      rw [List.length_cons, Nat.succ_mul]
      omega

/-- A stretch of a tiling can be replaced by another tiling of the same interval. -/
theorem Tiles.replace {lo hi a b : Nat} {xs ms ms' ys : List Seg}
    (h : Tiles hdr lo hi (xs ++ (ms ++ ys))) (hm : Tiles hdr a b ms) (hm' : Tiles hdr a b ms')
    (hne : ms ≠ []) : Tiles hdr lo hi (xs ++ (ms' ++ ys)) := by
  obtain ⟨mid, h₁, h₂⟩ := tiles_append.mp h
  obtain ⟨mid', h₂, h₃⟩ := tiles_append.mp h₂
  cases ms with
  | nil => exact absurd rfl hne
  | cons c cs =>
      have hmid : mid = a := h₂.1.symm.trans hm.1
      subst hmid
      have hb : mid' = b := h₂.unique hm
      subst hb
      exact tiles_append.mpr ⟨mid, h₁, tiles_append.mpr ⟨mid', hm', h₃⟩⟩

/-- The segment before `b` is the one that ends where `b` begins. -/
theorem Tiles.mem_getLast? {lo hi : Nat} {xs ys : List Seg} {a b : Seg} (hpos : 0 < hdr)
    (h : Tiles hdr lo hi (xs ++ b :: ys)) :
    a ∈ xs.getLast? ↔ a ∈ xs ++ b :: ys ∧ a.addr + hdr + a.size = b.addr := by
  constructor
  · intro ha
    obtain ⟨us, rfl⟩ := List.getLast?_eq_some_iff.mp ha
    have h' : Tiles hdr lo hi (us ++ a :: b :: ys) := by simpa using h
    exact ⟨by simp, h'.around.2.1.symm⟩
  · intro ⟨ha, he⟩
    rcases List.mem_append.mp ha with hx | hy
    · obtain ⟨us, vs, rfl⟩ := List.append_of_mem hx
      cases vs with
      | nil => simp
      | cons d vs =>
          -- `d` would lie between the end of `a` and `b`
          have h' : Tiles hdr lo hi (us ++ a :: d :: (vs ++ b :: ys)) := by simpa using h
          have had := h'.after (c := d) (List.mem_cons_self ..)
          have hdb := h.before (a := d) (by simp)
          omega
    · rcases List.mem_cons.mp hy with rfl | hy
      · omega
      · have := h.after hy
        omega

/-- The segment after `b` is the one that begins where `b` ends. -/
theorem Tiles.mem_head? {lo hi : Nat} {xs ys : List Seg} {b c : Seg} (hpos : 0 < hdr)
    (h : Tiles hdr lo hi (xs ++ b :: ys)) :
    c ∈ ys.head? ↔ c ∈ xs ++ b :: ys ∧ b.addr + hdr + b.size = c.addr := by
  constructor
  · intro hc
    obtain ⟨vs, rfl⟩ := List.head?_eq_some_iff.mp hc
    exact ⟨by simp, h.around.2.1.symm⟩
  · intro ⟨hc, he⟩
    rcases List.mem_append.mp hc with hx | hy
    · have := h.before hx
      omega
    · cases ys with
      | nil =>
          obtain rfl := List.mem_singleton.mp hy
          omega
      | cons d vs =>
          have hd : d.addr = b.addr + hdr + b.size := h.around.2.1
          have hc' : c = d := h.eq_of_addr hpos hc (by simp) (he.symm.trans hd.symm)
          rw [hc', List.head?_cons]
          rfl

/-! ### No two neighbours free -/

/-- No two neighbouring segments are both free. -/
def Coalesced (bs : List Seg) : Prop := bs.IsChain (fun a b => ¬(a.free = true ∧ b.free = true))

instance (bs : List Seg) : Decidable (Coalesced bs) :=
  inferInstanceAs (Decidable (bs.IsChain fun a b => ¬(a.free = true ∧ b.free = true)))

@[simp] theorem coalesced_nil : Coalesced [] := List.IsChain.nil

theorem coalesced_cons_free {bs : List Seg} {b : Seg} (hb : b.free = true) :
    Coalesced (b :: bs) ↔ Coalesced bs ∧ ∀ c ∈ bs.head?, c.free = false := by
  rw [Coalesced, Coalesced, List.isChain_cons]
  simp only [hb, true_and, Bool.not_eq_true]
  exact and_comm

theorem coalesced_append_used {xs ys : List Seg} {b : Seg} (hb : b.free = false) :
    Coalesced (xs ++ b :: ys) ↔ Coalesced xs ∧ Coalesced ys := by
  rw [Coalesced, Coalesced, Coalesced, List.isChain_append, List.isChain_cons]
  simp [hb]

theorem coalesced_append_free {xs ys : List Seg} {b : Seg} (hb : b.free = true) :
    Coalesced (xs ++ b :: ys) ↔
      (Coalesced xs ∧ ∀ a ∈ xs.getLast?, a.free = false) ∧
        (Coalesced ys ∧ ∀ c ∈ ys.head?, c.free = false) := by
  rw [Coalesced, Coalesced, Coalesced, List.isChain_append, List.isChain_cons]
  simp only [List.head?_cons, Option.mem_some_iff, forall_eq', hb, and_true, true_and,
    Bool.not_eq_true]
  tauto

/-- A stretch of free segments is no longer than one segment. -/
theorem Coalesced.stretch {xs ms ys : List Seg} (h : Coalesced (xs ++ (ms ++ ys)))
    (hfree : ∀ b ∈ ms, b.free = true) : ms = [] ∨ ∃ b, ms = [b] := by
  have hms : Coalesced ms := (List.isChain_append.mp (List.isChain_append.mp h).2.1).1
  cases ms with
  | nil => exact Or.inl rfl
  | cons b ms =>
      cases ms with
      | nil => exact Or.inr ⟨b, rfl⟩
      | cons c ms =>
          have hb := hfree b (List.mem_cons_self ..)
          have hc := hfree c (List.mem_cons_of_mem b (List.mem_cons_self ..))
          exact absurd ⟨hb, hc⟩ (List.isChain_cons_cons.mp hms).1

/-- Some segment at `addr` has a free segment on either side. -/
def BetweenFree (hdr addr : Nat) (bs : List Seg) : Prop :=
  ∃ a ∈ bs, ∃ b ∈ bs, ∃ c ∈ bs, b.addr = addr ∧ (a.free = true ∧ a.addr + hdr + a.size = b.addr) ∧
    c.free = true ∧ b.addr + hdr + b.size = c.addr

instance (hdr addr : Nat) (bs : List Seg) : Decidable (BetweenFree hdr addr bs) :=
  inferInstanceAs (Decidable (∃ a ∈ bs, ∃ b ∈ bs, ∃ c ∈ bs, b.addr = addr ∧
    (a.free = true ∧ a.addr + hdr + a.size = b.addr) ∧
      c.free = true ∧ b.addr + hdr + b.size = c.addr))

theorem betweenFree_iff {lo hi : Nat} {xs ys : List Seg} {b : Seg} (hpos : 0 < hdr)
    (h : Tiles hdr lo hi (xs ++ b :: ys)) :
    BetweenFree hdr b.addr (xs ++ b :: ys) ↔
      (∃ a ∈ xs.getLast?, a.free = true) ∧ ∃ c ∈ ys.head?, c.free = true := by
  constructor
  · intro ⟨a, ha, b', hb', c, hc, he, ⟨haf, hae⟩, hcf, hce⟩
    obtain rfl : b' = b := h.eq_of_addr hpos hb' (by simp) he
    exact ⟨⟨a, (h.mem_getLast? hpos).mpr ⟨ha, hae⟩, haf⟩,
      ⟨c, (h.mem_head? hpos).mpr ⟨hc, hce⟩, hcf⟩⟩
  · intro ⟨⟨a, ha, haf⟩, c, hc, hcf⟩
    obtain ⟨ha, hae⟩ := (h.mem_getLast? hpos).mp ha
    obtain ⟨hc, hce⟩ := (h.mem_head? hpos).mp hc
    exact ⟨a, ha, b, by simp, c, hc, rfl, ⟨haf, hae⟩, hcf, hce⟩

/-- The bytes that a list of segments covers, headers included. -/
def extent (hdr : Nat) (bs : List Seg) : Nat := (bs.map fun b => hdr + b.size).sum

@[simp] theorem extent_nil : extent hdr [] = 0 := rfl

@[simp] theorem extent_cons (b : Seg) (bs : List Seg) :
    extent hdr (b :: bs) = hdr + b.size + extent hdr bs := rfl

/-- The free bytes of a list of segments, headers not included. -/
def freeBytes (bs : List Seg) : Nat := ((bs.filter fun b => b.free).map fun b => b.size).sum

@[simp] theorem freeBytes_nil : freeBytes [] = 0 := rfl

@[simp] theorem freeBytes_cons (b : Seg) (bs : List Seg) :
    freeBytes (b :: bs) = (if b.free then b.size else 0) + freeBytes bs := by
  unfold freeBytes
  rw [List.filter_cons]
  split <;> simp

@[simp] theorem freeBytes_append (xs ys : List Seg) :
    freeBytes (xs ++ ys) = freeBytes xs + freeBytes ys := by
  unfold freeBytes
  rw [List.filter_append, List.map_append, List.sum_append]

theorem Tiles.freeBytes_le {lo hi : Nat} {bs : List Seg} (h : Tiles hdr lo hi bs) :
    freeBytes bs + bs.length * hdr ≤ hi - lo := by
  induction bs generalizing lo with
  | nil => simp
  | cons b bs ih =>
      have hrest := ih h.2
      have haddr := h.1
      have hle := h.2.le
      rw [freeBytes_cons, List.length_cons, Nat.succ_mul]
      split <;> omega

/-! ### Lists in memory -/

/-- The address of the first segment, or `n` when there is none. -/
def headAddr (bs : List Seg) (n : Nat) : Nat := (bs.head?.map Seg.addr).getD n

/-- The address of the last segment, or `p` when there is none. -/
def lastAddr (p : Nat) (bs : List Seg) : Nat := (bs.getLast?.map Seg.addr).getD p

@[simp] theorem headAddr_nil (n : Nat) : headAddr [] n = n := rfl

@[simp] theorem headAddr_cons (b : Seg) (bs : List Seg) (n : Nat) :
    headAddr (b :: bs) n = b.addr := rfl

theorem headAddr_append (xs ys : List Seg) (n : Nat) :
    headAddr (xs ++ ys) n = headAddr xs (headAddr ys n) := by
  cases xs <;> rfl

@[simp] theorem lastAddr_nil (p : Nat) : lastAddr p [] = p := rfl

theorem lastAddr_cons (p : Nat) (b : Seg) (bs : List Seg) :
    lastAddr p (b :: bs) = lastAddr b.addr bs := by
  cases bs with
  | nil => rfl
  | cons c cs => simp [lastAddr, List.getLast?_eq_some_getLast]

@[simp] theorem lastAddr_concat (p : Nat) (bs : List Seg) (b : Seg) :
    lastAddr p (bs ++ [b]) = b.addr := by simp [lastAddr]

/-- The headers of the list are in memory, with predecessor `p` and successor `n`. -/
def Linked (H : Seg → Nat → Nat → Prop) : Nat → List Seg → Nat → Prop
  | _, [], _ => True
  | p, b :: bs, n => H b p (headAddr bs n) ∧ Linked H b.addr bs n

instance decidableLinked (H : Seg → Nat → Nat → Prop) [∀ b p n, Decidable (H b p n)] :
    ∀ (p : Nat) (bs : List Seg) (n : Nat), Decidable (Linked H p bs n)
  | _, [], _ => inferInstanceAs (Decidable True)
  | p, b :: bs, n =>
      have := decidableLinked H b.addr bs n
      inferInstanceAs (Decidable (H b p (headAddr bs n) ∧ Linked H b.addr bs n))

variable {H H' : Seg → Nat → Nat → Prop}

@[simp] theorem linked_nil {p n : Nat} : Linked H p [] n := trivial

@[simp] theorem linked_cons {p n : Nat} {b : Seg} {bs : List Seg} :
    Linked H p (b :: bs) n ↔ H b p (headAddr bs n) ∧ Linked H b.addr bs n := Iff.rfl

theorem linked_append {p n : Nat} {xs ys : List Seg} :
    Linked H p (xs ++ ys) n ↔ Linked H p xs (headAddr ys n) ∧ Linked H (lastAddr p xs) ys n := by
  induction xs generalizing p with
  | nil => simp
  | cons x xs ih =>
      rw [List.cons_append, linked_cons, linked_cons, ih, headAddr_append, lastAddr_cons, and_assoc]

theorem Linked.imp {p n : Nat} {bs : List Seg} (h : Linked H p bs n)
    (hH : ∀ b ∈ bs, ∀ p n, H b p n → H' b p n) : Linked H' p bs n := by
  induction bs generalizing p with
  | nil => exact trivial
  | cons b bs ih =>
      exact ⟨hH b (List.mem_cons_self ..) _ _ h.1,
        ih h.2 fun c hc => hH c (List.mem_cons_of_mem b hc)⟩

/-- A list whose headers do not record their predecessor may follow any. -/
theorem Linked.relink {p n : Nat} {bs : List Seg} (h : Linked H p bs n) (p' : Nat)
    (hH : ∀ b ∈ bs, ∀ q q' k, H b q k → H' b q' k) : Linked H' p' bs n := by
  cases bs with
  | nil => exact trivial
  | cons b bs =>
      refine ⟨hH b (List.mem_cons_self ..) _ _ _ h.1, h.2.imp ?_⟩
      intro c hc q k
      exact hH c (List.mem_cons_of_mem b hc) q q k

/-- **Replace a stretch of a list.**  The headers before it keep their links, since the
stretch begins at the same address; what follows it may need a new predecessor. -/
theorem Linked.replace {p n : Nat} {xs ms ms' ys : List Seg} (h : Linked H p (xs ++ (ms ++ ys)) n)
    (hne : headAddr ms' (headAddr ys n) = headAddr ms (headAddr ys n))
    (hms : Linked H' (lastAddr p xs) ms' (headAddr ys n))
    (hxs : ∀ x ∈ xs, ∀ q k, H x q k → H' x q k)
    (hys : Linked H (lastAddr (lastAddr p xs) ms) ys n →
      Linked H' (lastAddr (lastAddr p xs) ms') ys n) :
    Linked H' p (xs ++ (ms' ++ ys)) n := by
  obtain ⟨h₁, h₂⟩ := linked_append.mp h
  obtain ⟨-, h₃⟩ := linked_append.mp h₂
  refine linked_append.mpr ⟨?_, linked_append.mpr ⟨hms, hys h₃⟩⟩
  rw [headAddr_append, hne, ← headAddr_append]
  exact h₁.imp hxs

theorem Linked.mem {p n : Nat} {bs : List Seg} (h : Linked H p bs n) {b : Seg} (hb : b ∈ bs) :
    ∃ p' n', H b p' n' := by
  induction bs generalizing p with
  | nil => exact absurd hb (by simp)
  | cons c bs ih =>
      rcases List.mem_cons.mp hb with rfl | hb
      · exact ⟨_, _, h.1⟩
      · exact ih h.2 hb

end Segments
