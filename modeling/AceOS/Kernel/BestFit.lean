import Mathlib.Data.List.MinMax
import AceOS.Kernel.HeapValidate

/-!
# Best fit (`find_best_fit` in `src/kernel/heap.c`)

The search keeps the smallest block seen that fits, replaces it only by a smaller one, and stops
at an exact fit.  Nothing that fits is smaller than an exact fit, so the stop changes nothing
(`findBestFitLoop_eq_exhaustive`); what is left is the first minimum of a list
(`findBestFitExhaustiveLoop_eq`).
-/

namespace AceOS.Kernel

open Memory Segments

/-! ### What the search is for -/

/-- Free, and of sufficient size. -/
def Fits (size : Nat) (b : Seg) : Prop := b.free = true ∧ size ≤ b.size

instance (size : Nat) (b : Seg) : Decidable (Fits size b) := inferInstanceAs (Decidable (_ ∧ _))

def bestFit (size : Nat) (bs : List Seg) : Option Seg :=
  (bs.filter fun b => Fits size b).argmin Seg.size

/-- The search without the stop at an exact fit. -/
def findBestFitExhaustiveLoop (m : Mem) (size : Nat) :
    (fuel current best bestSize : Nat) → Option Nat
  | 0, _, _, _ => none
  | fuel + 1, current, best, bestSize =>
      if current = 0 then some best
      else if blkFree m current ≠ 0 ∧ size ≤ blkSize m current ∧ blkSize m current < bestSize then
        findBestFitExhaustiveLoop m size fuel (blkNext m current) current (blkSize m current)
      else findBestFitExhaustiveLoop m size fuel (blkNext m current) best bestSize

def findBestFitExhaustive (size : Nat) (st : HeapState) : Option Nat :=
  findBestFitExhaustiveLoop st.mem size walkFuel st.mgr.firstBlock 0 sizeMax

/-! ### The candidate -/

/-- `best` and `best_size` for a candidate. -/
def candidateAddr (best : Option Seg) : Nat := (best.map Seg.addr).getD 0

def candidateSize (best : Option Seg) : Nat := (best.map Seg.size).getD sizeMax

theorem argAux_candidate {b : Seg} (hb : b.size < sizeMax) (best : Option Seg) :
    List.argAux (fun b c : Seg => b.size < c.size) best b
      = if b.size < candidateSize best then some b else best := by
  cases best with
  | none => exact (if_pos hb).symm
  | some c => rfl

section Search

variable {m : Mem} {p : Nat} {b : Seg} {ys : List Seg}

theorem linked_fields (h : Linked (HeapHdr m) p (b :: ys) 0) :
    blkSize m b.addr = b.size ∧ (blkFree m b.addr ≠ 0 ↔ b.free = true) ∧
      blkNext m b.addr = headAddr ys 0 := by
  have hhdr : header m b.addr = _ := (linked_cons.mp h).1
  have hfree : blkFree m b.addr = if b.free then 1 else 0 := congrArg Header.free hhdr
  refine ⟨congrArg Header.size hhdr, ?_, congrArg Header.next hhdr⟩
  rw [hfree]
  cases b.free <;> decide

/-- **The exhaustive search** takes the first minimum, starting from a candidate. -/
theorem findBestFitExhaustiveLoop_eq (size : Nat) (hlinked : Linked (HeapHdr m) p ys 0)
    (hys : ∀ b ∈ ys, 0 < b.addr ∧ b.size < sizeMax) {fuel : Nat} (hfuel : ys.length < fuel)
    (best : Option Seg) :
    findBestFitExhaustiveLoop m size fuel (headAddr ys 0) (candidateAddr best) (candidateSize best)
      = some (candidateAddr ((ys.filter fun b => Fits size b).foldl
          (List.argAux fun b c : Seg => b.size < c.size) best)) := by
  induction ys generalizing p fuel best with
  | nil =>
      obtain ⟨fuel, rfl⟩ := Nat.exists_eq_add_one_of_ne_zero (Nat.ne_zero_of_lt hfuel)
      rfl
  | cons b ys ih =>
      obtain ⟨fuel, rfl⟩ := Nat.exists_eq_add_one_of_ne_zero (Nat.ne_zero_of_lt hfuel)
      obtain ⟨hsize, hfree, hnext⟩ := linked_fields hlinked
      obtain ⟨⟨haddr, hmax⟩, hys⟩ := List.forall_mem_cons.mp hys
      have hrec := ih (linked_cons.mp hlinked).2 hys (Nat.lt_of_succ_lt_succ hfuel)
      rw [headAddr_cons, findBestFitExhaustiveLoop, if_neg (Nat.ne_of_gt haddr), hsize, hnext]
      by_cases hfits : Fits size b
      · rw [List.filter_cons_of_pos (by simpa using hfits), List.foldl_cons, argAux_candidate hmax]
        by_cases hlt : b.size < candidateSize best
        · rw [if_pos ⟨hfree.mpr hfits.1, hfits.2, hlt⟩, if_pos hlt]
          exact hrec (some b)
        · rw [if_neg fun h => hlt h.2.2, if_neg hlt]
          exact hrec best
      · rw [List.filter_cons_of_neg (by simpa using hfits),
          if_neg fun h => hfits ⟨hfree.mp h.1, h.2.1⟩]
        exact hrec best

/-- With an exact fit for a candidate the rest does not matter. -/
theorem findBestFitExhaustiveLoop_exact (size : Nat) (hlinked : Linked (HeapHdr m) p ys 0)
    (hys : ∀ b ∈ ys, 0 < b.addr) {fuel : Nat} (hfuel : ys.length < fuel) (best : Nat) :
    findBestFitExhaustiveLoop m size fuel (headAddr ys 0) best size = some best := by
  induction ys generalizing p fuel with
  | nil =>
      obtain ⟨fuel, rfl⟩ := Nat.exists_eq_add_one_of_ne_zero (Nat.ne_zero_of_lt hfuel)
      rfl
  | cons b ys ih =>
      obtain ⟨fuel, rfl⟩ := Nat.exists_eq_add_one_of_ne_zero (Nat.ne_zero_of_lt hfuel)
      obtain ⟨hsize, -, hnext⟩ := linked_fields hlinked
      obtain ⟨haddr, hys⟩ := List.forall_mem_cons.mp hys
      rw [headAddr_cons, findBestFitExhaustiveLoop, if_neg (Nat.ne_of_gt haddr), hsize, hnext,
        if_neg (by omega)]
      exact ih (linked_cons.mp hlinked).2 hys (Nat.lt_of_succ_lt_succ hfuel)

/-- **The stop at an exact fit** changes nothing. -/
theorem findBestFitLoop_eq_exhaustive (size : Nat) (hlinked : Linked (HeapHdr m) p ys 0)
    (hys : ∀ b ∈ ys, 0 < b.addr) {fuel : Nat} (hfuel : ys.length < fuel) (best bestSize : Nat) :
    findBestFitLoop m size fuel (headAddr ys 0) best bestSize
      = findBestFitExhaustiveLoop m size fuel (headAddr ys 0) best bestSize := by
  induction ys generalizing p fuel best bestSize with
  | nil =>
      obtain ⟨fuel, rfl⟩ := Nat.exists_eq_add_one_of_ne_zero (Nat.ne_zero_of_lt hfuel)
      rfl
  | cons b ys ih =>
      obtain ⟨fuel, rfl⟩ := Nat.exists_eq_add_one_of_ne_zero (Nat.ne_zero_of_lt hfuel)
      obtain ⟨hsize, -, hnext⟩ := linked_fields hlinked
      obtain ⟨haddr, hys⟩ := List.forall_mem_cons.mp hys
      have htail := (linked_cons.mp hlinked).2
      have hfuel' := Nat.lt_of_succ_lt_succ hfuel
      rw [headAddr_cons, findBestFitLoop, findBestFitExhaustiveLoop, if_neg (Nat.ne_of_gt haddr),
        if_neg (Nat.ne_of_gt haddr), hsize, hnext]
      by_cases hfits : blkFree m b.addr ≠ 0 ∧ size ≤ b.size ∧ b.size < bestSize
      · rw [if_pos hfits, if_pos hfits]
        by_cases hexact : b.size = size
        · rw [if_pos hexact, hexact]
          exact (findBestFitExhaustiveLoop_exact _ htail hys hfuel' b.addr).symm
        · rw [if_neg hexact]
          exact ih htail hys hfuel' b.addr b.size
      · rw [if_neg hfits, if_neg hfits]
        exact ih htail hys hfuel' best bestSize

end Search

/-! ### The result -/

section WellFormed

variable {st : HeapState} {bs : List Seg} {b : Seg} {size : Nat}

theorem findBestFit_eq (h : HeapTiled st bs) (size : Nat) :
    findBestFit size st = some (candidateAddr (bestFit size bs)) ∧
      findBestFitExhaustive size st = some (candidateAddr (bestFit size bs)) := by
  have hstart := h.start_pos
  have hend := h.end_lt
  have hlen := h.tiles.length_mul_le
  have hfuel : bs.length < walkFuel := by
    rw [walkFuel]
    omega
  have hys : ∀ b ∈ bs, 0 < b.addr ∧ b.size < sizeMax := by
    intro b hb
    have hbounds := h.tiles.bounds hb
    rw [sizeMax]
    omega
  have hexhaustive := findBestFitExhaustiveLoop_eq size h.linked hys hfuel none
  have hstop := findBestFitLoop_eq_exhaustive size h.linked (fun b hb => (hys b hb).1)
    hfuel (candidateAddr none) (candidateSize none)
  rw [findBestFit, findBestFitExhaustive, h.first]
  exact ⟨hstop.trans hexhaustive, hexhaustive⟩

theorem bestFit_eq_none_iff :
    bestFit size bs = none ↔ ∀ b ∈ bs, b.free = true → b.size < size := by
  rw [bestFit, List.argmin_eq_none, List.filter_eq_nil_iff]
  refine forall₂_congr fun b _ => ?_
  rw [decide_eq_true_iff, Fits, not_and, Nat.not_le]

/-- The best fit is minimal, and the first in the order of addresses. -/
theorem bestFit_spec (hsorted : bs.Pairwise fun a b => a.addr < b.addr)
    (h : bestFit size bs = some b) :
    b ∈ bs ∧ Fits size b ∧ ∀ c ∈ bs, Fits size c →
      b.size ≤ c.size ∧ (c.size = b.size → b.addr ≤ c.addr) := by
  obtain ⟨hb', hmin, hfirst⟩ := List.argmin_eq_some_iff.mp h
  have hmem : ∀ c, c ∈ bs.filter (fun b => Fits size b) ↔ c ∈ bs ∧ Fits size c := by
    intro c
    rw [List.mem_filter, decide_eq_true_iff]
  obtain ⟨hb, hfits⟩ := (hmem b).mp hb'
  refine ⟨hb, hfits, fun c hc hfits => ?_⟩
  have hc' := (hmem c).mpr ⟨hc, hfits⟩
  refine ⟨hmin c hc', fun heq => ?_⟩
  rcases Nat.lt_or_eq_of_le (hfirst c hc' (Nat.le_of_eq heq)) with hlt | hidx
  · have haddr := List.pairwise_iff_getElem.mp (hsorted.filter fun b => Fits size b) _ _
      (List.idxOf_lt_length_of_mem hb') (List.idxOf_lt_length_of_mem hc') hlt
    rw [List.getElem_idxOf, List.getElem_idxOf] at haddr
    exact Nat.le_of_lt haddr
  · exact Nat.le_of_eq (congrArg Seg.addr ((List.idxOf_inj hb').mp hidx))

/-- **The search equals the exhaustive one**: it finds nothing if and only if nothing fits, and
otherwise the first block among the smallest that fit. -/
theorem findBestFit_first (h : HeapTiled st bs) (size : Nat) :
    ∃ r, findBestFit size st = some r ∧ findBestFitExhaustive size st = some r ∧
      (r = 0 ↔ ∀ b ∈ bs, b.free = true → b.size < size) ∧
      (r ≠ 0 → ∃ b ∈ bs, r = b.addr ∧ Fits size b ∧ ∀ c ∈ bs, Fits size c →
        b.size ≤ c.size ∧ (c.size = b.size → b.addr ≤ c.addr)) := by
  obtain ⟨hfind, hexhaustive⟩ := findBestFit_eq h size
  refine ⟨_, hfind, hexhaustive, ?_⟩
  cases hbest : bestFit size bs with
  | none => exact ⟨iff_of_true rfl (bestFit_eq_none_iff.mp hbest), fun hne => absurd rfl hne⟩
  | some b =>
      have hspec := bestFit_spec (h.tiles.pairwise_addr (by decide)) hbest
      have haddr : b.addr ≠ 0 := by
        have hstart := h.start_pos
        have hbounds := h.tiles.bounds hspec.1
        omega
      have hsome : ¬∀ b ∈ bs, b.free = true → b.size < size := fun hnone =>
        absurd (hbest.symm.trans (bestFit_eq_none_iff.mpr hnone)) (Option.some_ne_none b)
      exact ⟨iff_of_false haddr hsome, fun _ => ⟨b, hspec.1, rfl, hspec.2⟩⟩

end WellFormed

/-- A request for 40 bytes where blocks of 96, 48 and 48 bytes are free, and the rest of the
heap: it is the first one of 48. -/
theorem findBestFit_fragments : ∃ os s, Machine.run heapStep fragmentingOps
      ⟨heapInit 0x800000 0x400000 heapBlank, ∅⟩ = some (os, s) ∧
    findBestFit 40 s.heap = some 0x8000A8 ∧
    findBestFitExhaustive 40 s.heap = some 0x8000A8 := by
  obtain ⟨os, s, hrun, hinv⟩ := heapRun_fragments
  obtain ⟨r, hfind, hexhaustive, hnone, hsome⟩ := findBestFit_first hinv.toHeapRepr.tiled 40
  have hne : r ≠ 0 := fun hr => absurd (hnone.mp hr) (by decide)
  obtain ⟨b, hb, rfl, hbest⟩ := hsome hne
  have haddr : ∀ b ∈ fragments, (Fits 40 b ∧ ∀ c ∈ fragments, Fits 40 c →
      b.size ≤ c.size ∧ (c.size = b.size → b.addr ≤ c.addr)) → b.addr = 0x8000A8 := by
    decide
  rw [haddr b hb hbest] at hfind hexhaustive
  exact ⟨os, s, hrun, hfind, hexhaustive⟩

end AceOS.Kernel
