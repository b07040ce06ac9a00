import AceOS.Lib.Allocator
import Mathlib.Data.Set.Insert

/-!
# A client and its blocks

`Holdings` are the blocks a client has got from an allocator and not given back, with
their contents.  `Serves` is what the client may rely on as long as it only gives back
and writes what it holds: a lawful allocator serves (`Lawful.serves`), and so does any
allocator that never returns a live pointer, with a ledger that checks the client
(`Fresh.serves`).

`Accounts` relates the holdings to the client's own records: every record with a block
has one of its own, and every block is recorded or in hand.
-/

namespace Memory

universe u

/-- The blocks a client holds, with their contents. -/
abbrev Holdings := Nat → Option (List UInt8)

namespace Allocator

variable {σ : Type u}

/-- What every call does to the holdings, `I` being what is known of the allocator. -/
structure Serves (A : Allocator σ) (I : Holdings → σ → Mem → Prop) : Prop where
  malloc_zero : ∀ H n s m, I H s m → (A.malloc n s m).1 = 0 →
    I H (A.malloc n s m).2.1 (A.malloc n s m).2.2
  malloc_block : ∀ H n s m, I H s m → (A.malloc n s m).1 ≠ 0 → H (A.malloc n s m).1 = none ∧
    ∃ bs, bs.length = n ∧ I (Function.update H (A.malloc n s m).1 (some bs))
      (A.malloc n s m).2.1 (A.malloc n s m).2.2
  free : ∀ H p bs s m, I H s m → H p = some bs →
    I (Function.update H p none) (A.free p s m).1 (A.free p s m).2
  store : ∀ H p bs data s m, I H s m → H p = some bs → data.length = bs.length →
    I (Function.update H p (some data)) s (storeBytes m p data)

/-! ### Lawful allocators -/

/-- The holdings are live blocks, apart from each other, with these contents. -/
structure Holds (blocks : σ → Nat → Option Nat) (H : Holdings) (s : σ) (m : Mem) : Prop where
  pos : ∀ p bs, H p = some bs → p ≠ 0
  live : ∀ p bs, H p = some bs → ∃ l, blocks s p = some l ∧ bs.length ≤ l
  apart : ∀ p q bs cs, H p = some bs → H q = some cs → p ≠ q →
    p + bs.length ≤ q ∨ q + cs.length ≤ p
  contents : ∀ p bs, H p = some bs → loadBytes m p bs.length = bs

variable {A : Allocator σ} {blocks : σ → Nat → Option Nat}

theorem KeepsBlocks.loadBytes_eq {blocks : Nat → Option Nat} {p q l n : Nat} {m m' : Mem}
    (h : KeepsBlocks blocks p m m') (hq : q ≠ p) (hl : blocks q = some l) (hn : n ≤ l) :
    loadBytes m' q n = loadBytes m q n := by
  refine loadBytes_congr ?_
  intro x h₁ h₂
  exact h q l hq hl x h₁ (Nat.lt_of_lt_of_le h₂ (Nat.add_le_add_left hn q))

theorem update_some_cases {H : Holdings} {p q : Nat} {data cs : List UInt8}
    (hq : Function.update H p (some data) q = some cs) :
    (q = p ∧ cs = data) ∨ (q ≠ p ∧ H q = some cs) := by
  by_cases hqp : q = p
  · rw [hqp, Function.update_self, Option.some.injEq] at hq
    exact Or.inl ⟨hqp, hq.symm⟩
  · rw [Function.update_of_ne hqp] at hq
    exact Or.inr ⟨hqp, hq⟩

theorem update_none_cases {H : Holdings} {p q : Nat} {cs : List UInt8}
    (hq : Function.update H p none q = some cs) : q ≠ p ∧ H q = some cs := by
  by_cases hqp : q = p
  · rw [hqp, Function.update_self] at hq
    exact absurd hq (by simp)
  · rw [Function.update_of_ne hqp] at hq
    exact ⟨hqp, hq⟩

namespace Holds

variable {H : Holdings} {s : σ} {m : Mem} {p n : Nat} {bs data : List UInt8}

theorem malloc_zero (hH : Holds blocks H s m) (h : A.Lawful blocks)
    (hz : (A.malloc n s m).1 = 0) : Holds blocks H (A.malloc n s m).2.1 (A.malloc n s m).2.2 := by
  have hblocks := h.malloc_fail n s m hz
  refine ⟨hH.pos, ?_, hH.apart, ?_⟩
  · rw [hblocks]
    exact hH.live
  · intro p bs hp
    obtain ⟨l, hl, hle⟩ := hH.live p bs hp
    rw [(h.malloc_keeps n s m).loadBytes_eq (hH.pos p bs hp) hl hle]
    exact hH.contents p bs hp

theorem malloc_block (hH : Holds blocks H s m) (h : A.Lawful blocks)
    (hne : (A.malloc n s m).1 ≠ 0) : H (A.malloc n s m).1 = none ∧
      ∃ bs, bs.length = n ∧ Holds blocks (Function.update H (A.malloc n s m).1 (some bs))
        (A.malloc n s m).2.1 (A.malloc n s m).2.2 := by
  obtain ⟨k, hnk, hfree, hblocks, hapart⟩ := h.malloc_block n s m hne
  have hkeeps := h.malloc_keeps n s m
  generalize A.malloc n s m = r at hne hfree hblocks hapart hkeeps
  have hnone : H r.1 = none := by
    cases hr : H r.1 with
    | none => rfl
    | some bs =>
        obtain ⟨l, hl, -⟩ := hH.live r.1 bs hr
        rw [hfree] at hl
        exact absurd hl (by simp)
  -- the new block lies beside every old one
  have hnew : ∀ q cs, H q = some cs → r.1 + n ≤ q ∨ q + cs.length ≤ r.1 := by
    intro q cs hq
    obtain ⟨l, hl, hle⟩ := hH.live q cs hq
    rcases hapart q l hl with h₁ | h₁
    · exact Or.inl (by omega)
    · exact Or.inr (by omega)
  refine ⟨hnone, loadBytes r.2.2 r.1 n, loadBytes_length .., ?_, ?_, ?_, ?_⟩
  · intro q cs hq
    rcases update_some_cases hq with ⟨rfl, -⟩ | ⟨-, hq⟩
    · exact hne
    · exact hH.pos q cs hq
  · intro q cs hq
    rw [hblocks]
    rcases update_some_cases hq with ⟨rfl, rfl⟩ | ⟨hqr, hq⟩
    · rw [Function.update_self, loadBytes_length]
      exact ⟨k, rfl, hnk⟩
    · rw [Function.update_of_ne hqr]
      exact hH.live q cs hq
  · intro p q bs cs hp hq hpq
    rcases update_some_cases hp with ⟨rfl, rfl⟩ | ⟨hpr, hp⟩
    · rcases update_some_cases hq with ⟨rfl, -⟩ | ⟨-, hq⟩
      · exact absurd rfl hpq
      · rw [loadBytes_length]
        exact hnew q cs hq
    · rcases update_some_cases hq with ⟨rfl, rfl⟩ | ⟨-, hq⟩
      · rw [loadBytes_length]
        exact (hnew p bs hp).symm
      · exact hH.apart p q bs cs hp hq hpq
  · intro q cs hq
    rcases update_some_cases hq with ⟨rfl, rfl⟩ | ⟨-, hq⟩
    · rw [loadBytes_length]
    · obtain ⟨l, hl, hle⟩ := hH.live q cs hq
      rw [hkeeps.loadBytes_eq (hH.pos q cs hq) hl hle]
      exact hH.contents q cs hq

theorem free (hH : Holds blocks H s m) (h : A.Lawful blocks) (p : Nat) :
    Holds blocks (Function.update H p none) (A.free p s m).1 (A.free p s m).2 := by
  have hblocks := h.free_blocks p s m
  have hkeeps := h.free_keeps p s m
  generalize A.free p s m = r at hblocks hkeeps
  refine ⟨?_, ?_, ?_, ?_⟩
  · intro q cs hq
    exact hH.pos q cs (update_none_cases hq).2
  · intro q cs hq
    obtain ⟨hqp, hq⟩ := update_none_cases hq
    rw [hblocks, Function.update_of_ne hqp]
    exact hH.live q cs hq
  · intro q q' cs cs' hq hq'
    exact hH.apart q q' cs cs' (update_none_cases hq).2 (update_none_cases hq').2
  · intro q cs hq
    obtain ⟨hqp, hq⟩ := update_none_cases hq
    obtain ⟨l, hl, hle⟩ := hH.live q cs hq
    rw [hkeeps.loadBytes_eq hqp hl hle]
    exact hH.contents q cs hq

theorem store (hH : Holds blocks H s m) (hp : H p = some bs) (hlen : data.length = bs.length) :
    Holds blocks (Function.update H p (some data)) s (storeBytes m p data) := by
  refine ⟨?_, ?_, ?_, ?_⟩
  · intro q cs hq
    rcases update_some_cases hq with ⟨rfl, -⟩ | ⟨-, hq⟩
    · exact hH.pos q bs hp
    · exact hH.pos q cs hq
  · intro q cs hq
    rcases update_some_cases hq with ⟨rfl, rfl⟩ | ⟨-, hq⟩
    · rw [hlen]
      exact hH.live q bs hp
    · exact hH.live q cs hq
  · intro q q' cs cs' hq hq' hne
    rcases update_some_cases hq with ⟨rfl, rfl⟩ | ⟨hqp, hq₀⟩
    · rcases update_some_cases hq' with ⟨rfl, -⟩ | ⟨-, hq'⟩
      · exact absurd rfl hne
      · rw [hlen]
        exact hH.apart q q' bs cs' hp hq' hne
    · rcases update_some_cases hq' with ⟨rfl, rfl⟩ | ⟨-, hq'⟩
      · rw [hlen]
        exact hH.apart q q' cs bs hq₀ hp hne
      · exact hH.apart q q' cs cs' hq₀ hq' hne
  · intro q cs hq
    rcases update_some_cases hq with ⟨rfl, rfl⟩ | ⟨hqp, hq⟩
    · rw [loadBytes_storeBytes _ _ _ _ (Nat.le_refl _), List.take_length]
    · have hoff := hH.apart q p cs bs hq hp hqp
      have hsame : loadBytes (storeBytes m p data) q cs.length = loadBytes m q cs.length := by
        refine loadBytes_congr ?_
        intro x h₁ h₂
        exact storeBytes_of_disjoint (by omega)
      rw [hsame, hH.contents q cs hq]

end Holds

/-- **A lawful allocator serves its client.** -/
theorem Lawful.serves (h : A.Lawful blocks) : A.Serves (Holds blocks) where
  malloc_zero := fun _ _ _ _ hH hz => hH.malloc_zero h hz
  malloc_block := fun _ _ _ _ hH hne => hH.malloc_block h hne
  free := fun _ p _ _ _ hH _ => hH.free h p
  store := fun _ _ _ _ _ _ hH hp hlen => hH.store hp hlen

/-! ### Ledgers -/

/-- No call returns a live pointer. -/
structure Fresh (A : Allocator σ) (live : σ → Set Nat) : Prop where
  malloc_zero : ∀ n s m, (A.malloc n s m).1 = 0 → live (A.malloc n s m).2.1 = live s
  malloc_live : ∀ n s m, (A.malloc n s m).1 ≠ 0 → (A.malloc n s m).1 ∉ live s ∧
    live (A.malloc n s m).2.1 = insert (A.malloc n s m).1 (live s)
  free : ∀ p s m, live (A.free p s m).1 = live s \ {p}

theorem Lawful.fresh (h : A.Lawful blocks) : A.Fresh fun s => {p | blocks s p ≠ none} where
  malloc_zero := by
    intro n s m hz
    rw [h.malloc_fail n s m hz]
  malloc_live := by
    intro n s m hne
    obtain ⟨k, -, hfree, hblocks, -⟩ := h.malloc_block n s m hne
    refine ⟨not_not.mpr hfree, ?_⟩
    ext p
    rw [hblocks, Set.mem_insert_iff, Set.mem_ofPred_eq, Set.mem_ofPred_eq]
    by_cases hp : p = (A.malloc n s m).1
    · rw [hp, Function.update_self]
      simp
    · rw [Function.update_of_ne hp, or_iff_right hp]
  free := by
    intro p s m
    ext q
    rw [h.free_blocks, Set.mem_sdiff, Set.mem_singleton_iff, Set.mem_ofPred_eq, Set.mem_ofPred_eq]
    by_cases hq : q = p
    · rw [hq, Function.update_self]
      simp
    · rw [Function.update_of_ne hq, and_iff_left hq]

/-- What a client has got and not given back; `clean` is lost with the first `free` of
something else. -/
structure Ledger where
  held : List Nat
  clean : Bool
  deriving DecidableEq, Repr

/-- The same allocator, with a ledger of the client. -/
def track (A : Allocator σ) : Allocator (σ × Ledger) where
  malloc n s m :=
    let r := A.malloc n s.1 m
    (r.1, (r.2.1, if r.1 = 0 then s.2 else { s.2 with held := r.1 :: s.2.held }), r.2.2)
  free p s m :=
    let r := A.free p s.1 m
    ((r.1, ⟨s.2.held.erase p, s.2.clean && decide (p ∈ s.2.held)⟩), r.2)

/-- The ledger says what the client holds, and found nothing wrong. -/
structure Ledgered (live : σ → Set Nat) (H : Holdings) (s : σ × Ledger) : Prop where
  clean : s.2.clean = true
  nodup : s.2.held.Nodup
  live : ∀ p ∈ s.2.held, p ∈ live s.1
  mem_held : ∀ p, p ∈ s.2.held ↔ H p ≠ none

/-- **A fresh allocator with a ledger serves its client.** -/
theorem Fresh.serves {live : σ → Set Nat} (h : A.Fresh live) :
    A.track.Serves fun H s _ => Ledgered live H s where
  malloc_zero := by
    intro H n s m hH hz
    have hlive := h.malloc_zero n s.1 m hz
    dsimp only [track] at hz ⊢
    rw [if_pos hz]
    refine ⟨hH.clean, hH.nodup, ?_, hH.mem_held⟩
    intro p hp
    rw [hlive]
    exact hH.live p hp
  malloc_block := by
    intro H n s m hH hne
    obtain ⟨hnew, hlive⟩ := h.malloc_live n s.1 m hne
    dsimp only [track] at hne ⊢
    generalize A.malloc n s.1 m = r at hne hnew hlive ⊢
    have hnotin : r.1 ∉ s.2.held := fun hmem => hnew (hH.live r.1 hmem)
    refine ⟨?_, List.replicate n 0, List.length_replicate, ?_⟩
    · by_contra hcon
      exact hnotin ((hH.mem_held r.1).mpr hcon)
    · rw [if_neg hne]
      refine ⟨hH.clean, List.nodup_cons.mpr ⟨hnotin, hH.nodup⟩, ?_, ?_⟩
      · intro p hp
        rw [hlive]
        rcases List.mem_cons.mp hp with rfl | hp
        · exact Set.mem_insert _ _
        · exact Set.mem_insert_of_mem _ (hH.live p hp)
      · intro p
        by_cases hpr : p = r.1
        · subst hpr
          rw [Function.update_self]
          simp
        · rw [Function.update_of_ne hpr, List.mem_cons, or_iff_right hpr]
          exact hH.mem_held p
  free := by
    intro H p bs s m hH hp
    have hmem : p ∈ s.2.held := (hH.mem_held p).mpr (by simp [hp])
    have hlive := h.free p s.1 m
    dsimp only [track] at hlive ⊢
    refine ⟨?_, hH.nodup.erase p, ?_, ?_⟩
    · simp [hH.clean, hmem]
    · intro q hq
      obtain ⟨hqp, hq⟩ := (hH.nodup.mem_erase_iff).mp hq
      rw [hlive]
      exact ⟨hH.live q hq, hqp⟩
    · intro q
      rw [hH.nodup.mem_erase_iff]
      by_cases hqp : q = p
      · subst hqp
        rw [Function.update_self]
        simp
      · rw [Function.update_of_ne hqp, ← hH.mem_held q, and_iff_right hqp]
  store := by
    intro H p bs data s m hH hp hlen
    refine ⟨hH.clean, hH.nodup, hH.live, ?_⟩
    intro q
    rw [hH.mem_held q]
    by_cases hqp : q = p
    · subst hqp
      rw [Function.update_self, hp]
      simp
    · rw [Function.update_of_ne hqp]

end Allocator

/-! ### Records -/

/-- The block of each record: its address and its size. -/
abbrev Owners (ι : Type u) := ι → Option (Nat × Nat)

/-- Every recorded block is held and has one record, and the other blocks held are in
hand. -/
structure Accounts {ι : Type u} (v : Owners ι) (H : Holdings) (hand : Set Nat) : Prop where
  held : ∀ i p n, v i = some (p, n) → ∃ bs, H p = some bs ∧ bs.length = n
  distinct : ∀ i j p n n', v i = some (p, n) → v j = some (p, n') → i = j
  apart : ∀ i p n, v i = some (p, n) → p ∉ hand
  only : ∀ p, H p ≠ none → p ∈ hand ∨ ∃ i n, v i = some (p, n)
  hand_held : ∀ p ∈ hand, H p ≠ none

namespace Accounts

variable {ι : Type u} {v : Owners ι} {H : Holdings} {hand : Set Nat} {p n : Nat} {i : ι}
  {bs data : List UInt8}

theorem take (h : Accounts v H hand) (hp : H p = none) :
    Accounts v (Function.update H p (some bs)) (insert p hand) where
  held := by
    intro j q k hj
    obtain ⟨cs, hq, hlen⟩ := h.held j q k hj
    have hqp : q ≠ p := by
      rintro rfl
      rw [hp] at hq
      exact absurd hq (by simp)
    exact ⟨cs, by rw [Function.update_of_ne hqp]; exact hq, hlen⟩
  distinct := h.distinct
  apart := by
    intro j q k hj hmem
    obtain ⟨cs, hq, -⟩ := h.held j q k hj
    rcases hmem with rfl | hmem
    · rw [hp] at hq
      exact absurd hq (by simp)
    · exact h.apart j q k hj hmem
  only := by
    intro q hq
    by_cases hqp : q = p
    · exact Or.inl (Or.inl hqp)
    · rw [Function.update_of_ne hqp] at hq
      exact (h.only q hq).imp_left Or.inr
  hand_held := by
    intro q hq
    by_cases hqp : q = p
    · rw [hqp, Function.update_self]
      simp
    · rw [Function.update_of_ne hqp]
      exact h.hand_held q (hq.resolve_left hqp)

theorem drop (h : Accounts v H (insert p hand)) (hp : p ∉ hand) :
    Accounts v (Function.update H p none) hand where
  held := by
    intro j q k hj
    obtain ⟨cs, hq, hlen⟩ := h.held j q k hj
    have hqp : q ≠ p := by
      rintro rfl
      exact h.apart j q k hj (Or.inl rfl)
    exact ⟨cs, by rw [Function.update_of_ne hqp]; exact hq, hlen⟩
  distinct := h.distinct
  apart := by
    intro j q k hj hmem
    exact h.apart j q k hj (Or.inr hmem)
  only := by
    intro q hq
    have hqp : q ≠ p := by
      rintro rfl
      exact hq (Function.update_self ..)
    rw [Function.update_of_ne hqp] at hq
    exact (h.only q hq).imp_left fun hmem => hmem.resolve_left hqp
  hand_held := by
    intro q hq
    have hqp : q ≠ p := by
      rintro rfl
      exact hp hq
    rw [Function.update_of_ne hqp]
    exact h.hand_held q (Or.inr hq)

theorem store (h : Accounts v H hand) (hp : H p = some bs) (hlen : data.length = bs.length) :
    Accounts v (Function.update H p (some data)) hand where
  held := by
    intro j q k hj
    obtain ⟨cs, hq, hk⟩ := h.held j q k hj
    by_cases hqp : q = p
    · subst hqp
      rw [hp, Option.some.injEq] at hq
      subst hq
      exact ⟨data, Function.update_self .., hlen.trans hk⟩
    · exact ⟨cs, by rw [Function.update_of_ne hqp]; exact hq, hk⟩
  distinct := h.distinct
  apart := h.apart
  only := by
    intro q hq
    refine h.only q ?_
    by_cases hqp : q = p
    · simp [hqp, hp]
    · rwa [Function.update_of_ne hqp] at hq
  hand_held := by
    intro q hq
    by_cases hqp : q = p
    · rw [hqp, Function.update_self]
      simp
    · rw [Function.update_of_ne hqp]
      exact h.hand_held q hq

variable [DecidableEq ι]

theorem adopt (h : Accounts v H (insert p hand)) (hp : p ∉ hand) (hi : v i = none)
    (hbs : H p = some bs) (hlen : bs.length = n) :
    Accounts (Function.update v i (some (p, n))) H hand where
  held := by
    intro j q k hj
    by_cases hji : j = i
    · rw [hji, Function.update_self, Option.some.injEq, Prod.mk.injEq] at hj
      exact ⟨bs, hj.1 ▸ hbs, hlen.trans hj.2⟩
    · rw [Function.update_of_ne hji] at hj
      exact h.held j q k hj
  distinct := by
    intro j j' q k k' hj hj'
    by_cases hji : j = i
    · by_cases hji' : j' = i
      · rw [hji, hji']
      · rw [hji, Function.update_self, Option.some.injEq, Prod.mk.injEq] at hj
        rw [Function.update_of_ne hji'] at hj'
        exact absurd (Or.inl hj.1.symm) (h.apart j' q k' hj')
    · rw [Function.update_of_ne hji] at hj
      by_cases hji' : j' = i
      · rw [hji', Function.update_self, Option.some.injEq, Prod.mk.injEq] at hj'
        exact absurd (Or.inl hj'.1.symm) (h.apart j q k hj)
      · rw [Function.update_of_ne hji'] at hj'
        exact h.distinct j j' q k k' hj hj'
  apart := by
    intro j q k hj hmem
    by_cases hji : j = i
    · rw [hji, Function.update_self, Option.some.injEq, Prod.mk.injEq] at hj
      exact hp (hj.1 ▸ hmem)
    · rw [Function.update_of_ne hji] at hj
      exact h.apart j q k hj (Or.inr hmem)
  only := by
    intro q hq
    rcases h.only q hq with (rfl | hmem) | ⟨j, k, hj⟩
    · exact Or.inr ⟨i, n, Function.update_self ..⟩
    · exact Or.inl hmem
    · refine Or.inr ⟨j, k, ?_⟩
      rw [Function.update_of_ne, hj]
      rintro rfl
      rw [hi] at hj
      exact absurd hj (by simp)
  hand_held := by
    intro q hq
    exact h.hand_held q (Or.inr hq)

theorem release (h : Accounts v H hand) (hi : v i = some (p, n)) :
    Accounts (Function.update v i none) H (insert p hand) where
  held := by
    intro j q k hj
    by_cases hji : j = i
    · rw [hji, Function.update_self] at hj
      exact absurd hj (by simp)
    · rw [Function.update_of_ne hji] at hj
      exact h.held j q k hj
  distinct := by
    intro j j' q k k' hj hj'
    by_cases hji : j = i
    · rw [hji, Function.update_self] at hj
      exact absurd hj (by simp)
    · by_cases hji' : j' = i
      · rw [hji', Function.update_self] at hj'
        exact absurd hj' (by simp)
      · rw [Function.update_of_ne hji] at hj
        rw [Function.update_of_ne hji'] at hj'
        exact h.distinct j j' q k k' hj hj'
  apart := by
    intro j q k hj hmem
    by_cases hji : j = i
    · rw [hji, Function.update_self] at hj
      exact absurd hj (by simp)
    · rw [Function.update_of_ne hji] at hj
      rcases hmem with rfl | hmem
      · exact hji (h.distinct j i q k n hj hi)
      · exact h.apart j q k hj hmem
  only := by
    intro q hq
    rcases h.only q hq with hmem | ⟨j, k, hj⟩
    · exact Or.inl (Or.inr hmem)
    · by_cases hji : j = i
      · rw [hji, hi, Option.some.injEq, Prod.mk.injEq] at hj
        exact Or.inl (Or.inl hj.1.symm)
      · exact Or.inr ⟨j, k, by rw [Function.update_of_ne hji]; exact hj⟩
  hand_held := by
    rintro q (rfl | hq)
    · obtain ⟨bs, hbs, -⟩ := h.held i q n hi
      simp [hbs]
    · exact h.hand_held q hq

end Accounts

end Memory
