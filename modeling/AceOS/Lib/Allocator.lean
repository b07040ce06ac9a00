import AceOS.Lib.Memory
import Mathlib.Logic.Function.Basic

/-!
# Allocators

An allocator is a pair of calls over a private state and the memory it hands out
pieces of.  `Lawful blocks` is the contract callers rely on, with the live blocks as
a partial map from addresses to sizes: an allocation is refused or gives a new block
of at least the size asked for, disjoint from every live block; a release ends one
block; and neither call touches the bytes of the other live blocks.
-/

namespace Memory

universe u

/-- The two calls: `malloc size` and `free ptr`. -/
structure Allocator (σ : Type u) where
  malloc : Nat → σ → Mem → Nat × σ × Mem
  free : Nat → σ → Mem → σ × Mem

namespace Allocator

variable {σ : Type u}

/-- Two memories agree on the live blocks other than `p`. -/
def KeepsBlocks (blocks : Nat → Option Nat) (p : Nat) (m m' : Mem) : Prop :=
  ∀ q l, q ≠ p → blocks q = some l → ∀ x, q ≤ x → x < q + l → m' x = m x

/-- The contract, `blocks` being the live blocks of a state. -/
structure Lawful (A : Allocator σ) (blocks : σ → Nat → Option Nat) : Prop where
  malloc_fail : ∀ n s m, (A.malloc n s m).1 = 0 → blocks (A.malloc n s m).2.1 = blocks s
  malloc_block : ∀ n s m, (A.malloc n s m).1 ≠ 0 →
    ∃ k, n ≤ k ∧ blocks s (A.malloc n s m).1 = none ∧
      blocks (A.malloc n s m).2.1 = Function.update (blocks s) (A.malloc n s m).1 (some k) ∧
      ∀ q l, blocks s q = some l →
        (A.malloc n s m).1 + k ≤ q ∨ q + l ≤ (A.malloc n s m).1
  malloc_keeps : ∀ n s m, KeepsBlocks (blocks s) 0 m (A.malloc n s m).2.2
  free_blocks : ∀ p s m, blocks (A.free p s m).1 = Function.update (blocks s) p none
  free_keeps : ∀ p s m, KeepsBlocks (blocks s) p m (A.free p s m).2

/-- The same allocator for a client whose requests above `limit` are refused. -/
def limited (limit : Nat) (A : Allocator σ) : Allocator σ where
  malloc := fun n s m => if n ≤ limit then A.malloc n s m else (0, s, m)
  free := A.free

theorem limited_malloc {A : Allocator σ} {limit n : Nat} (h : n ≤ limit) (s : σ) (m : Mem) :
    (limited limit A).malloc n s m = A.malloc n s m := if_pos h

/-! ### A bump allocator -/

/-- The first free address, and the live blocks, all below it. -/
structure Bump where
  next : Nat
  blocks : Nat → Option Nat
  below : ∀ p l, blocks p = some l → p + l ≤ next
  fresh : ∀ p, next ≤ p → blocks p = none
  pos : 0 < next

/-- Nothing is used twice, and one byte is left out after each block. -/
def Bump.malloc (n : Nat) (s : Bump) : Bump where
  next := s.next + n + 1
  blocks := Function.update s.blocks s.next (some n)
  below := by
    intro p l hp
    by_cases hpn : p = s.next
    · rw [hpn, Function.update_self, Option.some.injEq] at hp
      omega
    · rw [Function.update_of_ne hpn] at hp
      have hle := s.below p l hp
      omega
  fresh := by
    intro p hp
    rw [Function.update_of_ne (by omega)]
    exact s.fresh p (by omega)
  pos := Nat.succ_pos _

def Bump.free (p : Nat) (s : Bump) : Bump where
  next := s.next
  blocks := Function.update s.blocks p none
  below := by
    intro q l hq
    by_cases hqp : q = p
    · rw [hqp, Function.update_self] at hq
      exact absurd hq (by simp)
    · rw [Function.update_of_ne hqp] at hq
      exact s.below q l hq
  fresh := by
    intro q hq
    by_cases hqp : q = p
    · rw [hqp, Function.update_self]
    · rw [Function.update_of_ne hqp]
      exact s.fresh q hq
  pos := s.pos

def Bump.empty : Bump := ⟨1, fun _ => none, by simp, fun _ _ => rfl, Nat.one_pos⟩

def bump : Allocator Bump :=
  ⟨fun n s m => (s.next, s.malloc n, m), fun p s m => (s.free p, m)⟩

theorem bump_lawful : bump.Lawful Bump.blocks where
  malloc_fail := by
    intro n s m hz
    exact absurd hz (Nat.ne_of_gt s.pos)
  malloc_block := by
    intro n s m _
    refine ⟨n, Nat.le_refl n, s.fresh _ (Nat.le_refl _), rfl, ?_⟩
    intro q l hq
    exact Or.inr (s.below q l hq)
  malloc_keeps := fun _ _ _ _ _ _ _ _ _ _ => rfl
  free_blocks := fun _ _ _ => rfl
  free_keeps := fun _ _ _ _ _ _ _ _ _ _ => rfl

/-- The same, with the addresses below `limit` only. -/
def bumpBelow (limit : Nat) : Allocator Bump where
  malloc := fun n s m => if s.next + n < limit then bump.malloc n s m else (0, s, m)
  free := bump.free

theorem bumpBelow_lawful (limit : Nat) : (bumpBelow limit).Lawful Bump.blocks where
  malloc_fail := by
    intro n s m hz
    rw [bumpBelow] at hz ⊢
    dsimp only at hz ⊢
    split at hz <;> rename_i hfits
    · exact absurd hz (Nat.ne_of_gt s.pos)
    · rw [if_neg hfits]
  malloc_block := by
    intro n s m hne
    rw [bumpBelow] at hne ⊢
    dsimp only at hne ⊢
    split at hne <;> rename_i hfits
    · rw [if_pos hfits]
      exact bump_lawful.malloc_block n s m hne
    · exact absurd rfl hne
  malloc_keeps := by
    intro n s m
    rw [bumpBelow]
    dsimp only
    split
    · exact bump_lawful.malloc_keeps n s m
    · exact fun _ _ _ _ _ _ _ => rfl
  free_blocks := bump_lawful.free_blocks
  free_keeps := bump_lawful.free_keeps

end Allocator

end Memory
