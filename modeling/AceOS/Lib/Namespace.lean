import Mathlib.Data.List.Basic
import Mathlib.Logic.Function.Basic

/-!
# Hierarchical namespaces

A namespace says what lists of names name.  Some kinds of things are nodes: they can
have children.  `Closed` is the law of a tree, `CanAdd` and `CanRemove` say where a
thing may be added and when one may be removed, and both keep the law.
-/

namespace Namespace

variable {ν κ : Type*}

/-- What lists of names name. -/
abbrev Tree (ν κ : Type*) := List ν → Option κ

section Defs

variable (node : κ → Prop) (T : Tree ν κ)

/-- The list before the last name is the top, or names a node. -/
def HasParent (p : List ν) : Prop := p.dropLast = [] ∨ ∃ k, node k ∧ T p.dropLast = some k

/-- Everything has a parent, and the top is nothing. -/
structure Closed : Prop where
  top : T [] = none
  parent : ∀ p, T p ≠ none → HasParent node T p

def Childless (p : List ν) : Prop := ∀ x, T (p ++ [x]) = none

/-- A place for a new thing. -/
structure CanAdd (p : List ν) : Prop where
  ne_nil : p ≠ []
  free : T p = none
  parent : HasParent node T p

/-- A thing that nothing depends on. -/
def CanRemove (p : List ν) : Prop := ∃ k, T p = some k ∧ (node k → Childless T p)

end Defs

variable {node : κ → Prop} {T : Tree ν κ} {p : List ν}

theorem closed_empty : Closed node (fun _ : List ν => none) :=
  ⟨rfl, fun _ h => absurd rfl h⟩

variable [DecidableEq ν]

theorem Closed.add (h : Closed node T) (hp : CanAdd node T p) (k : κ) :
    Closed node (Function.update T p (some k)) where
  top := by
    rw [Function.update_of_ne (Ne.symm hp.ne_nil)]
    exact h.top
  parent := by
    intro q hq
    have hold : HasParent node T q := by
      by_cases hqp : q = p
      · exact hqp ▸ hp.parent
      · rw [Function.update_of_ne hqp] at hq
        exact h.parent q hq
    rcases hold with hnil | ⟨l, hl, hTl⟩
    · exact Or.inl hnil
    · refine Or.inr ⟨l, hl, ?_⟩
      rw [Function.update_of_ne, hTl]
      intro hqp
      rw [hqp, hp.free] at hTl
      exact absurd hTl (by simp)

theorem Closed.remove (h : Closed node T) (hp : CanRemove node T p) :
    Closed node (Function.update T p none) where
  top := by
    by_cases hnil : [] = p
    · rw [← hnil, Function.update_self]
    · rw [Function.update_of_ne hnil]
      exact h.top
  parent := by
    intro q hq
    have hqp : q ≠ p := by
      rintro rfl
      exact hq (Function.update_self ..)
    rw [Function.update_of_ne hqp] at hq
    rcases h.parent q hq with hnil | ⟨l, hl, hTl⟩
    · exact Or.inl hnil
    · refine Or.inr ⟨l, hl, ?_⟩
      rw [Function.update_of_ne, hTl]
      intro hpq
      -- a node with a child is not removed
      obtain ⟨k, hk, hempty⟩ := hp
      rw [← hpq, hTl, Option.some.injEq] at hk
      rcases List.eq_nil_or_concat q with rfl | ⟨q', x, rfl⟩
      · rw [List.dropLast_nil] at hTl
        rw [h.top] at hTl
        exact absurd hTl (by simp)
      · rw [List.concat_eq_append, List.dropLast_concat] at hpq
        rw [List.concat_eq_append, hpq] at hq
        exact hq (hempty (hk ▸ hl) x)

end Namespace
