import Mathlib.Data.List.Nodup
import Mathlib.Data.List.Rotate
import Mathlib.Logic.Function.Basic

/-!
# Queues linked through their nodes

A queue of nodes that carry the link themselves: `next` is the link field of every node,
`head`, `tail` and `count` are kept beside it.  `Represents next head tail count q` says
that they are the list `q`; the three operations are read as operations on `q`
(`Represents.pop`, `Represents.push`, `Represents.remove`).
-/

namespace LinkedQueue

universe u

variable {P : Type u}

/-- Following `next` from `h` meets the nodes of `q` and ends. -/
def Linked (next : P → Option P) : Option P → List P → Prop
  | h, [] => h = none
  | h, p :: q => h = some p ∧ Linked next (next p) q

/-- The nodes met in the first `n` steps. -/
def follow (next : P → Option P) : (n : Nat) → Option P → List P
  | 0, _ => []
  | _ + 1, none => []
  | n + 1, some p => p :: follow next n (next p)

structure Represents (next : P → Option P) (head tail : Option P) (count : Nat) (q : List P) :
    Prop where
  linked : Linked next head q
  tail_eq : tail = q.getLast?
  count_eq : count = q.length
  nodup : q.Nodup

/-! ### Links -/

section Linked

variable {next next' : P → Option P} {h : Option P} {p : P} {q r : List P}

@[simp] theorem linked_nil : Linked next h [] ↔ h = none := Iff.rfl

@[simp] theorem linked_cons :
    Linked next h (p :: q) ↔ h = some p ∧ Linked next (next p) q := Iff.rfl

theorem Linked.head_eq (hl : Linked next h q) : h = q.head? := by
  cases q with
  | nil => exact hl
  | cons p q => exact hl.1

theorem Linked.congr (hn : ∀ x ∈ q, next' x = next x) (hl : Linked next h q) :
    Linked next' h q := by
  induction q generalizing h with
  | nil => exact hl
  | cons p q ih =>
      refine ⟨hl.1, ?_⟩
      rw [hn p (List.mem_cons_self ..)]
      exact ih (fun x hx => hn x (List.mem_cons_of_mem p hx)) hl.2

theorem follow_eq (hl : Linked next h q) : follow next q.length h = q := by
  induction q generalizing h with
  | nil => rfl
  | cons p q ih => rw [hl.1, List.length_cons, follow, ih hl.2]

theorem follow_length_le (next : P → Option P) (n : Nat) (h : Option P) :
    (follow next n h).length ≤ n := by
  induction n generalizing h with
  | zero => exact Nat.le_refl 0
  | succ n ih =>
      cases h with
      | none => exact Nat.zero_le _
      | some p => exact Nat.succ_le_succ (ih (next p))

theorem follow_eq_take (hl : Linked next h q) (n : Nat) : follow next n h = q.take n := by
  induction n generalizing h q with
  | zero => rfl
  | succ n ih =>
      cases q with
      | nil =>
          obtain rfl : h = none := hl
          rfl
      | cons p q => rw [hl.1, follow, ih hl.2, List.take_succ_cons]

theorem linked_follow {n : Nat} (hlt : (follow next n h).length < n) :
    Linked next h (follow next n h) := by
  induction n generalizing h with
  | zero => exact absurd hlt (Nat.not_lt_zero _)
  | succ n ih =>
      cases h with
      | none => exact rfl
      | some p => exact ⟨rfl, ih (Nat.lt_of_succ_lt_succ hlt)⟩

theorem Linked.unique (hl : Linked next h q) (hl' : Linked next h r) : q = r := by
  induction q generalizing h r with
  | nil =>
      obtain rfl : h = none := hl
      exact (List.head?_eq_none_iff.mp hl'.head_eq.symm).symm
  | cons p q ih =>
      cases r with
      | nil =>
          rw [hl.1] at hl'
          exact absurd hl' (Option.some_ne_none p)
      | cons p' r =>
          obtain rfl : p = p' := Option.some.inj (hl.1.symm.trans hl'.1)
          rw [ih hl.2 hl'.2]

/-- What is linked behind a node of a list is the rest of the list. -/
theorem Linked.suffix (hl : Linked next h (q ++ p :: r)) : Linked next (next p) r := by
  induction q generalizing h with
  | nil => exact hl.2
  | cons a q ih => exact ih hl.2

/-- **No node is met twice** on the way to the end. -/
theorem Linked.nodup (hl : Linked next h q) : q.Nodup := by
  induction q generalizing h with
  | nil => exact List.nodup_nil
  | cons p q ih =>
      refine List.nodup_cons.mpr ⟨fun hp => ?_, ih hl.2⟩
      obtain ⟨a, b, rfl⟩ := List.append_of_mem hp
      have hlen := congrArg List.length (hl.2.unique hl.2.suffix)
      rw [List.length_append, List.length_cons] at hlen
      omega

/-- Following `next` from `h` meets some node twice. -/
def Cyclic (next : P → Option P) (h : Option P) : Prop := ∃ n, ¬(follow next n h).Nodup

theorem Cyclic.not_linked (hc : Cyclic next h) : ¬∃ q, Linked next h q := by
  rintro ⟨q, hl⟩
  obtain ⟨n, hn⟩ := hc
  rw [follow_eq_take hl] at hn
  exact hn (hl.nodup.sublist (List.take_sublist n q))

theorem Represents.follow_eq {tail : Option P} {count : Nat}
    (hr : Represents next h tail count q) : follow next count h = q := by
  rw [hr.count_eq, LinkedQueue.follow_eq hr.linked]

theorem Represents.head_eq_none {tail : Option P} {count : Nat}
    (hr : Represents next h tail count q) : h = none ↔ count = 0 := by
  rw [hr.linked.head_eq, hr.count_eq, List.head?_eq_none_iff, List.length_eq_zero_iff]

theorem Represents.tail_eq_none {tail : Option P} {count : Nat}
    (hr : Represents next h tail count q) : tail = none ↔ count = 0 := by
  rw [hr.tail_eq, hr.count_eq, List.getLast?_eq_none_iff, List.length_eq_zero_iff]

theorem represents_nil : Represents next none none 0 [] := ⟨rfl, rfl, rfl, List.nodup_nil⟩

end Linked

variable [DecidableEq P] {next : P → Option P} {head tail : Option P} {count : Nat} {p : P}
  {q a b : List P}

theorem Linked.update {h : Option P} (hp : p ∉ q) (v : Option P) (hl : Linked next h q) :
    Linked (Function.update next p v) h q := by
  refine hl.congr ?_
  intro x hx
  rw [Function.update_of_ne]
  rintro rfl
  exact hp hx

/-! ### Operations -/

theorem Represents.pop (h : Represents next head tail count (p :: q)) : head = some p ∧
    Represents (Function.update next p none) (next p) (if next p = none then none else tail)
      (count - 1) q := by
  obtain ⟨hp, hq⟩ := List.nodup_cons.mp h.nodup
  obtain ⟨hhead, hlinked⟩ := h.linked
  refine ⟨hhead, hlinked.update hp none, ?_, ?_, hq⟩
  · rw [h.tail_eq, hlinked.head_eq]
    cases q with
    | nil => rfl
    | cons x q => simp [List.getLast?_cons_cons]
  · rw [h.count_eq]
    rfl

theorem Linked.append {h : Option P} {t : P} (hp : p ∉ q ++ [t]) (ht : t ∉ q)
    (hl : Linked next h (q ++ [t])) :
    Linked (Function.update (Function.update next p none) t (some p)) h (q ++ [t, p]) := by
  induction q generalizing h with
  | nil =>
      have hpt : p ≠ t := fun he => hp (he ▸ List.mem_singleton_self t)
      refine ⟨hl.1, ?_, ?_⟩
      · rw [Function.update_self]
      · rw [Function.update_of_ne hpt, Function.update_self]
        rfl
  | cons x q ih =>
      rw [List.mem_cons, not_or] at ht
      have hxp : x ≠ p := fun he => hp (he ▸ List.mem_cons_self ..)
      refine ⟨hl.1, ?_⟩
      rw [Function.update_of_ne (Ne.symm ht.1), Function.update_of_ne hxp]
      exact ih (fun hmem => hp (List.mem_cons_of_mem x hmem)) ht.2 hl.2

/-- A node goes behind the last one. -/
theorem Represents.push (h : Represents next head tail count q) (hp : p ∉ q) :
    Represents (tail.elim (Function.update next p none) fun t =>
        Function.update (Function.update next p none) t (some p))
      (tail.elim (some p) fun _ => head) (some p) (count + 1) (q ++ [p]) := by
  refine ⟨?_, by simp, by simp [h.count_eq], ?_⟩
  · rcases List.eq_nil_or_concat q with rfl | ⟨q, t, rfl⟩
    · rw [h.tail_eq]
      refine ⟨rfl, ?_⟩
      exact Function.update_self ..
    · rw [List.concat_eq_append] at *
      have hnodup := h.nodup
      rw [List.nodup_append'] at hnodup
      have ht : t ∉ q := fun hmem => hnodup.2.2 hmem (List.mem_singleton_self t)
      rw [h.tail_eq, List.getLast?_concat]
      have happend := h.linked.append hp ht
      rw [List.append_assoc]
      exact happend
  · rw [List.nodup_append']
    refine ⟨h.nodup, List.nodup_singleton p, ?_⟩
    rw [List.disjoint_singleton]
    exact hp

theorem Linked.unlink {h : Option P} {t : P} (hnodup : (a ++ t :: p :: b).Nodup)
    (hl : Linked next h (a ++ t :: p :: b)) :
    Linked (Function.update (Function.update next t (next p)) p none) h (a ++ t :: b) := by
  induction a generalizing h with
  | nil =>
      obtain ⟨ht, hpb⟩ := List.nodup_cons.mp hnodup
      obtain ⟨hp, -⟩ := List.nodup_cons.mp hpb
      rw [List.mem_cons, not_or] at ht
      obtain ⟨hh, -, hb⟩ := hl
      refine ⟨hh, ?_⟩
      rw [Function.update_of_ne ht.1, Function.update_self]
      exact (hb.update ht.2 _).update hp _
  | cons x a ih =>
      obtain ⟨hx, hnodup'⟩ := List.nodup_cons.mp hnodup
      have hxt : x ≠ t := by
        rintro rfl
        exact hx (by simp)
      have hxp : x ≠ p := by
        rintro rfl
        exact hx (by simp)
      refine ⟨hl.1, ?_⟩
      rw [Function.update_of_ne hxp, Function.update_of_ne hxt]
      exact ih hnodup' hl.2

/-- A node is taken out, `a` being the nodes before it. -/
theorem Represents.remove (h : Represents next head tail count (a ++ p :: b)) :
    Represents
      (Function.update (a.getLast?.elim next fun t => Function.update next t (next p)) p none)
      (a.getLast?.elim (next p) fun _ => head) (if some p = tail then a.getLast? else tail)
      (count - 1) (a ++ b) := by
  have hnodup := h.nodup
  have hp : p ∉ a ∧ p ∉ b := by
    rw [List.nodup_append', List.nodup_cons] at hnodup
    exact ⟨fun hmem => hnodup.2.2 hmem (List.mem_cons_self ..), hnodup.2.1.1⟩
  refine ⟨?_, ?_, ?_, ?_⟩
  · rcases List.eq_nil_or_concat a with rfl | ⟨a, t, rfl⟩
    · exact h.linked.2.update hp.2 none
    · rw [List.concat_eq_append] at *
      have hl := h.linked
      rw [List.append_assoc] at hnodup hl ⊢
      rw [List.getLast?_concat]
      exact hl.unlink hnodup
  · rw [h.tail_eq]
    rcases List.eq_nil_or_concat b with rfl | ⟨b, t, rfl⟩
    · rw [List.getLast?_concat, if_pos rfl, List.append_nil]
    · rw [List.concat_eq_append] at *
      have hpt : p ≠ t := by
        rintro rfl
        exact hp.2 (by simp)
      rw [← List.append_assoc, ← List.cons_append, ← List.append_assoc, List.getLast?_concat,
        List.getLast?_concat, if_neg]
      rw [Option.some.injEq]
      exact hpt
  · rw [h.count_eq, List.length_append, List.length_append, List.length_cons]
    omega
  · rw [List.nodup_append'] at hnodup ⊢
    refine ⟨hnodup.1, (List.nodup_cons.mp hnodup.2.1).2, ?_⟩
    exact fun x hx hxb => hnodup.2.2 hx (List.mem_cons_of_mem p hxb)

end LinkedQueue
