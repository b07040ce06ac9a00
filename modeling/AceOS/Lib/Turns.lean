import Mathlib.Data.List.Basic
import Mathlib.Data.List.Nodup
import Mathlib.Tactic.Common

/-!
# A loop over a list that shrinks

A loop calls the elements of a list one after the other, and a call may take elements off the
list.  `byIndex` counts an index up and looks at the list as it is (what a loop over an array
does); `byTurn` goes through the list as it was at the start and passes over what has been
taken off.  The two call the same if and only if no call takes off an element whose turn has come
while others are still to come (`byIndex_eq_byTurn_iff`).
-/

namespace Turns

universe u v

variable {α : Type u} {S : Type v} [DecidableEq α]

section Loops

variable (reg : S → List α) (act : α → S → S)

/-- The calls of at most `n` rounds from index `i` on. -/
def byIndex : (n i : Nat) → S → List α
  | 0, _, _ => []
  | n + 1, i, s =>
      match (reg s)[i]? with
      | some a => a :: byIndex n (i + 1) (act a s)
      | none => []

def byTurn : List α → S → List α
  | [], _ => []
  | a :: as, s => if a ∈ reg s then a :: byTurn as (act a s) else byTurn as s

/-- Each of the elements, in its turn, leaves alone itself and those in `passed`, whose turn has
come, or it leaves no element to come. -/
def TurnsKept : (passed : List α) → List α → S → Prop
  | _, [], _ => True
  | passed, a :: as, s =>
      if a ∈ reg s then
        ((∀ b ∈ a :: passed, b ∈ reg s → b ∈ reg (act a s)) ∨ ∀ b ∈ as, b ∉ reg (act a s)) ∧
          TurnsKept (a :: passed) as (act a s)
      else TurnsKept passed as s

instance decidableTurnsKept : ∀ passed as s, Decidable (TurnsKept reg act passed as s)
  | _, [], _ => isTrue trivial
  | passed, a :: as, s =>
      have := decidableTurnsKept (a :: passed) as (act a s)
      have := decidableTurnsKept passed as s
      inferInstanceAs (Decidable (if a ∈ reg s then _ else _))

end Loops

section Compare

variable {reg : S → List α} {act : α → S → S} {s : S} {a : α} {as passed : List α} {n i : Nat}

omit [DecidableEq α] in
theorem byIndex_of_length_le (h : (reg s).length ≤ i) : byIndex reg act n i s = [] := by
  cases n with
  | zero => rfl
  | succ n => rw [byIndex, List.getElem?_eq_none h]

omit [DecidableEq α] in
theorem byIndex_head {bs : List α} (h : byIndex reg act n i s = a :: bs) :
    (reg s)[i]? = some a := by
  cases n with
  | zero => exact absurd h (by simp [byIndex])
  | succ n =>
      rw [byIndex] at h
      split at h
      · rename_i b hb
        rw [hb, List.cons.inj h |>.1]
      · exact absurd h (by simp)

theorem byTurn_of_filter_nil (h : as.filter (· ∈ reg s) = []) : byTurn reg act as s = [] := by
  induction as with
  | nil => rfl
  | cons b as ih =>
      have hb : b ∉ reg s := by simpa using List.filter_eq_nil_iff.mp h b (List.mem_cons_self ..)
      rw [List.filter_cons_of_neg (by simpa using hb)] at h
      rw [byTurn, if_neg hb, ih h]

theorem byTurn_of_filter_cons {bs : List α} (h : as.filter (· ∈ reg s) = a :: bs) :
    ∃ cs, byTurn reg act as s = a :: cs := by
  induction as with
  | nil => exact absurd h (by simp)
  | cons b as ih =>
      by_cases hb : b ∈ reg s
      · rw [List.filter_cons_of_pos (by simpa using hb)] at h
        rw [byTurn, if_pos hb, (List.cons.inj h).1]
        exact ⟨_, rfl⟩
      · rw [List.filter_cons_of_neg (by simpa using hb)] at h
        rw [byTurn, if_neg hb]
        exact ih h

theorem turnsKept_of_filter_nil (h : as.filter (· ∈ reg s) = []) :
    TurnsKept reg act passed as s := by
  induction as with
  | nil => trivial
  | cons b as ih =>
      have hb : b ∉ reg s := by simpa using List.filter_eq_nil_iff.mp h b (List.mem_cons_self ..)
      rw [List.filter_cons_of_neg (by simpa using hb)] at h
      rw [TurnsKept, if_neg hb]
      exact ih h

/-- Where the loops are before the turns of `as`: `before` is what is left of the passed elements,
`after` of those to come. -/
structure AtTurn (reg : S → List α) (s : S) (passed as before after : List α) : Prop where
  reg_eq : reg s = before ++ after
  filter_eq : as.filter (· ∈ reg s) = after
  passed_iff : ∀ b ∈ reg s, b ∈ passed ↔ b ∈ before

section AtTurn

variable {before after : List α}

theorem AtTurn.none_iff (h : AtTurn reg s passed as before after) :
    (∀ b ∈ as, b ∉ reg s) ↔ after = [] := by
  rw [← h.filter_eq, List.filter_eq_nil_iff]
  simp

/-- The element whose turn it is is called, and takes off what `keep` does not keep. -/
theorem AtTurn.call {s' : S} (h : AtTurn reg s passed (a :: as) before after) (ha : a ∈ reg s)
    {keep : α → Bool} (hkeep : reg s' = (reg s).filter keep) :
    ∃ rest, after = a :: rest ∧
      AtTurn reg s' (a :: passed) as ((before ++ [a]).filter keep) (rest.filter keep) := by
  obtain ⟨hreg, hafter, hpassed⟩ := h
  rw [List.filter_cons_of_pos (by simpa using ha)] at hafter
  refine ⟨as.filter (· ∈ reg s), hafter.symm, ?_, ?_, ?_⟩
  · rw [← List.filter_append, List.append_assoc, List.singleton_append, hafter, ← hreg, hkeep]
  · rw [List.filter_filter]
    refine List.filter_congr fun b _ => ?_
    rw [hkeep]
    simp [Bool.and_comm]
  · intro b hb
    rw [hkeep, List.mem_filter] at hb
    rw [List.mem_filter, and_iff_left hb.2, List.mem_cons, List.mem_append, List.mem_singleton,
      hpassed b hb.1, or_comm]

theorem AtTurn.kept_iff {s' : S} (h : AtTurn reg s passed (a :: as) before after)
    (ha : a ∈ reg s) {keep : α → Bool} (hkeep : reg s' = (reg s).filter keep) :
    (∀ b ∈ a :: passed, b ∈ reg s → b ∈ reg s') ↔
      (before ++ [a]).filter keep = before ++ [a] := by
  have hbefore : ∀ b, b ∈ before ++ [a] ↔ b ∈ a :: passed ∧ b ∈ reg s := by
    intro b
    rw [List.mem_append, List.mem_singleton, List.mem_cons]
    constructor
    · rintro (hb | rfl)
      · have hbs : b ∈ reg s := h.reg_eq ▸ List.mem_append_left after hb
        exact ⟨Or.inr ((h.passed_iff b hbs).mpr hb), hbs⟩
      · exact ⟨Or.inl rfl, ha⟩
    · rintro ⟨rfl | hb, hbs⟩
      · exact Or.inr rfl
      · exact Or.inl ((h.passed_iff b hbs).mp hb)
  rw [List.filter_eq_self]
  constructor
  · intro hkept b hb
    obtain ⟨hturn, hbs⟩ := (hbefore b).mp hb
    have hb' := hkept b hturn hbs
    rw [hkeep] at hb'
    exact (List.mem_filter.mp hb').2
  · intro hall b hturn hbs
    rw [hkeep]
    exact List.mem_filter.mpr ⟨hbs, hall b ((hbefore b).mpr ⟨hturn, hbs⟩)⟩

/-- A passed element has been taken off: the index is behind the head of what is to come, and
the two loops part there. -/
theorem AtTurn.byIndex_ne_byTurn (h : AtTurn reg s passed as before after)
    (hnodup : (reg s).Nodup) (hne : after ≠ []) (hi : before.length < i) :
    byIndex reg act n i s ≠ byTurn reg act as s := by
  obtain ⟨b, bs, rfl⟩ := List.exists_cons_of_ne_nil hne
  obtain ⟨cs, hcs⟩ : ∃ cs, byTurn reg act as s = b :: cs := byTurn_of_filter_cons h.filter_eq
  rw [hcs]
  intro heq
  have hb : (reg s)[before.length]? = some b := by
    rw [h.reg_eq, List.getElem?_append_right (Nat.le_refl _), Nat.sub_self]
    rfl
  obtain ⟨hi', hget'⟩ := List.getElem?_eq_some_iff.mp (byIndex_head heq)
  obtain ⟨hb', hget⟩ := List.getElem?_eq_some_iff.mp hb
  have hsame := hnodup.getElem_inj_iff.mp (hget.trans hget'.symm)
  omega

/-- From there on the two call the same only if nothing is to come. -/
theorem AtTurn.byIndex_eq_iff_of_lt (h : AtTurn reg s passed as before after)
    (hnodup : (reg s).Nodup) (hi : before.length < i) :
    byIndex reg act n i s = byTurn reg act as s ↔ after = [] := by
  constructor
  · intro heq
    by_contra hne
    exact h.byIndex_ne_byTurn hnodup hne hi heq
  · rintro rfl
    rw [byTurn_of_filter_nil h.filter_eq, byIndex_of_length_le]
    rw [h.reg_eq, List.append_nil]
    exact Nat.le_of_lt hi

end AtTurn

variable {Good : S → Prop} (hnodup : ∀ s, Good s → (reg s).Nodup)
  (hact : ∀ a s, Good s → Good (act a s) ∧ ∃ keep, reg (act a s) = (reg s).filter keep)

include hnodup hact

/-- The two loops from where the index stands at the end of `before`. -/
theorem AtTurn.byIndex_eq_iff {before after : List α} (hs : Good s)
    (h : AtTurn reg s passed as before after) (hn : (reg s).length ≤ before.length + n) :
    byIndex reg act n before.length s = byTurn reg act as s ↔ TurnsKept reg act passed as s := by
  induction as generalizing s passed before after n with
  | nil =>
      refine iff_of_true ?_ trivial
      rw [byIndex_of_length_le (by rw [h.reg_eq, ← h.filter_eq]; simp)]
      rfl
  | cons a as ih =>
      by_cases ha : a ∈ reg s
      · obtain ⟨hgood, keep, hkeep⟩ := hact a s hs
        obtain ⟨rest, rfl, hcall⟩ := h.call ha hkeep
        have hlen : before.length + 1 ≤ (reg s).length := by
          rw [h.reg_eq, List.length_append, List.length_cons]
          omega
        have hget : (reg s)[before.length]? = some a := by
          rw [h.reg_eq, List.getElem?_append_right (Nat.le_refl _), Nat.sub_self]
          rfl
        obtain ⟨n, rfl⟩ : ∃ m, n = m + 1 := ⟨n - 1, by omega⟩
        rw [byIndex, hget, byTurn, if_pos ha, TurnsKept, if_pos ha, h.kept_iff ha hkeep,
          hcall.none_iff]
        dsimp only
        rw [List.cons.injEq, and_iff_right rfl]
        by_cases hall : (before ++ [a]).filter keep = before ++ [a]
        · -- the index moves on with the elements
          rw [hall] at hcall
          have hle : (reg (act a s)).length ≤ (reg s).length := by
            rw [hkeep]
            exact List.length_filter_le ..
          have hbefore : before.length + 1 = (before ++ [a]).length := by simp
          rw [and_iff_right (Or.inl hall), hbefore]
          exact ih hgood hcall (by omega)
        · -- the elements move down under the index
          have hlt : ((before ++ [a]).filter keep).length < before.length + 1 := by
            have hle := List.length_filter_le keep (before ++ [a])
            have hne := mt (List.filter_sublist (l := before ++ [a])).eq_of_length hall
            rw [List.length_append, List.length_singleton] at hle hne
            omega
          rw [hcall.byIndex_eq_iff_of_lt (hnodup _ hgood) hlt]
          constructor
          · intro hlast
            exact ⟨Or.inr hlast, turnsKept_of_filter_nil (hcall.filter_eq.trans hlast)⟩
          · rintro ⟨hkept | hlast, -⟩
            · exact absurd hkept hall
            · exact hlast
      · rw [byTurn, if_neg ha, TurnsKept, if_neg ha]
        refine ih hs ⟨h.reg_eq, ?_, h.passed_iff⟩ hn
        rw [← h.filter_eq, List.filter_cons_of_neg (by simpa using ha)]

/-- **The two loops call the same** if and only if the turns are kept. -/
theorem byIndex_eq_byTurn_iff (hs : Good s) (hn : (reg s).length ≤ n) :
    byIndex reg act n 0 s = byTurn reg act (reg s) s ↔ TurnsKept reg act [] (reg s) s := by
  have hstart : AtTurn reg s [] (reg s) [] (reg s) :=
    ⟨rfl, List.filter_eq_self.mpr fun b hb => by simpa using hb, fun b _ => Iff.rfl⟩
  refine hstart.byIndex_eq_iff hnodup hact hs ?_
  rwa [List.length_nil, Nat.zero_add]

end Compare

end Turns
