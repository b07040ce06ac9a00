import Mathlib.Data.List.Basic

/-!
# Partial machines and their runs

A component is a step function `Op → S → Option (Out × S)`: an operation in a
state gives an output and a next state, or `none` when the operation does not
return or leaves the behaviour its language defines.  `run` chains steps along
a list of operations and keeps the outputs.

`Meets G ops s` says that every operation of the run is issued in a state where
`G` allows it.  `run_inv` is the invariant rule and `run_total` the progress
rule; both take one lemma about a single step.
-/

namespace Machine

variable {S Op Out : Type*}

/-- Run the operations in order.  The run fails as soon as one step fails. -/
def run (step : Op → S → Option (Out × S)) : List Op → S → Option (List Out × S)
  | [], s => some ([], s)
  | op :: ops, s =>
      match step op s with
      | none => none
      | some (o, s') =>
          match run step ops s' with
          | none => none
          | some (os, s'') => some (o :: os, s'')

/-- Every operation is issued in a state where `G` allows it. -/
def Meets (step : Op → S → Option (Out × S)) (G : Op → S → Prop) : List Op → S → Prop
  | [], _ => True
  | op :: ops, s => G op s ∧ ∀ o s', step op s = some (o, s') → Meets step G ops s'

variable {step : Op → S → Option (Out × S)} {G : Op → S → Prop}

@[simp] theorem run_nil (s : S) : run step [] s = some ([], s) := rfl

theorem run_cons_some {op : Op} {ops : List Op} {s s' : S} {os : List Out} :
    run step (op :: ops) s = some (os, s') ↔
      ∃ o t os', step op s = some (o, t) ∧ run step ops t = some (os', s') ∧ os = o :: os' := by
  rw [run]
  cases hs : step op s with
  | none => simp
  | some p =>
      obtain ⟨o, t⟩ := p
      cases hr : run step ops t with
      | none => simp [hr]
      | some q =>
          obtain ⟨os', s''⟩ := q
          simp [hr, and_comm, eq_comm]

theorem meets_cons_of_step {op : Op} {ops : List Op} {s t : S} {o : Out}
    (h : step op s = some (o, t)) :
    Meets step G (op :: ops) s ↔ G op s ∧ Meets step G ops t := by
  simp [Meets, h]

theorem run_append_some {ops₁ ops₂ : List Op} {s s' : S} {os : List Out} :
    run step (ops₁ ++ ops₂) s = some (os, s') ↔
      ∃ os₁ t os₂, run step ops₁ s = some (os₁, t) ∧ run step ops₂ t = some (os₂, s') ∧
        os = os₁ ++ os₂ := by
  induction ops₁ generalizing s os with
  | nil => simp [eq_comm]
  | cons op ops ih =>
      rw [List.cons_append, run_cons_some]
      constructor
      · rintro ⟨o, t, os', hs, hr, rfl⟩
        obtain ⟨os₁, u, os₂, h₁, h₂, rfl⟩ := ih.mp hr
        exact ⟨o :: os₁, u, os₂, run_cons_some.mpr ⟨o, t, os₁, hs, h₁, rfl⟩, h₂, rfl⟩
      · rintro ⟨os₁, u, os₂, h₁, h₂, rfl⟩
        obtain ⟨o, t, os', hs, hr, rfl⟩ := run_cons_some.mp h₁
        exact ⟨o, t, os' ++ os₂, hs, ih.mpr ⟨os', u, os₂, hr, h₂, rfl⟩, rfl⟩

/-- A run goes on until a step fails. -/
theorem run_prefix (step : Op → S → Option (Out × S)) (ops : List Op) (s : S) :
    ∃ before after os t, ops = before ++ after ∧ run step before s = some (os, t) ∧
      (after = [] ∨ ∃ op rest, after = op :: rest ∧ step op t = none) := by
  induction ops generalizing s with
  | nil => exact ⟨[], [], [], s, rfl, rfl, Or.inl rfl⟩
  | cons op ops ih =>
      cases hs : step op s with
      | none => exact ⟨[], op :: ops, [], s, rfl, rfl, Or.inr ⟨op, ops, rfl, hs⟩⟩
      | some p =>
          obtain ⟨o, t⟩ := p
          obtain ⟨before, after, os, u, rfl, hrun, hstop⟩ := ih t
          exact ⟨op :: before, after, o :: os, u, rfl,
            run_cons_some.mpr ⟨o, t, os, hs, hrun, rfl⟩, hstop⟩

theorem meets_of_forall {ops : List Op} (h : ∀ op ∈ ops, ∀ s, G op s) (s : S) :
    Meets step G ops s := by
  induction ops generalizing s with
  | nil => exact trivial
  | cons op ops ih =>
      exact ⟨h op (List.mem_cons_self ..) s,
        fun _ t _ => ih (fun op' h' => h op' (List.mem_cons_of_mem op h')) t⟩

theorem meets_true (ops : List Op) (s : S) : Meets step (fun _ _ => True) ops s :=
  meets_of_forall (fun _ _ _ => trivial) s

theorem Meets.mono {G' : Op → S → Prop} (hG : ∀ op s, G op s → G' op s) {ops : List Op} {s : S}
    (h : Meets step G ops s) : Meets step G' ops s := by
  induction ops generalizing s with
  | nil => exact trivial
  | cons op ops ih => exact ⟨hG op s h.1, fun o t ht => ih (h.2 o t ht)⟩

theorem Meets.take {ops : List Op} {s : S} (h : Meets step G ops s) (n : Nat) :
    Meets step G (ops.take n) s := by
  induction ops generalizing s n with
  | nil => rwa [List.take_nil]
  | cons op ops ih =>
      cases n with
      | zero => exact trivial
      | succ n => exact ⟨h.1, fun o t ht => ih (h.2 o t ht) n⟩

theorem meets_append {ops₁ ops₂ : List Op} {s t : S} {os : List Out}
    (hr : run step ops₁ s = some (os, t)) :
    Meets step G (ops₁ ++ ops₂) s ↔ Meets step G ops₁ s ∧ Meets step G ops₂ t := by
  induction ops₁ generalizing s os with
  | nil =>
      obtain rfl : s = t := congrArg Prod.snd (Option.some.inj hr)
      simp [Meets]
  | cons op ops ih =>
      obtain ⟨o, u, os', hu, hr', -⟩ := run_cons_some.mp hr
      rw [List.cons_append, meets_cons_of_step hu, meets_cons_of_step hu, ih hr', and_assoc]

theorem meets_and {G' : Op → S → Prop} {ops : List Op} {s : S} :
    Meets step (fun op s => G op s ∧ G' op s) ops s ↔
      Meets step G ops s ∧ Meets step G' ops s := by
  induction ops generalizing s with
  | nil => simp [Meets]
  | cons op ops ih =>
      simp only [Meets, ih]
      constructor
      · rintro ⟨⟨hg, hg'⟩, h⟩
        exact ⟨⟨hg, fun o t ht => (h o t ht).1⟩, hg', fun o t ht => (h o t ht).2⟩
      · rintro ⟨⟨hg, h⟩, hg', h'⟩
        exact ⟨⟨hg, hg'⟩, fun o t ht => ⟨h o t ht, h' o t ht⟩⟩

/-- A guard that can be decided can be decided along a run. -/
instance Meets.decidable [∀ op s, Decidable (G op s)] :
    ∀ (ops : List Op) (s : S), Decidable (Meets step G ops s)
  | [], _ => isTrue trivial
  | op :: ops, s =>
      match h : step op s with
      | none => decidable_of_iff (G op s) (by simp [Meets, h])
      | some (o, t) =>
          haveI := Meets.decidable ops t
          decidable_of_iff (G op s ∧ Meets step G ops t) (meets_cons_of_step h).symm

/-- **The invariant rule.**  What every allowed step keeps, every allowed run keeps. -/
theorem run_inv {I : S → Prop}
    (hstep : ∀ op s o s', I s → G op s → step op s = some (o, s') → I s')
    {ops : List Op} {s s' : S} {os : List Out} (hs : I s) (hG : Meets step G ops s)
    (hr : run step ops s = some (os, s')) : I s' := by
  induction ops generalizing s os with
  | nil => simp only [run_nil, Option.some.injEq, Prod.mk.injEq] at hr; exact hr.2 ▸ hs
  | cons op ops ih =>
      obtain ⟨o, t, os', ht, hr', -⟩ := run_cons_some.mp hr
      exact ih (hstep op s o t hs hG.1 ht) (hG.2 o t ht) hr'

/-- A run that does not fail meets every guard its steps need. -/
theorem meets_of_run {I : S → Prop} {P : Op → Prop}
    (hstep : ∀ op s o s', P op → I s → step op s = some (o, s') → G op s ∧ I s')
    {ops : List Op} {s s' : S} {os : List Out} (hP : ∀ op ∈ ops, P op) (hs : I s)
    (hr : run step ops s = some (os, s')) : Meets step G ops s := by
  induction ops generalizing s os with
  | nil => exact trivial
  | cons op ops ih =>
      obtain ⟨o, t, os', ht, hr', -⟩ := run_cons_some.mp hr
      obtain ⟨hg, hI⟩ := hstep op s o t (hP op (List.mem_cons_self ..)) hs ht
      rw [meets_cons_of_step ht]
      exact ⟨hg, ih (fun op' hop' => hP op' (List.mem_cons_of_mem op hop')) hI hr'⟩

/-- If a property that holds after an allowed step tells that the guard held before it, a run
along which it holds meets the guard.  `K` is all that is known of the states on the way. -/
theorem meets_of_inv {I K : S → Prop} {A : Op → S → Prop}
    (hstep : ∀ op s, K s → A op s →
      ∃ o s', step op s = some (o, s') ∧ (I s' → G op s ∧ K s'))
    {ops : List Op} {s : S} (hK : K s) (hA : Meets step A ops s)
    (h : ∀ n os t, run step (ops.take n) s = some (os, t) → I t) : Meets step G ops s := by
  induction ops generalizing s with
  | nil => exact trivial
  | cons op ops ih =>
      obtain ⟨o, t, ht, hI'⟩ := hstep op s hK hA.1
      rw [meets_cons_of_step ht]
      obtain ⟨hg, hK'⟩ := hI' (h 1 [o] t (run_cons_some.mpr ⟨o, t, [], ht, rfl, rfl⟩))
      refine ⟨hg, ih hK' (hA.2 o t ht) ?_⟩
      intro n os u hr
      exact h (n + 1) (o :: os) u (run_cons_some.mpr ⟨o, t, os, ht, hr, rfl⟩)

/-- An invariant that an allowed step keeps if and only if a guard holds before it, holds all
along an allowed run if and only if the run meets the guard. -/
theorem meets_iff_inv {I J : S → Prop} {A : Op → S → Prop}
    (hstep : ∀ op s, J s → A op s →
      ∃ o s', step op s = some (o, s') ∧ J s' ∧ (I s → (I s' ↔ G op s)))
    {ops : List Op} {s : S} (hJ : J s) (hA : Meets step A ops s) (hs : I s) :
    (∀ n os t, run step (ops.take n) s = some (os, t) → I t) ↔ Meets step G ops s := by
  constructor
  · refine meets_of_inv (I := I) (K := fun s => J s ∧ I s) ?_ ⟨hJ, hs⟩ hA
    rintro op s ⟨hJ, hI⟩ hop
    obtain ⟨o, t, ht, hJ', hI'⟩ := hstep op s hJ hop
    exact ⟨o, t, ht, fun h => ⟨(hI' hI).mp h, hJ', h⟩⟩
  · intro hG n os t hr
    have hinv := run_inv (I := fun s => J s ∧ I s) (G := fun op s => A op s ∧ G op s) (by
      rintro op s o t ⟨hJ, hI⟩ ⟨hop, hg⟩ ht
      obtain ⟨o', t', ht', hJ', hI'⟩ := hstep op s hJ hop
      rw [ht, Option.some.injEq, Prod.mk.injEq] at ht'
      exact ht'.2 ▸ ⟨hJ', (hI' hI).mpr hg⟩) ⟨hJ, hs⟩ ((meets_and.mpr ⟨hA, hG⟩).take n) hr
    exact hinv.2

/-- **The progress rule.**  If no allowed step fails, no allowed run fails. -/
theorem run_total {I : S → Prop}
    (hstep : ∀ op s, I s → G op s → ∃ o s', step op s = some (o, s') ∧ I s')
    {ops : List Op} {s : S} (hs : I s) (hG : Meets step G ops s) :
    ∃ os s', run step ops s = some (os, s') ∧ I s' := by
  induction ops generalizing s with
  | nil => exact ⟨[], s, rfl, hs⟩
  | cons op ops ih =>
      obtain ⟨o, t, ht, hI⟩ := hstep op s hs hG.1
      obtain ⟨os, s', hr, hI'⟩ := ih hI (hG.2 o t ht)
      exact ⟨o :: os, s', run_cons_some.mpr ⟨o, t, os, ht, hr, rfl⟩, hI'⟩

/-! ### Two machines -/

section Agreement

variable {step' : Op → S → Option (Out × S)} {I : S → Prop}
  (hstep : ∀ op s, I s → G op s → step op s = step' op s)
  (hinv : ∀ op s o s', I s → G op s → step op s = some (o, s') → I s')

include hstep hinv

/-- **The agreement rule.**  Machines that agree on the allowed steps agree on the allowed
runs. -/
theorem run_congr {ops : List Op} {s : S} (hs : I s) (hG : Meets step G ops s) :
    run step ops s = run step' ops s := by
  induction ops generalizing s with
  | nil => rfl
  | cons op ops ih =>
      rw [run, run, ← hstep op s hs hG.1]
      cases he : step op s with
      | none => rfl
      | some p =>
          dsimp only
          rw [ih (hinv op s p.1 p.2 hs hG.1 he) (hG.2 p.1 p.2 he)]

theorem meets_congr {P : Op → S → Prop} {ops : List Op} {s : S} (hs : I s)
    (hG : Meets step G ops s) (hP : Meets step P ops s) : Meets step' P ops s := by
  induction ops generalizing s with
  | nil => exact trivial
  | cons op ops ih =>
      refine ⟨hP.1, ?_⟩
      intro o t ht
      rw [← hstep op s hs hG.1] at ht
      exact ih (hinv op s o t hs hG.1 ht) (hG.2 o t ht) (hP.2 o t ht)

end Agreement

/-! ### Refinement -/

/-- A run of an abstract machine given by a relation, with the operations and the
outputs of a concrete one. -/
inductive Traces {T : Type*} (astep : Op → Out → T → T → Prop) : List Op → List Out → T → T → Prop
  | nil (a : T) : Traces astep [] [] a a
  | cons {op : Op} {ops : List Op} {o : Out} {os : List Out} {a b c : T} (hstep : astep op o a b)
      (htail : Traces astep ops os b c) : Traces astep (op :: ops) (o :: os) a c

theorem Traces.inv {T : Type*} {astep : Op → Out → T → T → Prop} {J : T → Prop}
    (hstep : ∀ op o a b, J a → astep op o a b → J b) {ops : List Op} {os : List Out} {a b : T}
    (h : Traces astep ops os a b) (ha : J a) : J b := by
  induction h with
  | nil a => exact ha
  | cons hs _ ih => exact ih (hstep _ _ _ _ ha hs)

/-- **The refinement rule.**  If every allowed step is an abstract step, every allowed run
is an abstract run. -/
theorem run_refines {T : Type*} {astep : Op → Out → T → T → Prop} {I : S → Prop} (abs : S → T)
    (hstep : ∀ op s, I s → G op s → ∃ o s', step op s = some (o, s') ∧ I s' ∧
      astep op o (abs s) (abs s'))
    {ops : List Op} {s : S} (hs : I s) (hG : Meets step G ops s) :
    ∃ os s', run step ops s = some (os, s') ∧ I s' ∧ Traces astep ops os (abs s) (abs s') := by
  induction ops generalizing s with
  | nil => exact ⟨[], s, rfl, hs, Traces.nil _⟩
  | cons op ops ih =>
      obtain ⟨o, t, ht, hI, ha⟩ := hstep op s hs hG.1
      obtain ⟨os, s', hr, hI', htr⟩ := ih hI (hG.2 o t ht)
      exact ⟨o :: os, s', run_cons_some.mpr ⟨o, t, os, ht, hr, rfl⟩, hI', Traces.cons ha htr⟩

end Machine
