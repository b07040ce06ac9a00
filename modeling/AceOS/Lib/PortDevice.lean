import AceOS.Lib.PortIo

/-!
# Devices behind ports

A `Device` says what an access may do to it and what a read may answer, and can leave either
open.  `Device.Run` is a way the device takes along a list of accesses, given the answers that
the reads got.

`Interacts p` says that the program `p` learns of its ports only what it reads from them.  Along
such a program a device that leaves no access without an answer has a way (`exists_run`).

`Device.Triple` is about every way: whenever `P` holds before a program and the device takes a
way along the accesses the program makes, `Q` holds after it.
-/

namespace PortIo

def PortEvent.isRead : PortEvent → Bool
  | .inb _ => true
  | .inw _ => true
  | _ => false

/-- `io` after the accesses `es`. -/
def Io.after (io : Io) (es : List PortEvent) : Io :=
  { io with reads := io.reads + es.countP PortEvent.isRead, log := io.log ++ es }

/-- What an access to a port may make of a state; for a read, with the answer. -/
structure Device (σ : Type) where
  outb : UInt16 → UInt8 → σ → σ → Prop
  outw : UInt16 → UInt16 → σ → σ → Prop
  inb : UInt16 → UInt8 → σ → σ → Prop
  inw : UInt16 → UInt16 → σ → σ → Prop

variable {σ α β : Type}

/-- An access, which for a read gets answer number `n`. -/
def Device.Access (D : Device σ) (answers : Nat → UInt16) (n : Nat) : PortEvent → σ → σ → Prop
  | .outb port value => D.outb port value
  | .outw port value => D.outw port value
  | .inb port => D.inb port (answers n).toUInt8
  | .inw port => D.inw port (answers n)

/-- The device can go from one state to the other along the accesses, whose reads got the
answers from number `n` on. -/
def Device.Run (D : Device σ) (answers : Nat → UInt16) : List PortEvent → Nat → σ → σ → Prop
  | [], _, s, s' => s = s'
  | e :: es, n, s, s' => ∃ t, D.Access answers n e s t ∧
      D.Run answers es (n + [e].countP PortEvent.isRead) t s'

/-- The program learns of its ports only what it reads from them, one access after the other. -/
inductive Interacts : (Io → α × Io) → Prop
  | pure (a : α) : Interacts fun io => (a, io)
  | inb (port : UInt16) {k : UInt8 → Io → α × Io} (hk : ∀ v, Interacts (k v)) :
      Interacts fun io => k (PortIo.inb port io).1 (PortIo.inb port io).2
  | inw (port : UInt16) {k : UInt16 → Io → α × Io} (hk : ∀ w, Interacts (k w)) :
      Interacts fun io => k (PortIo.inw port io).1 (PortIo.inw port io).2
  | outb (port : UInt16) (value : UInt8) {k : Io → α × Io} (hk : Interacts k) :
      Interacts fun io => k (PortIo.outb port value io)
  | outw (port value : UInt16) {k : Io → α × Io} (hk : Interacts k) :
      Interacts fun io => k (PortIo.outw port value io)

/-- **A triple**: the program interacts with its ports, and whatever way the device takes along
its accesses, `P` before becomes `Q` after. -/
structure Device.Triple (D : Device σ) (P : σ → Prop) (p : Io → α × Io) (Q : α → σ → Prop) :
    Prop where
  interacts : Interacts p
  run : ∀ io es s s', P s → (p io).2 = io.after es → D.Run io.answers es io.reads s s' →
    Q (p io).1 s'

section After

variable {io : Io} {es es' : List PortEvent} {D : Device σ}

@[simp] theorem Io.after_nil : io.after [] = io := by
  unfold Io.after
  rw [List.append_nil]
  rfl

theorem Io.after_after : (io.after es).after es' = io.after (es ++ es') := by
  unfold Io.after
  rw [List.countP_append, List.append_assoc, Nat.add_assoc]

theorem Io.after_inj (h : io.after es = io.after es') : es = es' :=
  List.append_cancel_left (congrArg Io.log h)

theorem run_append {answers : Nat → UInt16} {n : Nat} {s s' : σ} :
    D.Run answers (es ++ es') n s s' ↔
      ∃ t, D.Run answers es n s t ∧ D.Run answers es' (n + es.countP PortEvent.isRead) t s' := by
  induction es generalizing n s with
  | nil =>
      constructor
      · exact fun h => ⟨s, rfl, h⟩
      · rintro ⟨t, rfl, h⟩
        exact h
  | cons e es ih =>
      have hreads : ∀ m, m + [e].countP PortEvent.isRead + es.countP PortEvent.isRead
          = m + (e :: es).countP PortEvent.isRead := by
        intro m
        rw [← List.singleton_append (l := es), List.countP_append, Nat.add_assoc]
      constructor
      · rintro ⟨t, ht, h⟩
        obtain ⟨u, hu, h'⟩ := ih.mp h
        rw [hreads] at h'
        exact ⟨u, ⟨t, ht, hu⟩, h'⟩
      · rintro ⟨u, ⟨t, ht, hu⟩, h'⟩
        rw [← hreads] at h'
        exact ⟨t, ht, ih.mpr ⟨u, hu, h'⟩⟩

end After

/-! ### Programs -/

section Programs

variable {f p : Io → α × Io} {D : Device σ}

/-- It makes its accesses one after the other and does nothing else with its ports. -/
theorem Interacts.after (h : Interacts p) (io : Io) : ∃ es, (p io).2 = io.after es := by
  induction h generalizing io with
  | pure a => exact ⟨[], Io.after_nil.symm⟩
  | inb port hk ih =>
      obtain ⟨es, hes⟩ := ih (PortIo.inb port io).1 (PortIo.inb port io).2
      exact ⟨.inb port :: es, hes.trans (@Io.after_after _ [.inb port] es)⟩
  | inw port hk ih =>
      obtain ⟨es, hes⟩ := ih (PortIo.inw port io).1 (PortIo.inw port io).2
      exact ⟨.inw port :: es, hes.trans (@Io.after_after _ [.inw port] es)⟩
  | outb port value hk ih =>
      obtain ⟨es, hes⟩ := ih (PortIo.outb port value io)
      exact ⟨.outb port value :: es, hes.trans (@Io.after_after _ [.outb port value] es)⟩
  | outw port value hk ih =>
      obtain ⟨es, hes⟩ := ih (PortIo.outw port value io)
      exact ⟨.outw port value :: es, hes.trans (@Io.after_after _ [.outw port value] es)⟩

theorem Interacts.bind {g : α → Io → β × Io} (hf : Interacts f) (hg : ∀ a, Interacts (g a)) :
    Interacts fun io => g (f io).1 (f io).2 := by
  induction hf with
  | pure a => exact hg a
  | inb port hk ih => exact .inb port ih
  | inw port hk ih => exact .inw port ih
  | outb port value hk ih => exact .outb port value ih
  | outw port value hk ih => exact .outw port value ih

/-- Every access has an effect in every state, and every read an answer. -/
structure Device.Total (D : Device σ) : Prop where
  outb : ∀ port value s, ∃ t, D.outb port value s t
  outw : ∀ port value s, ∃ t, D.outw port value s t
  inb : ∀ port s, ∃ v t, D.inb port v s t
  inw : ∀ port s, ∃ w t, D.inw port w s t

/-- The answers are chosen one after the other; those before number `n` have been given. -/
theorem Device.Total.exists_answers (hD : D.Total) (hp : Interacts p) (answers : Nat → UInt16)
    (n : Nat) (log : List PortEvent) (s : σ) : ∃ answers' es t,
      (∀ i < n, answers' i = answers i) ∧
      (p ⟨answers', n, log⟩).2 = Io.after ⟨answers', n, log⟩ es ∧ D.Run answers' es n s t := by
  induction hp generalizing answers n log s with
  | pure a => exact ⟨answers, [], s, fun _ _ => rfl, Io.after_nil.symm, rfl⟩
  | @inb port k hk ih =>
      obtain ⟨v, t, ht⟩ := hD.inb port s
      obtain ⟨answers', es, u, hsame, hes, hrun⟩ := ih v (Function.update answers n v.toUInt16)
        (n + 1) (log ++ [.inb port]) t
      have hv : (answers' n).toUInt8 = v := by
        rw [hsame n (Nat.lt_succ_self n), Function.update_self, UInt8.toUInt8_toUInt16]
      refine ⟨answers', .inb port :: es, u, fun i hi => ?_, ?_, t, ?_, hrun⟩
      · rw [hsame i (Nat.lt_succ_of_lt hi), Function.update_of_ne (Nat.ne_of_lt hi)]
      · refine Eq.trans ?_ (@Io.after_after _ [.inb port] es)
        refine Eq.trans (congrArg (fun v => (k v _).2) hv) hes
      · rw [Device.Access, hv]
        exact ht
  | @inw port k hk ih =>
      obtain ⟨w, t, ht⟩ := hD.inw port s
      obtain ⟨answers', es, u, hsame, hes, hrun⟩ := ih w (Function.update answers n w)
        (n + 1) (log ++ [.inw port]) t
      have hw : answers' n = w := by
        rw [hsame n (Nat.lt_succ_self n), Function.update_self]
      refine ⟨answers', .inw port :: es, u, fun i hi => ?_, ?_, t, ?_, hrun⟩
      · rw [hsame i (Nat.lt_succ_of_lt hi), Function.update_of_ne (Nat.ne_of_lt hi)]
      · refine Eq.trans ?_ (@Io.after_after _ [.inw port] es)
        refine Eq.trans (congrArg (fun v => (k v _).2) hw) hes
      · rw [Device.Access, hw]
        exact ht
  | outb port value hk ih =>
      obtain ⟨t, ht⟩ := hD.outb port value s
      obtain ⟨answers', es, u, hsame, hes, hrun⟩ := ih answers n (log ++ [.outb port value]) t
      exact ⟨answers', .outb port value :: es, u, hsame,
        hes.trans (@Io.after_after ⟨answers', n, log⟩ [.outb port value] es),
        t, ht, hrun⟩
  | outw port value hk ih =>
      obtain ⟨t, ht⟩ := hD.outw port value s
      obtain ⟨answers', es, u, hsame, hes, hrun⟩ := ih answers n (log ++ [.outw port value]) t
      exact ⟨answers', .outw port value :: es, u, hsame,
        hes.trans (@Io.after_after ⟨answers', n, log⟩ [.outw port value] es),
        t, ht, hrun⟩

/-- **There is a run** of every program from every state of such a device. -/
theorem Device.Total.exists_run (hD : D.Total) (hp : Interacts p) (s : σ) :
    ∃ answers t, D.Run answers (p ⟨answers, 0, []⟩).2.log 0 s t := by
  obtain ⟨answers, es, t, -, hes, hrun⟩ := hD.exists_answers hp (fun _ => 0) 0 [] s
  refine ⟨answers, t, ?_⟩
  rw [hes]
  exact hrun

end Programs

/-! ### Rules for triples -/

section Triple

variable {D : Device σ} {P P' : σ → Prop} {R : α → σ → Prop} {Q Q' : β → σ → Prop}
  {f : Io → α × Io} {g : α → Io → β × Io} {p : Io → β × Io}

theorem Device.Triple.mono (h : D.Triple P p Q) (hP : ∀ s, P' s → P s)
    (hQ : ∀ b s, Q b s → Q' b s) : D.Triple P' p Q' :=
  ⟨h.interacts, fun io es s s' hs hes hrun => hQ _ _ (h.run io es s s' (hP s hs) hes hrun)⟩

theorem Device.Triple.pre (h : D.Triple P p Q) (hP : ∀ s, P' s → P s) : D.Triple P' p Q :=
  h.mono hP fun _ _ hQ => hQ

theorem Device.Triple.post (h : D.Triple P p Q) (hQ : ∀ b s, Q b s → Q' b s) :
    D.Triple P p Q' := h.mono (fun _ hP => hP) hQ

/-- What does not depend on the device stays. -/
theorem Device.Triple.frame (h : D.Triple P p Q) (φ : Prop) :
    D.Triple (fun s => φ ∧ P s) p fun b s => φ ∧ Q b s :=
  ⟨h.interacts, fun io es s s' hs hes hrun => ⟨hs.1, h.run io es s s' hs.2 hes hrun⟩⟩

theorem triple_of_states (hp : Interacts p) (h : ∀ s, P s → D.Triple (· = s) p Q) :
    D.Triple P p Q :=
  ⟨hp, fun io es s s' hs hes hrun => (h s hs).run io es s s' rfl hes hrun⟩

theorem triple_pure {b : β} (h : ∀ s, P s → Q b s) : D.Triple P (fun io => (b, io)) Q := by
  refine ⟨.pure b, ?_⟩
  intro io es s s' hs hes hrun
  obtain rfl : [] = es := Io.after_inj (Io.after_nil.trans hes)
  obtain rfl : s = s' := hrun
  exact h s hs

/-- **Sequencing**: what holds between the two programs may speak of the result of the first. -/
theorem Device.Triple.bind (hf : D.Triple P f R) (hg : ∀ a, D.Triple (R a) (g a) Q) :
    D.Triple P (fun io => g (f io).1 (f io).2) Q := by
  refine ⟨hf.interacts.bind fun a => (hg a).interacts, ?_⟩
  · intro io es s s' hs hes hrun
    obtain ⟨es₁, h₁⟩ := hf.interacts.after io
    obtain ⟨es₂, h₂⟩ := (hg (f io).1).interacts.after (f io).2
    -- the accesses are those of the one and then those of the other
    have hafter : io.after (es₁ ++ es₂) = io.after es := by
      rw [← Io.after_after, ← h₁, ← hes]
      exact h₂.symm
    have hsplit : es₁ ++ es₂ = es := Io.after_inj hafter
    rw [← hsplit, run_append] at hrun
    obtain ⟨t, hrun₁, hrun₂⟩ := hrun
    have ht : R (f io).1 t := hf.run io es₁ s t hs h₁ hrun₁
    refine (hg (f io).1).run (f io).2 es₂ t s' ht h₂ ?_
    rw [h₁]
    exact hrun₂

theorem Device.Triple.seq {f : Io → Io} {R : σ → Prop}
    (hf : D.Triple P (fun io => ((), f io)) fun _ => R) (hg : D.Triple R p Q) :
    D.Triple P (fun io => p (f io)) Q := hf.bind (g := fun _ => p) fun _ => hg

/-- One access, with what is known of the answer. -/
theorem triple_access {e : PortEvent} (hp : Interacts p) (he : ∀ io, (p io).2 = io.after [e])
    (h : ∀ io s t, P s → D.Access io.answers io.reads e s t → Q (p io).1 t) :
    D.Triple P p Q := by
  refine ⟨hp, ?_⟩
  intro io es s s' hs hes hrun
  obtain rfl : [e] = es := Io.after_inj ((he io).symm.trans hes)
  obtain ⟨t, ht, rfl⟩ := hrun
  exact h io s t hs ht

theorem triple_inb {port : UInt16} {Q : UInt8 → σ → Prop}
    (h : ∀ s v t, P s → D.inb port v s t → Q v t) : D.Triple P (inb port) Q :=
  triple_access (e := .inb port) (.inb port .pure) (fun _ => rfl) fun _ s t hs ht => h s _ t hs ht

theorem triple_inw {port : UInt16} {Q : UInt16 → σ → Prop}
    (h : ∀ s v t, P s → D.inw port v s t → Q v t) : D.Triple P (inw port) Q :=
  triple_access (e := .inw port) (.inw port .pure) (fun _ => rfl) fun _ s t hs ht => h s _ t hs ht

theorem triple_outb {port : UInt16} {value : UInt8} (h : ∀ s t, P s → D.outb port value s t → P' t)
    (hp : D.Triple P' p Q) : D.Triple P (fun io => p (outb port value io)) Q := by
  have hwrite : D.Triple P (fun io => ((), outb port value io)) fun _ => P' :=
    triple_access (e := .outb port value) (.outb port value (.pure ())) (fun _ => rfl)
      fun _ s t hs ht => h s t hs ht
  exact hwrite.seq hp

theorem triple_outw {port value : UInt16} (h : ∀ s t, P s → D.outw port value s t → P' t)
    (hp : D.Triple P' p Q) : D.Triple P (fun io => p (outw port value io)) Q := by
  have hwrite : D.Triple P (fun io => ((), outw port value io)) fun _ => P' :=
    triple_access (e := .outw port value) (.outw port value (.pure ())) (fun _ => rfl)
      fun _ s t hs ht => h s t hs ht
  exact hwrite.seq hp

variable {port : UInt16} {done : UInt8 → Bool}

/-- **A wait ends** if each answer that is not the one waited for brings the device closer to it,
and the device is closer than the bound of the wait. -/
theorem triple_pollPort {I Q : σ → Prop} (μ : σ → Nat)
    (hstep : ∀ s v t, I s → D.inb port v s t →
      (done v = true ∧ Q t) ∨ (done v = false ∧ I t ∧ μ t < μ s)) (timeout : Nat) :
    D.Triple (fun s => I s ∧ μ s < timeout) (pollPort port done timeout)
      fun ok t => ok = true ∧ Q t := by
  induction timeout with
  | zero =>
      refine triple_pure (b := false) ?_
      rintro s ⟨-, hlt⟩
      exact absurd hlt (Nat.not_lt_zero _)
  | succ timeout ih =>
      refine Device.Triple.bind (f := inb port)
        (g := fun v io => if done v then (true, io) else pollPort port done timeout io)
        (R := fun v t => if done v then Q t else I t ∧ μ t < timeout) ?_ ?_
      · refine triple_inb ?_
        rintro s v t ⟨hI, hlt⟩ ht
        rcases hstep s v t hI ht with ⟨hdone, hQ⟩ | ⟨hdone, hI', hless⟩
        · rw [if_pos hdone]
          exact hQ
        · rw [if_neg (by rw [hdone]; exact Bool.false_ne_true)]
          exact ⟨hI', by omega⟩
      · intro v
        by_cases hdone : done v = true
        · simp only [if_pos hdone]
          exact triple_pure fun s hs => ⟨rfl, hs⟩
        · simp only [if_neg hdone]
          exact ih

/-- **A wait is in vain** if no answer is the one waited for. -/
theorem triple_pollPort_never {I : σ → Prop}
    (hstep : ∀ s v t, I s → D.inb port v s t → done v = false ∧ I t) (timeout : Nat) :
    D.Triple I (pollPort port done timeout) fun ok t => ok = false ∧ I t := by
  induction timeout with
  | zero => exact triple_pure fun s hs => ⟨rfl, hs⟩
  | succ timeout ih =>
      refine Device.Triple.bind (f := inb port)
        (g := fun v io => if done v then (true, io) else pollPort port done timeout io)
        (R := fun v t => done v = false ∧ I t) (triple_inb hstep) ?_
      intro v
      by_cases hdone : done v = true
      · simp only [if_pos hdone]
        exact triple_pure fun s hs => absurd (hdone.symm.trans hs.1) (by decide)
      · simp only [if_neg hdone]
        exact ih.pre fun s hs => hs.2

/-- A program that gives up when a wait is in vain, after a wait that ends. -/
theorem Device.Triple.afterWait {timeout : Nat} {P R : σ → Prop} {b : β}
    (hwait : D.Triple P (pollPort port done timeout) fun ok s => ok = true ∧ R s)
    (hp : D.Triple R p Q) :
    D.Triple P (fun io =>
      let wait := pollPort port done timeout io
      if !wait.1 then (b, wait.2) else p wait.2) Q := by
  refine hwait.bind (g := fun ok io => if !ok then (b, io) else p io) ?_
  intro ok
  cases ok with
  | false => exact triple_pure fun s hs => absurd hs.1 Bool.false_ne_true
  | true => exact hp.pre fun s hs => hs.2

theorem Device.Triple.afterTimeout {timeout : Nat} {P R : σ → Prop} {b : β}
    (hwait : D.Triple P (pollPort port done timeout) fun ok s => ok = false ∧ R s)
    (hp : Interacts p) (hb : ∀ s, R s → Q b s) :
    D.Triple P (fun io =>
      let wait := pollPort port done timeout io
      if !wait.1 then (b, wait.2) else p wait.2) Q := by
  refine hwait.bind (g := fun ok io => if !ok then (b, io) else p io) ?_
  intro ok
  cases ok with
  | false => exact triple_pure fun s hs => hb s hs.2
  | true => exact ⟨hp, fun _ _ s _ hs => absurd hs.1.symm Bool.false_ne_true⟩

theorem Device.Triple.of_log (h : D.Triple P p Q) {answers : Nat → UInt16} {s s' : σ} (hs : P s)
    (hrun : D.Run answers (p ⟨answers, 0, []⟩).2.log 0 s s') : Q (p ⟨answers, 0, []⟩).1 s' := by
  obtain ⟨es, hes⟩ := h.interacts.after ⟨answers, 0, []⟩
  have hlog : (p ⟨answers, 0, []⟩).2.log = es := by
    rw [hes]
    rfl
  rw [hlog] at hrun
  exact h.run _ es s s' hs hes hrun

end Triple

end PortIo
