import AceOS.Kernel.Destroy

/-!
# Time slices

`scheduler_tick` counts the ticks of the current process, and the count starts again only
when another process becomes current.  `Turn` says what one step does to the turn of the
current process: it goes on, or another one starts.  While processes wait, the count stays
below the time slice, so that a turn is over by the tick that ends the slice
(`taskRun_slices`).  The count itself has 32 bits: it can run around while no process
waits, and then one tick is lost (`taskRun_wrapped`).
-/

namespace AceOS.Kernel

open Memory LinkedQueue

variable {s s' : Tasks} {p c k : Nat} {q : List Nat} {f : Process → Process}

/-! ### The counters -/

/-- The fields `time_slice` and `time_used` of every process. -/
def Tasks.times (s : Tasks) : Nat → Nat × Nat :=
  fun p => ((s.processTable p).timeSlice, (s.processTable p).timeUsed)

theorem times_modify : (s.modify p f).times = Function.update s.times p
    ((f (s.processTable p)).timeSlice, (f (s.processTable p)).timeUsed) := by
  funext x
  rw [Tasks.times, Tasks.modify_processTable]
  by_cases hx : x = p
  · rw [hx, Function.update_self, Function.update_self]
  · rw [Function.update_of_ne hx, Function.update_of_ne hx]
    rfl

theorem times_modify_keep (hs : (f (s.processTable p)).timeSlice = (s.processTable p).timeSlice)
    (hu : (f (s.processTable p)).timeUsed = (s.processTable p).timeUsed) :
    (s.modify p f).times = s.times := by
  rw [times_modify, hs, hu]
  exact Function.update_eq_self p s.times

theorem schedulerAddProcess_times : (schedulerAddProcess (some p) s).times = s.times := by
  have hmodify : (s.modify p fun e => { e with state := .ready, next := none }).times = s.times :=
    times_modify_keep rfl rfl
  rw [schedulerAddProcess]
  dsimp only
  split
  · rfl
  · split
    · rename_i t ht
      rw [← hmodify]
      exact times_modify_keep (p := t) (f := fun e => { e with next := some p }) rfl rfl
    · exact hmodify

theorem unlinkProcess_times (previous : Option Nat) :
    (unlinkProcess p previous s).times = s.times := by
  cases previous with
  | none =>
      rw [unlinkProcess]
      exact times_modify_keep rfl rfl
  | some t =>
      have hmodify : (s.modify t fun e => { e with next := (s.processTable p).next }).times
          = s.times := times_modify_keep rfl rfl
      rw [unlinkProcess, ← hmodify]
      exact times_modify_keep rfl rfl

theorem removeLoop_times {fuel : Nat} {current previous : Option Nat}
    (h : removeLoop p fuel current previous s = some s') : s'.times = s.times := by
  induction fuel generalizing current previous with
  | zero =>
      rw [removeLoop] at h
      split at h
      · rw [Option.some.inj h]
      · cases h
  | succ fuel ih =>
      cases current with
      | none => rw [Option.some.inj h]
      | some x =>
          rw [removeLoop] at h
          split at h
          · rw [← Option.some.inj h, unlinkProcess_times]
          · exact ih h

theorem schedulerRemoveProcess_times {process : Option Nat}
    (h : schedulerRemoveProcess process s = some s') : s'.times = s.times := by
  cases process with
  | none => rw [Option.some.inj h]
  | some p =>
      rw [schedulerRemoveProcess] at h
      split at h
      · rw [Option.some.inj h]
      · exact removeLoop_times h

theorem getNextProcess_times {next : Option Nat} (h : getNextProcess s = (next, s')) :
    s'.times = s.times := by
  rw [getNextProcess] at h
  split at h
  · rw [(Prod.mk.inj h).2]
  · split at h
    · rw [(Prod.mk.inj h).2]
    · rw [← (Prod.mk.inj h).2]
      exact times_modify_keep rfl rfl

theorem requeueCurrent_times : (requeueCurrent s).times = s.times := by
  rw [requeueCurrent]
  split
  · rfl
  · rename_i c _
    have hmodify : ((saveContext c s).modify c fun e => { e with state := .ready }).times
        = s.times := by
      rw [saveContext_modify]
      exact times_modify_keep rfl rfl
    split
    · dsimp only
      split
      · rw [schedulerAddProcess_times, hmodify]
      · exact hmodify
    · rfl

/-! ### The turn of the current process -/

def SlicesSet (s : Tasks) : Prop := ∀ p, s.Live p → 1 ≤ (s.times p).1 ∧ (s.times p).1 ≤ 200

/-- The turn of the current process goes on, or that of another one starts. -/
inductive Turn (tick : Bool) (s s' : Tasks) : Prop
  | goesOn (c : Nat) (before : s.currentProcess = some c) (after : s'.currentProcess = some c)
      (slice : (s'.times c).1 = (s.times c).1)
      (used : (s'.times c).2 = if tick then add32 (s.times c).2 1 else (s.times c).2)
      (bound : tick → readyList s ≠ [] → (s'.times c).2 < (s'.times c).1)
  | starts (c : Nat) (before : s.currentProcess ≠ some c) (after : s'.currentProcess = some c)
      (slice : 1 ≤ (s'.times c).1) (used : (s'.times c).2 = 0)

/-- What is in use is what was, with its slice. -/
structure SlicesKept (s s' : Tasks) : Prop where
  live : ∀ x, s'.Live x → s.Live x
  slice : ∀ x, (s'.times x).1 = (s.times x).1

theorem SlicesSet.kept (h : SlicesSet s) (hk : SlicesKept s s') : SlicesSet s' := by
  intro x hx
  rw [hk.slice]
  exact h x (hk.live x hx)

/-- **Scheduling** does nothing, or starts the turn of the first process that waits. -/
theorem schedulerSchedule_turn (h : ReadyQueue s q) :
    (q = [] ∧ schedulerSchedule s = s) ∨
    (∃ p, s.currentProcess ≠ some p ∧ p ∈ q ∧ (schedulerSchedule s).currentProcess = some p ∧
      ((schedulerSchedule s).times p) = ((s.times p).1, 0)) ∧
    SlicesKept s (schedulerSchedule s) := by
  cases q with
  | nil => exact Or.inl ⟨rfl, schedulerSchedule_nil h⟩
  | cons p q =>
      right
      obtain ⟨c, hc, -, hstate⟩ := h.current
      have hpc : p ≠ c := h.ne_of_mem hc (List.mem_cons_self ..)
      obtain ⟨t, hnext, -⟩ := getNextProcess_cons h.queue
      have hsched := schedulerSchedule_some h.enabled hnext
      have hrequeue : ({ requeueCurrent t with currentProcess := some p } : Tasks).times
          = s.times :=
        requeueCurrent_times.trans (getNextProcess_times hnext)
      have htimes : (schedulerSchedule s).times = Function.update s.times p ((s.times p).1, 0) := by
        rw [hsched, times_modify, hrequeue, ← hrequeue]
        rfl
      have hcurrent : (schedulerSchedule s).currentProcess = some p := by
        rw [hsched]
        rfl
      have hlive : ∀ x, (schedulerSchedule s).Live x → s.Live x := by
        intro x hx
        have hplive : s.Live p := h.live (List.mem_cons_self ..)
        rcases hstate with hrun | hend
        · obtain ⟨-, -, hs'⟩ := schedulerSchedule_running h hc hrun
          by_cases hxp : x = p
          · exact hxp ▸ hplive
          · by_cases hxc : x = c
            · exact hxc ▸ h.live_current hc
            · have hx' : (schedulerSchedule s).states x ≠ .unused := hx
              rw [hs', Function.update_of_ne hxp, Function.update_of_ne hxc] at hx'
              exact hx'
        · obtain ⟨-, -, hs'⟩ := schedulerSchedule_terminated h hc hend
          exact Tasks.live_of_update hs' hplive hx
      refine ⟨⟨p, ?_, List.mem_cons_self .., hcurrent, ?_⟩, hlive, ?_⟩
      · rw [hc]
        exact fun he => hpc (Option.some.inj he).symm
      · rw [htimes, Function.update_self]
      · intro x
        rw [htimes]
        by_cases hxp : x = p
        · rw [hxp, Function.update_self]
        · rw [Function.update_of_ne hxp]

theorem SlicesKept.trans {t : Tasks} (h : SlicesKept s t) (h' : SlicesKept t s') :
    SlicesKept s s' := by
  refine ⟨fun x hx => h.live x (h'.live x hx), ?_⟩
  intro x
  rw [h'.slice, h.slice]

/-- **A tick** is counted, or ends the turn. -/
theorem schedulerTick_turn (h : ReadyQueue s q) (hset : SlicesSet s) :
    Turn true s (schedulerTick s) ∧ SlicesKept s (schedulerTick s) := by
  obtain ⟨c, hc, -, -⟩ := h.current
  obtain ⟨hinv, hstates⟩ := h.count c
  have hon : ¬(!s.schedulerEnabled) = true := by
    rw [h.enabled]
    decide
  have htimes : (s.modify c fun e => { e with timeUsed := add32 e.timeUsed 1 }).times
      = Function.update s.times c ((s.times c).1, add32 (s.times c).2 1) := times_modify
  have hcur : (s.modify c fun e => { e with timeUsed := add32 e.timeUsed 1 }).currentProcess
      = some c := hc
  have hlist := h.readyList_eq
  rw [schedulerTick, if_neg hon, hc]
  dsimp only
  rw [schedulerYield_eq]
  generalize (s.modify c fun e => { e with timeUsed := add32 e.timeUsed 1 }) = t at *
  have hkept : SlicesKept s t := by
    refine ⟨fun x hx => ?_, fun x => ?_⟩
    · have hx' : t.states x ≠ .unused := hx
      rw [hstates] at hx'
      exact hx'
    · rw [htimes]
      by_cases hxc : x = c
      · rw [hxc, Function.update_self]
      · rw [Function.update_of_ne hxc]
  have hslice : (t.times c).1 = (s.times c).1 := hkept.slice c
  have hused : (t.times c).2 = add32 (s.times c).2 1 := by
    rw [htimes, Function.update_self]
  split
  · rcases schedulerSchedule_turn hinv with ⟨hq, he⟩ | ⟨⟨p, hp, hpq, hcur', htimes'⟩, hkept'⟩
    · rw [he]
      refine ⟨.goesOn c hc hcur hslice hused ?_, hkept⟩
      intro _ hne
      exact absurd (hlist.trans hq) hne
    · refine ⟨.starts p ?_ hcur' ?_ (by rw [htimes']), hkept.trans hkept'⟩
      · rw [hc, ← hcur]
        exact hp
      · rw [hkept'.slice, hkept.slice]
        exact (hset p (h.live hpq)).1
  · rename_i hlt
    exact ⟨.goesOn c hc hcur hslice hused fun _ _ => Nat.lt_of_not_le hlt, hkept⟩

theorem schedulerSchedule_turn_of_slices (h : ReadyQueue s q) (hset : SlicesSet s) :
    Turn false s (schedulerSchedule s) ∧ SlicesKept s (schedulerSchedule s) := by
  obtain ⟨c, hc, -, -⟩ := h.current
  rcases schedulerSchedule_turn h with ⟨-, he⟩ | ⟨⟨p, hp, hpq, hcur, htimes⟩, hkept⟩
  · rw [he]
    exact ⟨.goesOn c hc hc rfl rfl nofun, fun _ hx => hx, fun _ => rfl⟩
  · refine ⟨.starts p hp hcur ?_ (by rw [htimes]), hkept⟩
    rw [hkept.slice]
    exact (hset p (h.live hpq)).1

/-- **An exit** starts the next turn, if a process waits. -/
theorem processExit_turn (exitCode : Int) (h : ReadyQueue s q) (hset : SlicesSet s) :
    Turn false s (processExit exitCode s) ∧ SlicesKept s (processExit exitCode s) := by
  obtain ⟨c, hc, -, -⟩ := h.current
  rw [processExit, hc]
  dsimp only
  split
  · exact ⟨.goesOn c hc hc rfl rfl (absurd · Bool.false_ne_true), fun _ hx => hx, fun _ => rfl⟩
  · obtain ⟨hinv, hstates⟩ := h.terminate hc exitCode
    have htimes : (s.modify c fun e => { e with exitCode := exitCode, state := .terminated }).times
        = s.times := times_modify_keep rfl rfl
    have hcur : (s.modify c fun e =>
        { e with exitCode := exitCode, state := .terminated }).currentProcess = some c := hc
    generalize (s.modify c fun e => { e with exitCode := exitCode, state := .terminated }) = t at *
    have hkept : SlicesKept s t := by
      refine ⟨fun x hx => ?_, fun x => by rw [htimes]⟩
      exact Tasks.live_of_update hstates (h.live_current hc) hx
    obtain ⟨hturn, hkept'⟩ := schedulerSchedule_turn_of_slices hinv (hset.kept hkept)
    refine ⟨?_, hkept.trans hkept'⟩
    cases hturn with
    | goesOn c' before after slice used _ =>
        rw [hcur, Option.some.injEq] at before
        subst before
        rw [htimes] at slice used
        exact .goesOn c hc after slice used (absurd · Bool.false_ne_true)
    | starts p before after slice used =>
        rw [hcur, ← hc] at before
        exact .starts p before after slice used

/-! ### The other calls -/

theorem Tasks.Replaced.times_of_ne {e : Process} (hrep : s.Replaced s' p e) (hc : c ≠ p) :
    s'.times c = s.times c := by
  rw [Tasks.times, hrep.other c hc]
  rfl

theorem Tasks.Replaced.turn {e : Process} (hrep : s.Replaced s' p e)
    (hc : s.currentProcess = some c) (hcp : c ≠ p) : Turn false s s' := by
  have htimes := hrep.times_of_ne hcp
  exact .goesOn c hc (hrep.current.trans hc) (by rw [htimes]) (by rw [htimes]; rfl) nofun

theorem Tasks.Replaced.slicesSet {e : Process} (hrep : s.Replaced s' p e) (hset : SlicesSet s)
    (he : e.state ≠ .unused → 1 ≤ e.timeSlice ∧ e.timeSlice ≤ 200) : SlicesSet s' := by
  intro x hx
  by_cases hxp : x = p
  · subst hxp
    rw [Tasks.Live, hrep.self] at hx
    rw [Tasks.times, hrep.self]
    exact he hx
  · rw [Tasks.Live, hrep.other x hxp] at hx
    rw [hrep.times_of_ne hxp]
    exact hset x hx

/-- What is added is in use, and neither queued nor the current process; what is destroyed is
neither queued nor the current process. -/
def QueueKept : TaskOp → Tasks → Prop
  | .scheduler (.add p), s => s.Live p ∧ p ∉ readyList s ∧ s.currentProcess ≠ some p
  | .destroy p, s => p ∉ readyList s ∧ s.currentProcess ≠ some p
  | _, _ => True

/-- No tick comes while a process waits and the count of the current one is at its end. -/
def CountsOn : TaskOp → Tasks → Prop
  | .scheduler .tick, s => readyList s ≠ [] →
      ∀ c, s.currentProcess = some c → (s.processTable c).timeUsed ≠ 4294967295
  | _, _ => True

def isTick : TaskOp → Bool
  | .scheduler .tick => true
  | _ => false

/-- The invariant of the runs: the ready queue, the slices, and a count of 32 bits. -/
structure TurnInv (s : Tasks) : Prop where
  queue : ReadyQueue s (readyList s)
  slices : SlicesSet s
  count : ∀ c, s.currentProcess = some c → (s.times c).2 < 4294967296

theorem TurnInv.turn {tick : Bool} (h : TurnInv s) (hq : ReadyQueue s' q) (hset : SlicesSet s')
    (hturn : Turn tick s s') : TurnInv s' := by
  refine ⟨hq.readyList_eq.symm ▸ hq, hset, ?_⟩
  intro x hx
  cases hturn with
  | goesOn c before after slice used _ =>
      rw [hx, Option.some.injEq] at after
      subst after
      rw [used]
      split
      · exact add32_lt _ _
      · exact h.count x before
  | starts c before after slice used =>
      rw [hx, Option.some.injEq] at after
      subst after
      omega

theorem TurnInv.unchanged (h : TurnInv s) (hc : s'.currentProcess = s.currentProcess)
    (ht : s'.times = s.times) : Turn false s s' := by
  obtain ⟨c, hcur, -, -⟩ := h.queue.current
  exact .goesOn c hcur (hc.trans hcur) (by rw [ht]) (by rw [ht]; rfl) nofun

theorem TurnInv.replaced {e : Process} (h : TurnInv s) (hq : ReadyQueue s' q)
    (hrep : s.Replaced s' p e) (hc : s.currentProcess ≠ some p)
    (he : e.state ≠ .unused → 1 ≤ e.timeSlice ∧ e.timeSlice ≤ 200) :
    TurnInv s' ∧ Turn false s s' := by
  obtain ⟨c, hcur, -, -⟩ := h.queue.current
  have hturn : Turn false s s' := hrep.turn hcur fun hcp => hc (hcp ▸ hcur)
  exact ⟨h.turn hq (hrep.slicesSet h.slices he) hturn, hturn⟩

theorem TurnInv.destroy (h : TurnInv s) (hp : p ∉ readyList s) (hc : s.currentProcess ≠ some p) :
    TurnInv (processDestroy (some p) s) ∧ Turn false s (processDestroy (some p) s) := by
  have hq := h.queue.destroy hc hp
  rcases processDestroy_cases (some p) s with ⟨he, -⟩ | ⟨i, t, hi, -, he, hrep, -⟩
  · rw [he]
    exact ⟨h, h.unchanged rfl rfl⟩
  · rw [Option.some.injEq] at hi
    subst hi
    rw [he] at hq ⊢
    exact h.replaced hq hrep hc fun hne => absurd rfl hne

theorem TurnInv.create (h : TurnInv s) (k : Nat) (name : List UInt8) (priority : Nat) :
    TurnInv (processCreate k name priority s).2 ∧
      Turn false s (processCreate k name priority s).2 := by
  rcases processCreate_cases (k := k) name priority s with ⟨-, he⟩ |
    ⟨i, e, r, t, hi, he, -, hrep, -, -, -, -, hslice⟩
  · rw [he]
    exact ⟨h, h.unchanged rfl rfl⟩
  · obtain ⟨hq, -, -, hc⟩ := h.queue.create k name priority hi
    rw [he] at hq hc ⊢
    rw [hrep.current] at hc
    exact h.replaced hq hrep hc fun _ => hslice

theorem TurnInv.add (h : TurnInv s) (hlive : s.Live p) (hp : p ∉ readyList s)
    (hc : s.currentProcess ≠ some p) : TurnInv (schedulerAddProcess (some p) s) ∧
      Turn false s (schedulerAddProcess (some p) s) := by
  obtain ⟨-, hcur, -, hstates⟩ := schedulerAddProcess_spec h.queue.enabled h.queue.queue hp
  have htimes := schedulerAddProcess_times (s := s) (p := p)
  have hturn : Turn false s (schedulerAddProcess (some p) s) := h.unchanged hcur htimes
  have hkept : SlicesKept s (schedulerAddProcess (some p) s) :=
    ⟨fun x hx => Tasks.live_of_update hstates hlive hx, fun x => by rw [htimes]⟩
  exact ⟨h.turn (h.queue.add hp hc) (h.slices.kept hkept) hturn, hturn⟩

theorem TurnInv.remove (h : TurnInv s) (process : Option Nat) :
    ∃ s', schedulerRemoveProcess process s = some s' ∧ TurnInv s' ∧ Turn false s s' := by
  cases process with
  | none => exact ⟨s, rfl, h, h.unchanged rfl rfl⟩
  | some p =>
      have hok : AddOk (.remove (some p)) s := trivial
      obtain ⟨o, t, he, hq, -⟩ := schedulerStep_inv 0 h.queue hok
      obtain ⟨t', he', -, hcur, -, hstates⟩ :=
        schedulerRemoveProcess_spec h.queue.enabled h.queue.queue p
      rw [schedulerStep, he', Option.map_some, Option.some.injEq, Prod.mk.injEq] at he
      obtain rfl : t' = t := he.2
      have htimes := schedulerRemoveProcess_times he'
      have hturn : Turn false s t' := h.unchanged hcur htimes
      refine ⟨t', he', h.turn hq (h.slices.kept ⟨?_, fun x => by rw [htimes]⟩) hturn, hturn⟩
      intro x hx
      have hx' : t'.states x ≠ .unused := hx
      rw [hstates] at hx'
      exact hx'

/-- **One step** of a run is one step of the turns. -/
theorem taskStep_turn {op : TaskOp} (h : TurnInv s) (hok : QueueKept op s) :
    ∃ s', taskStep k op s = some ((), s') ∧ TurnInv s' ∧ Turn (isTick op) s s' := by
  cases op with
  | destroy p => exact ⟨_, rfl, h.destroy hok.1 hok.2⟩
  | scheduler op =>
      cases op with
      | create name priority => exact ⟨_, rfl, h.create k name priority⟩
      | add p => exact ⟨_, rfl, h.add hok.1 hok.2.1 hok.2.2⟩
      | remove process =>
          obtain ⟨t, he, ht⟩ := h.remove process
          exact ⟨t, by rw [taskStep, schedulerStep, he]; rfl, ht⟩
      | schedule =>
          obtain ⟨q', hq', -⟩ := schedulerSchedule_spec h.queue
          obtain ⟨hturn, hkept⟩ := schedulerSchedule_turn_of_slices h.queue h.slices
          exact ⟨_, rfl, h.turn hq' (h.slices.kept hkept) hturn, hturn⟩
      | yield =>
          obtain ⟨q', hq', -⟩ := schedulerSchedule_spec h.queue
          obtain ⟨hturn, hkept⟩ := schedulerSchedule_turn_of_slices h.queue h.slices
          rw [← schedulerYield_eq] at hq' hturn hkept
          exact ⟨_, rfl, h.turn hq' (h.slices.kept hkept) hturn, hturn⟩
      | tick =>
          obtain ⟨q', hq', -⟩ := schedulerTick_spec h.queue
          obtain ⟨hturn, hkept⟩ := schedulerTick_turn h.queue h.slices
          exact ⟨_, rfl, h.turn hq' (h.slices.kept hkept) hturn, hturn⟩
      | exit exitCode =>
          obtain ⟨q', hq', -⟩ := processExit_spec exitCode h.queue
          obtain ⟨hturn, hkept⟩ := processExit_turn exitCode h.queue h.slices
          exact ⟨_, rfl, h.turn hq' (h.slices.kept hkept) hturn, hturn⟩

/-! ### Runs -/

theorem bootTasks_turnInv (phys : Phys) : TurnInv (bootTasks phys) := by
  refine ⟨bootTasks_readyQueue phys, ?_, ?_⟩
  · intro x hx
    have hx0 : x = 0 := by
      by_contra hne
      exact hx (bootTasks_states hne)
    rw [hx0]
    exact ⟨show 1 ≤ 100 by decide, show 100 ≤ 200 by decide⟩
  · intro c hc
    obtain rfl : 0 = c := Option.some.inj hc
    exact show 0 < 4294967296 by decide

def ticks (ops : List TaskOp) : Nat := ops.countP isTick

/-- `c` is the current process, and others wait. -/
def Held (c : Nat) (_ : TaskOp) (s : Tasks) : Prop := s.currentProcess = some c ∧ readyList s ≠ []

/-- **Time slices are enforced** along the run of `ops`: it returns, every turn starts with
`time_used = 0`, the first one too, a tick while others wait leaves `time_used` below the slice,
and a process that is current while others wait is replaced by the tick that ends its slice. -/
structure SlicesEnforced (k : Nat) (ops : List TaskOp) (s₀ : Tasks) : Prop where
  total : ∃ os s, Machine.run (taskStep k) ops s₀ = some (os, s)
  first : ∀ c, s₀.currentProcess = some c → (s₀.processTable c).timeUsed = 0
  starts : ∀ ops₁ op ops₂ os s o s' c, ops = ops₁ ++ op :: ops₂ →
    Machine.run (taskStep k) ops₁ s₀ = some (os, s) → taskStep k op s = some (o, s') →
    s.currentProcess ≠ some c → s'.currentProcess = some c → (s'.processTable c).timeUsed = 0
  bounded : ∀ ops₁ ops₂ os s, ops = ops₁ ++ .scheduler .tick :: ops₂ →
    Machine.run (taskStep k) ops₁ s₀ = some (os, s) → readyList s ≠ [] →
    ∃ c, (schedulerTick s).currentProcess = some c ∧
      ((schedulerTick s).processTable c).timeUsed < ((schedulerTick s).processTable c).timeSlice
  replaced : ∀ ops₁ ops₂ ops₃ os s os' s' c, ops = ops₁ ++ (ops₂ ++ ops₃) →
    Machine.run (taskStep k) ops₁ s₀ = some (os, s) → Machine.Meets (taskStep k) (Held c) ops₂ s →
    Machine.run (taskStep k) ops₂ s = some (os', s') → s'.currentProcess = some c →
    ticks ops₂ < (s'.processTable c).timeSlice

theorem TurnInv.slice_pos (h : TurnInv s) (hc : s.currentProcess = some c) :
    1 ≤ (s.times c).1 := (h.slices c (h.queue.live_current hc)).1

theorem taskRun_turnInv {ops : List TaskOp} {os : List Unit} (h : TurnInv s)
    (hok : Machine.Meets (taskStep k) QueueKept ops s)
    (hrun : Machine.run (taskStep k) ops s = some (os, s')) : TurnInv s' := by
  refine Machine.run_inv ?_ h hok hrun
  intro op t o t' ht hg hstep
  obtain ⟨u, he, hinv, -⟩ := taskStep_turn (k := k) ht hg
  rw [he, Option.some.injEq, Prod.mk.injEq] at hstep
  rw [← hstep.2]
  exact hinv

theorem held_current {ops : List TaskOp} {os : List Unit}
    (hheld : Machine.Meets (taskStep k) (Held c) ops s)
    (hrun : Machine.run (taskStep k) ops s = some (os, s')) (hc : s'.currentProcess = some c) :
    s.currentProcess = some c := by
  cases ops with
  | nil =>
      obtain rfl : s = s' := congrArg Prod.snd (Option.some.inj hrun)
      exact hc
  | cons op ops => exact hheld.1.1

/-- **The count of a process that is held** is that of its ticks. -/
theorem taskRun_held {ops : List TaskOp} {os : List Unit} (h : TurnInv s)
    (hok : Machine.Meets (taskStep k) QueueKept ops s)
    (hcount : Machine.Meets (taskStep k) CountsOn ops s)
    (hheld : Machine.Meets (taskStep k) (Held c) ops s)
    (hrun : Machine.run (taskStep k) ops s = some (os, s')) (hc : s'.currentProcess = some c) :
    (s'.times c).1 = (s.times c).1 ∧ (s'.times c).2 = (s.times c).2 + ticks ops ∧
      (0 < ticks ops → (s'.times c).2 < (s'.times c).1) := by
  induction ops generalizing s os with
  | nil =>
      obtain rfl : s = s' := congrArg Prod.snd (Option.some.inj hrun)
      exact ⟨rfl, rfl, fun hpos => absurd hpos (Nat.lt_irrefl 0)⟩
  | cons op ops ih =>
      obtain ⟨o, t, os', ht, hrun', -⟩ := Machine.run_cons_some.mp hrun
      obtain ⟨u, he, hinv, hturn⟩ := taskStep_turn (k := k) h hok.1
      rw [ht, Option.some.injEq, Prod.mk.injEq] at he
      obtain rfl : t = u := he.2
      obtain ⟨hslice', hused', hbound'⟩ := ih hinv (hok.2 o t ht) (hcount.2 o t ht)
        (hheld.2 o t ht) hrun'
      have hct : t.currentProcess = some c := held_current (hheld.2 o t ht) hrun' hc
      obtain ⟨hcs, hwait⟩ := hheld.1
      cases hturn with
      | starts c' before after _ _ =>
          rw [hct] at after
          exact absurd (hcs.trans after) before
      | goesOn c' before after slice used bound =>
          rw [hcs, Option.some.injEq] at before
          subst before
          refine ⟨hslice'.trans slice, ?_⟩
          by_cases htick : isTick op = true
          · have hop : op = .scheduler .tick := by
              cases op with
              | destroy p => cases htick
              | scheduler op => cases op with
                | tick => rfl
                | _ => cases htick
            have hne : (s.times c).2 ≠ 4294967295 := by
              have hon := hcount.1
              rw [hop] at hon
              exact hon hwait c hcs
            have hlt := h.count c hcs
            have hticks : ticks (op :: ops) = ticks ops + 1 := List.countP_cons_of_pos htick
            rw [if_pos htick, add32_of_lt (by omega)] at used
            have hstep := bound htick hwait
            rw [hticks]
            refine ⟨by omega, fun _ => ?_⟩
            by_cases hpos : 0 < ticks ops
            · exact hbound' hpos
            · omega
          · have hticks : ticks (op :: ops) = ticks ops := List.countP_cons_of_neg htick
            rw [if_neg htick] at used
            rw [hticks, hused', used]
            refine ⟨rfl, ?_⟩
            rw [← used, ← hused']
            exact hbound'

/-- **Time slices along runs** on which the count does not run around while others wait. -/
theorem taskRun_slices (k : Nat) (phys : Phys) (ops : List TaskOp)
    (hok : Machine.Meets (taskStep k) QueueKept ops (bootTasks phys))
    (hcount : Machine.Meets (taskStep k) CountsOn ops (bootTasks phys)) :
    SlicesEnforced k ops (bootTasks phys) := by
  have hboot := bootTasks_turnInv phys
  refine ⟨?_, ?_, ?_, ?_, ?_⟩
  · obtain ⟨os, s, hrun, -⟩ := Machine.run_total (I := TurnInv) (fun op s hs hg => by
      obtain ⟨s', he, hinv, -⟩ := taskStep_turn (k := k) hs hg
      exact ⟨(), s', he, hinv⟩) hboot hok
    exact ⟨os, s, hrun⟩
  · intro c hc
    obtain rfl : 0 = c := Option.some.inj hc
    rfl
  · intro ops₁ op ops₂ os s o s' c hops hrun hstep hbefore hafter
    rw [hops, Machine.meets_append hrun] at hok
    have h := taskRun_turnInv hboot hok.1 hrun
    obtain ⟨t, he, -, hturn⟩ := taskStep_turn (k := k) h hok.2.1
    rw [hstep, Option.some.injEq, Prod.mk.injEq] at he
    obtain rfl : s' = t := he.2
    cases hturn with
    | goesOn c' before after _ _ _ =>
        rw [hafter, ← before] at after
        exact absurd after.symm hbefore
    | starts c' _ after _ used =>
        rw [hafter, Option.some.injEq] at after
        rw [after]
        exact used
  · intro ops₁ ops₂ os s hops hrun hwait
    rw [hops, Machine.meets_append hrun] at hok
    have h := taskRun_turnInv hboot hok.1 hrun
    cases (schedulerTick_turn h.queue h.slices).1 with
    | goesOn c before after _ _ bound => exact ⟨c, after, bound rfl hwait⟩
    | starts c before after slice used =>
        refine ⟨c, after, ?_⟩
        show ((schedulerTick s).times c).2 < ((schedulerTick s).times c).1
        rw [used]
        exact slice
  · intro ops₁ ops₂ ops₃ os s os' s' c hops hrun hheld hrun' hc
    rw [hops, Machine.meets_append hrun, Machine.meets_append hrun'] at hok hcount
    have h := taskRun_turnInv hboot hok.1 hrun
    have h' := taskRun_turnInv h hok.2.1 hrun'
    obtain ⟨-, hused, hbound⟩ := taskRun_held h hok.2.1 hcount.2.1 hheld hrun' hc
    show ticks ops₂ < (s'.times c).1
    by_cases hpos : 0 < ticks ops₂
    · have hlt := hbound hpos
      omega
    · have hslice := h'.slice_pos hc
      omega

theorem bootTasks_create_times (k : Nat) (phys : Phys) :
    (processCreate k [97] 2 (bootTasks phys)).2.currentProcess = some 0 ∧
      (processCreate k [97] 2 (bootTasks phys)).2.times 0 = (100, 0) := by
  obtain ⟨e, hrep, -, -⟩ := processCreate_slot k [97] 2 (bootTasks_freeSlot phys)
  refine ⟨hrep.current, ?_⟩
  rw [hrep.times_of_ne (by decide)]
  rfl

/-- A tick while one process waits. -/
def waitingTick : List TaskOp :=
  [.scheduler (.create [97] 2), .scheduler (.add 1), .scheduler .tick]

theorem waitingTick_meets (k : Nat) (phys : Phys) :
    Machine.Meets (taskStep k) QueueKept waitingTick (bootTasks phys) ∧
      Machine.Meets (taskStep k) CountsOn waitingTick (bootTasks phys) := by
  obtain ⟨hinv, hstates, -, hq, hne⟩ := bootTasks_create k [97] 2 phys
  obtain ⟨hcur, htimes⟩ := bootTasks_create_times k phys
  have hcreate : taskStep k (.scheduler (.create [97] 2)) (bootTasks phys)
      = some ((), (processCreate k [97] 2 (bootTasks phys)).2) := rfl
  generalize (processCreate k [97] 2 (bootTasks phys)).2 = s₁ at *
  obtain ⟨-, hcur₂, -, -⟩ := schedulerAddProcess_spec hinv.enabled hinv.queue (p := 1)
    List.not_mem_nil
  have htimes₂ := congrFun (schedulerAddProcess_times (s := s₁) (p := 1)) 0
  have hadd : taskStep k (.scheduler (.add 1)) s₁
      = some ((), schedulerAddProcess (some 1) s₁) := rfl
  generalize schedulerAddProcess (some 1) s₁ = s₂ at *
  rw [waitingTick, Machine.meets_cons_of_step hcreate, Machine.meets_cons_of_step hadd,
    Machine.meets_cons_of_step hcreate, Machine.meets_cons_of_step hadd]
  constructor
  · refine ⟨trivial, ⟨?_, hq, hne⟩, trivial, fun _ _ _ => trivial⟩
    have hone := congrFun hstates 1
    rw [Function.update_self, Tasks.states] at hone
    rw [Tasks.Live, hone]
    decide
  · refine ⟨trivial, trivial, ?_, fun _ _ _ => trivial⟩
    intro _ c hc
    rw [hcur₂, hcur, Option.some.injEq] at hc
    subst hc
    have hused : (s₂.processTable 0).timeUsed = 0 := congrArg Prod.snd (htimes₂.trans htimes)
    rw [hused]
    decide

/-- Theorem `taskRun_slices` for a tick while one process waits. -/
theorem taskRun_slices_tick :
    SlicesEnforced 0x110000 waitingTick (bootTasks (pmmInit ⟨fun _ => 0⟩)) :=
  taskRun_slices 0x110000 (pmmInit ⟨fun _ => 0⟩) waitingTick
    (waitingTick_meets 0x110000 (pmmInit ⟨fun _ => 0⟩)).1
    (waitingTick_meets 0x110000 (pmmInit ⟨fun _ => 0⟩)).2

/-! ### The count runs around -/

/-- A tick that does not end the slice, or that finds nobody waiting, is only counted. -/
theorem schedulerTick_counts (h : ReadyQueue s q) (hc : s.currentProcess = some c)
    (hq : q = [] ∨ add32 (s.times c).2 1 < (s.times c).1) :
    ReadyQueue (schedulerTick s) q ∧ (schedulerTick s).currentProcess = some c ∧
      (schedulerTick s).states = s.states ∧
      (schedulerTick s).times c = ((s.times c).1, add32 (s.times c).2 1) := by
  obtain ⟨hinv, hstates⟩ := h.count c
  have hon : ¬(!s.schedulerEnabled) = true := by
    rw [h.enabled]
    decide
  have htimes : (s.modify c fun e => { e with timeUsed := add32 e.timeUsed 1 }).times
      = Function.update s.times c ((s.times c).1, add32 (s.times c).2 1) := times_modify
  have hself := congrFun htimes c
  rw [Function.update_self] at hself
  have hcur : (s.modify c fun e => { e with timeUsed := add32 e.timeUsed 1 }).currentProcess
      = some c := hc
  rw [schedulerTick, if_neg hon, hc]
  dsimp only
  rw [schedulerYield_eq]
  generalize (s.modify c fun e => { e with timeUsed := add32 e.timeUsed 1 }) = t at *
  have hcount : (if (t.processTable c).timeSlice ≤ (t.processTable c).timeUsed
      then schedulerSchedule t else t) = t := by
    rcases hq with rfl | hlt
    · rw [schedulerSchedule_nil hinv]
      exact ite_self t
    · refine if_neg (Nat.not_le.mpr ?_)
      show (t.times c).2 < (t.times c).1
      rw [hself]
      exact hlt
  rw [hcount]
  exact ⟨hinv, hcur, hstates, hself⟩

theorem taskRun_counts {n : Nat} (h : ReadyQueue s q) (hc : s.currentProcess = some c)
    (hn : (s.times c).2 + n < 4294967296) (hq : q = [] ∨ (s.times c).2 + n < (s.times c).1) :
    ∃ os s', Machine.run (taskStep k) (List.replicate n (.scheduler .tick)) s = some (os, s') ∧
      ReadyQueue s' q ∧ s'.currentProcess = some c ∧ s'.states = s.states ∧
      s'.times c = ((s.times c).1, (s.times c).2 + n) ∧
      (q ≠ [] → Machine.Meets (taskStep k) (Held c) (List.replicate n (.scheduler .tick)) s) := by
  induction n generalizing s with
  | zero => exact ⟨[], s, rfl, h, hc, rfl, rfl, fun _ => trivial⟩
  | succ n ih =>
      have hone : add32 (s.times c).2 1 = (s.times c).2 + 1 := add32_of_lt (by omega)
      obtain ⟨h', hc', hstates', htimes'⟩ :=
        schedulerTick_counts h hc (hq.imp_right fun hlt => by omega)
      rw [hone] at htimes'
      obtain ⟨os, t, hrun, ht, hct, hstates, htimes, hheld⟩ := ih h' hc'
        (by rw [htimes']; dsimp only; omega)
        (hq.imp_right fun hlt => by rw [htimes']; dsimp only; omega)
      rw [htimes'] at htimes
      refine ⟨() :: os, t, Machine.run_cons_some.mpr ⟨(), _, os, rfl, hrun, rfl⟩, ht, hct,
        hstates.trans hstates', ?_, ?_⟩
      · rw [htimes, Nat.add_assoc, Nat.add_comm 1 n]
      · intro hne
        refine (Machine.meets_cons_of_step rfl).mpr ⟨⟨hc, ?_⟩, hheld hne⟩
        rw [h.readyList_eq]
        exact hne

/-- A process is created, `n` ticks later it is queued, and 100 more ticks come. -/
def lateArrival (n : Nat) : List TaskOp :=
  (.scheduler (.create [97] 2) :: List.replicate n (.scheduler .tick)) ++
    (.scheduler (.add 1) :: (List.replicate 100 (.scheduler .tick) ++ []))

/-- The kernel, whose slice has 100 ticks, is still the current process after 100 ticks during
which another process waited: its count ran around on the first of them. -/
theorem taskRun_wrapped :
    Machine.Meets (taskStep 0x110000) QueueKept (lateArrival 4294967295)
      (bootTasks (pmmInit ⟨fun _ => 0⟩)) ∧
    ¬SlicesEnforced 0x110000 (lateArrival 4294967295) (bootTasks (pmmInit ⟨fun _ => 0⟩)) := by
  generalize pmmInit ⟨fun _ => 0⟩ = phys
  obtain ⟨h₁, hstates₁, -, hq₁, hne₁⟩ := bootTasks_create 0x110000 [97] 2 phys
  obtain ⟨hcur₁, htimes₁⟩ := bootTasks_create_times 0x110000 phys
  generalize hs₁ : (processCreate 0x110000 [97] 2 (bootTasks phys)).2 = s₁ at *
  generalize hn : 4294967295 = n
  -- the idle ticks
  obtain ⟨os₂, s₂, hrun₂, h₂, hcur₂, hstates₂, htimes₂, -⟩ := taskRun_counts (k := 0x110000)
    (n := n) h₁ hcur₁ (by rw [htimes₁]; dsimp only; omega) (Or.inl rfl)
  rw [htimes₁] at htimes₂
  have hrun : Machine.run (taskStep 0x110000)
      (.scheduler (.create [97] 2) :: List.replicate n (.scheduler .tick)) (bootTasks phys)
      = some (() :: os₂, s₂) :=
    Machine.run_cons_some.mpr ⟨(), s₁, os₂, by rw [taskStep, schedulerStep, hs₁], hrun₂, rfl⟩
  -- process 1 is queued
  have hne₂ : s₂.currentProcess ≠ some 1 := by
    rw [hcur₂]
    decide
  have hlive₂ : s₂.Live 1 := by
    have hone := congrFun hstates₁ 1
    rw [← hstates₂, Function.update_self, Tasks.states] at hone
    rw [Tasks.Live, hone]
    decide
  obtain ⟨-, hcur₃, -, -⟩ := schedulerAddProcess_spec h₂.enabled h₂.queue (p := 1) List.not_mem_nil
  have h₃ : ReadyQueue (schedulerAddProcess (some 1) s₂) [1] := h₂.add List.not_mem_nil hne₂
  have htimes₃ : (schedulerAddProcess (some 1) s₂).times 0 = (100, n) := by
    rw [schedulerAddProcess_times, htimes₂, Nat.zero_add]
  have hstep₃ : taskStep 0x110000 (.scheduler (.add 1)) s₂
      = some ((), schedulerAddProcess (some 1) s₂) := rfl
  rw [hcur₂] at hcur₃
  generalize schedulerAddProcess (some 1) s₂ = s₃ at *
  -- the count runs around
  have hwrap : add32 (s₃.times 0).2 1 = 0 := by
    rw [htimes₃, ← hn, add32]
    decide
  have hslice₃ : (s₃.times 0).1 = 100 := congrArg Prod.fst htimes₃
  obtain ⟨h₄, hcur₄, -, htimes₄⟩ := schedulerTick_counts h₃ hcur₃
    (Or.inr (by rw [hwrap, hslice₃]; decide))
  rw [hwrap, hslice₃] at htimes₄
  have hstep₄ : taskStep 0x110000 (.scheduler .tick) s₃ = some ((), schedulerTick s₃) := rfl
  generalize schedulerTick s₃ = s₄ at *
  -- 99 ticks of the slice are left
  obtain ⟨os₅, s₅, hrun₅, h₅, hcur₅, -, htimes₅, hheld₅⟩ := taskRun_counts (k := 0x110000) (n := 99)
    h₄ hcur₄ (by rw [htimes₄]; decide) (Or.inr (by rw [htimes₄]; decide))
  rw [htimes₄] at htimes₅
  constructor
  · rw [lateArrival, Machine.meets_append hrun]
    refine ⟨⟨trivial, fun _ t _ => ?_⟩, ⟨hlive₂, ?_, hne₂⟩, fun _ t _ => ?_⟩
    · exact Machine.meets_of_forall (fun op hop t => List.eq_of_mem_replicate hop ▸ trivial) t
    · rw [h₂.readyList_eq]
      exact List.not_mem_nil
    · rw [List.append_nil]
      exact Machine.meets_of_forall (fun op hop t => List.eq_of_mem_replicate hop ▸ trivial) t
  · intro henf
    have hlt := henf.replaced
      ((.scheduler (.create [97] 2) :: List.replicate n (.scheduler .tick))
        ++ [.scheduler (.add 1)])
      (List.replicate 100 (.scheduler .tick)) [] _ s₃ _ s₅ 0
      (by rw [lateArrival, List.append_assoc, List.singleton_append])
      (Machine.run_append_some.mpr ⟨_, s₂, _, hrun,
        Machine.run_cons_some.mpr ⟨(), s₃, [], hstep₃, rfl, rfl⟩, rfl⟩)
      ((Machine.meets_cons_of_step hstep₄).mpr
        ⟨⟨hcur₃, by rw [h₃.readyList_eq]; decide⟩, hheld₅ (by decide)⟩)
      (Machine.run_cons_some.mpr ⟨(), s₄, os₅, hstep₄, hrun₅, rfl⟩) hcur₅
    have hslice : (s₅.processTable 0).timeSlice = 100 := congrArg Prod.fst htimes₅
    have hticks : ticks (List.replicate 100 (.scheduler .tick)) = 100 := by
      rw [ticks, List.countP_replicate]
      rfl
    omega

end AceOS.Kernel
