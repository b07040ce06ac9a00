import AceOS.Kernel.Scheduler

/-!
# Runs of the scheduler

`ReadyQueue s q` is the invariant: the queue is the list `q` of ready processes, the
current process is not in it, and no other one runs.  Scheduling rotates the current
process and the queue (`schedulerSchedule_running`), and every call keeps the invariant
(`schedulerStep_inv`).
-/

namespace AceOS.Kernel

open Memory LinkedQueue

/-! ### The invariant -/

structure ReadyQueue (s : Tasks) (q : List Nat) : Prop where
  enabled : s.schedulerEnabled = true
  queue : s.Queue q
  ready : ∀ p ∈ q, s.states p = .ready
  current : ∃ c, s.currentProcess = some c ∧ c ∉ q ∧
    (s.states c = .running ∨ s.states c = .terminated)
  only : ∀ p, s.states p = .running → s.currentProcess = some p

variable {s s' : Tasks} {p c : Nat} {q : List Nat}

theorem ReadyQueue.congr (h : ReadyQueue s q) (hq : s'.Queue q) (hs : s'.states = s.states)
    (hc : s'.currentProcess = s.currentProcess) (he : s'.schedulerEnabled = s.schedulerEnabled) :
    ReadyQueue s' q := by
  refine ⟨he.trans h.enabled, hq, ?_, ?_, ?_⟩
  · rw [hs]
    exact h.ready
  · rw [hs, hc]
    exact h.current
  · rw [hs, hc]
    exact h.only

theorem ReadyQueue.ne_of_mem (h : ReadyQueue s q) (hc : s.currentProcess = some c) (hp : p ∈ q) :
    p ≠ c := by
  obtain ⟨c', hc', hcq, -⟩ := h.current
  rw [hc, Option.some.injEq] at hc'
  rintro rfl
  exact hcq (hc' ▸ hp)

theorem ReadyQueue.live (h : ReadyQueue s q) (hp : p ∈ q) : s.Live p := by
  have hready : (s.processTable p).state = .ready := h.ready p hp
  rw [Tasks.Live, hready]
  decide

theorem ReadyQueue.live_current (h : ReadyQueue s q) (hc : s.currentProcess = some c) :
    s.Live c := by
  obtain ⟨c', hc', -, hstate⟩ := h.current
  rw [hc, Option.some.injEq] at hc'
  subst hc'
  show s.states c ≠ .unused
  rcases hstate with hs | hs <;> rw [hs] <;> decide

theorem Tasks.live_of_update {a : ProcessState} {x : Nat}
    (hs : s'.states = Function.update s.states p a) (hp : s.Live p) (hx : s'.Live x) :
    s.Live x := by
  have hx' : s'.states x ≠ .unused := hx
  rw [hs] at hx'
  by_cases hxp : x = p
  · exact hxp ▸ hp
  · rw [Function.update_of_ne hxp] at hx'
    exact hx'

/-! ### Scheduling -/

theorem saveContext_modify (f : Process → Process) (p : Nat) (s : Tasks) :
    (saveContext p s).modify p f = s.modify p fun e => f { e with esp := 0, ebp := 0 } :=
  Tasks.modify_twice _ f

theorem requeueCurrent_running (he : s.schedulerEnabled = true) (hq : s.Queue q)
    (hc : s.currentProcess = some c) (hcq : c ∉ q) (hrun : s.states c = .running) :
    (requeueCurrent s).Queue (q ++ [c]) ∧ (requeueCurrent s).schedulerEnabled = true ∧
      (requeueCurrent s).states = Function.update s.states c .ready := by
  have hrun' : (s.processTable c).state = .running := hrun
  have heq : requeueCurrent s = schedulerAddProcess (some c)
      (s.modify c fun e => { e with esp := 0, ebp := 0, state := .ready }) := by
    rw [requeueCurrent, hc]
    dsimp only
    rw [if_pos hrun', saveContext_modify, if_pos]
    rw [Tasks.modify_processTable, Function.update_self]
    show ProcessState.ready ≠ .terminated
    decide
  rw [heq]
  generalize hsaved : (s.modify c fun e => { e with esp := 0, ebp := 0, state := .ready }) = t
  have hlinks : t.links = s.links := hsaved ▸ links_modify_keep rfl
  have hstates : t.states = Function.update s.states c .ready := hsaved ▸ states_modify
  have hq' : t.Queue q := by
    have hqueue : t.readyQueue = s.readyQueue := hsaved ▸ rfl
    rw [Tasks.Queue, hlinks, hqueue]
    exact hq
  have he' : t.schedulerEnabled = true := hsaved ▸ he
  obtain ⟨hadd, -, hen, hst⟩ := schedulerAddProcess_spec he' hq' hcq
  refine ⟨hadd, hen, ?_⟩
  rw [hst, hstates, Function.update_idem]

theorem requeueCurrent_of_ne (hc : s.currentProcess = some c) (hrun : s.states c ≠ .running) :
    requeueCurrent s = s := by
  rw [requeueCurrent, hc]
  exact if_neg hrun

theorem schedulerSchedule_nil (h : ReadyQueue s []) : schedulerSchedule s = s := by
  rw [schedulerSchedule, getNextProcess_nil h.queue]
  exact ite_self _

/-- The process that is taken off the queue becomes the current one. -/
theorem schedulerSchedule_some (he : s.schedulerEnabled = true)
    (hnext : getNextProcess s = (some p, s')) :
    schedulerSchedule s = ({ requeueCurrent s' with currentProcess := some p } : Tasks).modify p
      fun e => { e with state := .running, timeUsed := 0 } := by
  have hnot : ¬(!s.schedulerEnabled) = true := by
    rw [he]
    decide
  rw [schedulerSchedule, if_neg hnot, hnext]

theorem ReadyQueue.switch {t : Tasks} (he : t.schedulerEnabled = true) (hq : t.Queue q)
    (hp : p ∉ q) (hready : ∀ x ∈ q, t.states x = .ready) (hidle : ∀ x, t.states x ≠ .running)
    (hs' : s' = ({ t with currentProcess := some p } : Tasks).modify p
      fun e => { e with state := .running, timeUsed := 0 }) :
    ReadyQueue s' q ∧ s'.currentProcess = some p ∧
      s'.states = Function.update t.states p .running := by
  have hstates : s'.states = Function.update t.states p .running := hs' ▸ states_modify
  have hlinks : s'.links = t.links := hs' ▸ links_modify_keep rfl
  have hcurrent : s'.currentProcess = some p := hs' ▸ rfl
  refine ⟨⟨hs' ▸ he, ?_, ?_, ⟨p, hcurrent, hp, Or.inl ?_⟩, ?_⟩, hcurrent, hstates⟩
  · rw [Tasks.Queue, hlinks]
    exact hs' ▸ hq
  · intro x hx
    have hxp : x ≠ p := fun h => hp (h ▸ hx)
    rw [hstates, Function.update_of_ne hxp]
    exact hready x hx
  · rw [hstates, Function.update_self]
  · intro x hx
    by_contra hne
    have hxp : x ≠ p := fun h => hne (h ▸ hcurrent)
    rw [hstates, Function.update_of_ne hxp] at hx
    exact hidle x hx

/-- **The running process goes to the end of the queue, and the first one runs.** -/
theorem schedulerSchedule_running (h : ReadyQueue s (p :: q)) (hc : s.currentProcess = some c)
    (hrun : s.states c = .running) : ReadyQueue (schedulerSchedule s) (q ++ [c]) ∧
      (schedulerSchedule s).currentProcess = some p ∧
      (schedulerSchedule s).states
        = Function.update (Function.update s.states c .ready) p .running := by
  obtain ⟨t, hnext, htq, htc, hte, hts⟩ := getNextProcess_cons h.queue
  have hpc : p ≠ c := h.ne_of_mem hc (List.mem_cons_self ..)
  have hcq : c ∉ q := fun hmem => h.ne_of_mem hc (List.mem_cons_of_mem p hmem) rfl
  obtain ⟨hq', he', hs'⟩ := requeueCurrent_running (hte.trans h.enabled) htq (htc.trans hc) hcq
    (hts ▸ hrun)
  have hpq : p ∉ q ++ [c] := by
    rw [List.mem_append, List.mem_singleton, not_or]
    exact ⟨(List.nodup_cons.mp h.queue.nodup).1, hpc⟩
  rw [← hts, ← hs']
  refine ReadyQueue.switch he' hq' hpq ?_ ?_ (schedulerSchedule_some h.enabled hnext)
  · intro x hx
    rw [hs', hts]
    by_cases hxc : x = c
    · rw [hxc, Function.update_self]
    · rw [Function.update_of_ne hxc]
      rw [List.mem_append, List.mem_singleton] at hx
      exact h.ready x (List.mem_cons_of_mem p (hx.resolve_right hxc))
  · intro x hx
    rw [hs', hts] at hx
    by_cases hxc : x = c
    · rw [hxc, Function.update_self] at hx
      exact absurd hx (by decide)
    · rw [Function.update_of_ne hxc] at hx
      exact hxc (Option.some.inj ((h.only x hx).symm.trans hc))

/-- Behind a process that has ended, the first one runs. -/
theorem schedulerSchedule_terminated (h : ReadyQueue s (p :: q)) (hc : s.currentProcess = some c)
    (hend : s.states c = .terminated) : ReadyQueue (schedulerSchedule s) q ∧
      (schedulerSchedule s).currentProcess = some p ∧
      (schedulerSchedule s).states = Function.update s.states p .running := by
  obtain ⟨t, hnext, htq, htc, hte, hts⟩ := getNextProcess_cons h.queue
  have hrun : t.states c ≠ .running := by
    rw [hts, hend]
    decide
  have heq : requeueCurrent t = t := requeueCurrent_of_ne (htc.trans hc) hrun
  have hsched := schedulerSchedule_some h.enabled hnext
  rw [heq] at hsched
  rw [← hts]
  refine ReadyQueue.switch (hte.trans h.enabled) htq (List.nodup_cons.mp h.queue.nodup).1
    ?_ ?_ hsched
  · intro x hx
    rw [hts]
    exact h.ready x (List.mem_cons_of_mem p hx)
  · intro x hx
    rw [hts] at hx
    have hxc : x = c := Option.some.inj ((h.only x hx).symm.trans hc)
    rw [hxc, hend] at hx
    exact absurd hx (by decide)

/-- **`scheduler_schedule`** keeps the invariant, and what has ended stays so. -/
theorem schedulerSchedule_spec (h : ReadyQueue s q) : ∃ q', ReadyQueue (schedulerSchedule s) q' ∧
    ∀ x, s.states x = .terminated → (schedulerSchedule s).states x = .terminated := by
  obtain ⟨c, hc, hcq, hstate⟩ := h.current
  cases q with
  | nil =>
      refine ⟨[], ?_⟩
      rw [schedulerSchedule_nil h]
      exact ⟨h, fun x hx => hx⟩
  | cons p q =>
      have hp : ∀ x, s.states x = .terminated → x ≠ p := by
        intro x hx hxp
        rw [hxp, h.ready p (List.mem_cons_self ..)] at hx
        exact absurd hx (by decide)
      rcases hstate with hrun | hend
      · obtain ⟨hinv, -, hs'⟩ := schedulerSchedule_running h hc hrun
        refine ⟨q ++ [c], hinv, ?_⟩
        intro x hx
        have hxc : x ≠ c := by
          rintro rfl
          rw [hrun] at hx
          exact absurd hx (by decide)
        rw [hs', Function.update_of_ne (hp x hx), Function.update_of_ne hxc]
        exact hx
      · obtain ⟨hinv, -, hs'⟩ := schedulerSchedule_terminated h hc hend
        refine ⟨q, hinv, ?_⟩
        intro x hx
        rw [hs', Function.update_of_ne (hp x hx)]
        exact hx

theorem schedulerYield_eq (s : Tasks) : schedulerYield s = schedulerSchedule s := by
  rw [schedulerYield]
  split
  · rename_i hoff
    rw [schedulerSchedule, if_pos hoff]
  · rfl

theorem ReadyQueue.count (h : ReadyQueue s q) (c : Nat) :
    ReadyQueue (s.modify c fun e => { e with timeUsed := add32 e.timeUsed 1 }) q ∧
      (s.modify c fun e => { e with timeUsed := add32 e.timeUsed 1 }).states = s.states := by
  have hlinks : (s.modify c fun e => { e with timeUsed := add32 e.timeUsed 1 }).links = s.links :=
    links_modify_keep rfl
  have hstates : (s.modify c fun e => { e with timeUsed := add32 e.timeUsed 1 }).states
      = s.states :=
    states_modify_keep rfl
  refine ⟨h.congr ?_ hstates rfl rfl, hstates⟩
  rw [Tasks.Queue, hlinks]
  exact h.queue

/-- `scheduler_tick` counts, and schedules at the end of the time slice. -/
theorem schedulerTick_spec (h : ReadyQueue s q) : ∃ q', ReadyQueue (schedulerTick s) q' ∧
    ∀ x, s.states x = .terminated → (schedulerTick s).states x = .terminated := by
  obtain ⟨c, hc, -, -⟩ := h.current
  have hon : ¬(!s.schedulerEnabled) = true := by
    rw [h.enabled]
    decide
  obtain ⟨hinv, hstates⟩ := h.count c
  rw [schedulerTick, if_neg hon, hc]
  dsimp only
  split
  · obtain ⟨q', hq', hend⟩ := schedulerSchedule_spec hinv
    rw [schedulerYield_eq]
    refine ⟨q', hq', ?_⟩
    rwa [hstates] at hend
  · refine ⟨q, hinv, ?_⟩
    rw [hstates]
    exact fun x hx => hx

theorem ReadyQueue.terminate (h : ReadyQueue s q) (hc : s.currentProcess = some c)
    (exitCode : Int) :
    ReadyQueue (s.modify c fun e => { e with exitCode := exitCode, state := .terminated }) q ∧
      (s.modify c fun e => { e with exitCode := exitCode, state := .terminated }).states
        = Function.update s.states c .terminated := by
  have hlinks : (s.modify c fun e => { e with exitCode := exitCode, state := .terminated }).links
      = s.links := links_modify_keep rfl
  have hstates : (s.modify c fun e => { e with exitCode := exitCode, state := .terminated }).states
      = Function.update s.states c .terminated := states_modify
  have hcq : c ∉ q := fun hmem => h.ne_of_mem hc hmem rfl
  refine ⟨⟨h.enabled, ?_, ?_, ⟨c, hc, hcq, Or.inr ?_⟩, ?_⟩, hstates⟩
  · rw [Tasks.Queue, hlinks]
    exact h.queue
  · intro x hx
    rw [hstates, Function.update_of_ne (h.ne_of_mem hc hx)]
    exact h.ready x hx
  · rw [hstates, Function.update_self]
  · intro x hx
    have hxc : x ≠ c := by
      rintro rfl
      rw [hstates, Function.update_self] at hx
      exact absurd hx (by decide)
    rw [hstates, Function.update_of_ne hxc] at hx
    exact h.only x hx

/-- `process_exit` ends the current process, unless it is the kernel. -/
theorem processExit_spec (exitCode : Int) (h : ReadyQueue s q) :
    ∃ q', ReadyQueue (processExit exitCode s) q' ∧
      ∀ x, s.states x = .terminated → (processExit exitCode s).states x = .terminated := by
  obtain ⟨c, hc, -, -⟩ := h.current
  rw [processExit, hc]
  dsimp only
  split
  · exact ⟨q, h, fun x hx => hx⟩
  · obtain ⟨hinv, hstates⟩ := h.terminate hc exitCode
    obtain ⟨q', hq', hend⟩ := schedulerSchedule_spec hinv
    refine ⟨q', hq', fun x hx => hend x ?_⟩
    rw [hstates]
    by_cases hxc : x = c
    · rw [hxc, Function.update_self]
    · rw [Function.update_of_ne hxc]
      exact hx

/-! ### The other calls -/

theorem ReadyQueue.add (h : ReadyQueue s q) (hp : p ∉ q) (hc : s.currentProcess ≠ some p) :
    ReadyQueue (schedulerAddProcess (some p) s) (q ++ [p]) := by
  obtain ⟨hq', hc', he', hs'⟩ := schedulerAddProcess_spec h.enabled h.queue hp
  obtain ⟨c, hcur, hcq, hstate⟩ := h.current
  have hcp : c ≠ p := fun he => hc (he ▸ hcur)
  refine ⟨he', hq', ?_, ⟨c, hc'.trans hcur, ?_, ?_⟩, ?_⟩
  · intro x hx
    rw [hs']
    by_cases hxp : x = p
    · rw [hxp, Function.update_self]
    · rw [List.mem_append, List.mem_singleton] at hx
      rw [Function.update_of_ne hxp]
      exact h.ready x (hx.resolve_right hxp)
  · rw [List.mem_append, List.mem_singleton, not_or]
    exact ⟨hcq, hcp⟩
  · rw [hs', Function.update_of_ne hcp]
    exact hstate
  · intro x hx
    have hxp : x ≠ p := by
      rintro rfl
      rw [hs', Function.update_self] at hx
      exact absurd hx (by decide)
    rw [hs', Function.update_of_ne hxp] at hx
    exact hc'.trans (h.only x hx)

/-- The link of a process outside the queue does not matter. -/
theorem Tasks.Queue.replaced {e : Process} (h : s.Queue q) (hrep : s.Replaced s' p e) (hp : p ∉ q) :
    s'.Queue q := by
  have hlinks : ∀ x ∈ q, s'.links x = s.links x := by
    intro x hx
    have hxp : x ≠ p := fun he => hp (he ▸ hx)
    exact congrArg Process.next (hrep.other x hxp)
  rw [Tasks.Queue, hrep.queue]
  exact ⟨h.linked.congr hlinks, h.tail_eq, h.count_eq, h.nodup⟩

theorem Tasks.Replaced.states_eq {e : Process} (hrep : s.Replaced s' p e) :
    s'.states = Function.update s.states p e.state := by
  funext x
  by_cases hxp : x = p
  · rw [hxp, Function.update_self, Tasks.states, hrep.self]
  · rw [Function.update_of_ne hxp, Tasks.states, hrep.other x hxp]
    rfl

theorem ReadyQueue.replaced {e : Process} (h : ReadyQueue s q) (hrep : s.Replaced s' p e)
    (hp : p ∉ q) (hc : s.currentProcess ≠ some p) (he : e.state ≠ .running) : ReadyQueue s' q := by
  obtain ⟨c, hcur, hcq, hstate⟩ := h.current
  have hcp : c ≠ p := fun he => hc (he ▸ hcur)
  have hs' := hrep.states_eq
  refine ⟨hrep.enabled.trans h.enabled, h.queue.replaced hrep hp, ?_,
    ⟨c, hrep.current.trans hcur, hcq, ?_⟩, ?_⟩
  · intro x hx
    have hxp : x ≠ p := fun he => hp (he ▸ hx)
    rw [hs', Function.update_of_ne hxp]
    exact h.ready x hx
  · rw [hs', Function.update_of_ne hcp]
    exact hstate
  · intro x hx
    have hxp : x ≠ p := by
      rintro rfl
      rw [hs', Function.update_self] at hx
      exact he hx
    rw [hs', Function.update_of_ne hxp] at hx
    exact hrep.current.trans (h.only x hx)

/-- **`process_create`** in a state with a free slot: a ready process that may be queued. -/
theorem ReadyQueue.create {i : Nat} (kernelPageDirectory : Nat) (name : List UInt8) (priority : Nat)
    (h : ReadyQueue s q) (hi : findFreeSlot s 1 (maxProcesses - 1) = some i) :
    ReadyQueue (processCreate kernelPageDirectory name priority s).2 q ∧
      (processCreate kernelPageDirectory name priority s).2.states
        = Function.update s.states i .ready ∧
      i ∉ q ∧ (processCreate kernelPageDirectory name priority s).2.currentProcess ≠ some i := by
  have hunused : s.states i = .unused := (findFreeSlot_some hi).2.2
  have hiq : i ∉ q := by
    intro hmem
    have hready := h.ready i hmem
    rw [hunused] at hready
    exact absurd hready (by decide)
  have hcur : s.currentProcess ≠ some i := by
    intro hc
    obtain ⟨c, hc', -, hlive⟩ := h.current
    rw [hc, Option.some.injEq] at hc'
    rw [← hc', hunused] at hlive
    exact absurd hlive (by decide)
  obtain ⟨e, hrep, -, hstate⟩ := processCreate_slot kernelPageDirectory name priority hi
  have hstates := hrep.states_eq
  rw [hstate] at hstates
  refine ⟨h.replaced hrep hiq hcur ?_, hstates, hiq, ?_⟩
  · rw [hstate]
    decide
  · exact fun hc => hcur (hrep.current.symm.trans hc)

/-! ### Runs -/

inductive SchedulerOp
  | create (name : List UInt8) (priority : Nat)
  | add (p : Nat)
  | remove (process : Option Nat)
  | schedule
  | yield
  | tick
  | exit (exitCode : Int)
  deriving DecidableEq, Repr

def schedulerStep (kernelPageDirectory : Nat) : SchedulerOp → Tasks → Option (Unit × Tasks)
  | .create name priority, s => some ((), (processCreate kernelPageDirectory name priority s).2)
  | .add p, s => some ((), schedulerAddProcess (some p) s)
  | .remove process, s => (schedulerRemoveProcess process s).map fun s' => ((), s')
  | .schedule, s => some ((), schedulerSchedule s)
  | .yield, s => some ((), schedulerYield s)
  | .tick, s => some ((), schedulerTick s)
  | .exit exitCode, s => some ((), processExit exitCode s)

/-- Only a ready process that is neither queued nor the current one is added. -/
def AddOk : SchedulerOp → Tasks → Prop
  | .add p, s => (s.processTable p).state = .ready ∧ p ∉ readyList s ∧ s.currentProcess ≠ some p
  | _, _ => True

/-- `process_init`, then `scheduler_init`. -/
def bootTasks (phys : Phys) : Tasks := schedulerInit (processInit phys)

theorem bootTasks_readyQueue (phys : Phys) : ReadyQueue (bootTasks phys) [] := by
  refine ⟨rfl, represents_nil, fun p hp => absurd hp List.not_mem_nil,
    ⟨0, rfl, List.not_mem_nil, Or.inl ?_⟩, ?_⟩
  · rfl
  · intro p hp
    by_contra hne
    have hp0 : p ≠ 0 := fun he => hne (he ▸ rfl)
    have hcleared : (bootTasks phys).processTable p = Process.cleared :=
      Function.update_of_ne hp0 _ fun _ => Process.cleared
    rw [Tasks.states, hcleared] at hp
    exact absurd hp (by decide)

theorem ReadyQueue.readyList_eq (h : ReadyQueue s q) : readyList s = q := h.queue.readyList_eq

/-- **One step** returns and keeps the invariant, and what has ended stays so. -/
theorem schedulerStep_inv {op : SchedulerOp} (kernelPageDirectory : Nat)
    (h : ReadyQueue s (readyList s)) (hok : AddOk op s) :
    ∃ o s', schedulerStep kernelPageDirectory op s = some (o, s') ∧ ReadyQueue s' (readyList s') ∧
      ∀ x, s.states x = .terminated → s'.states x = .terminated := by
  have hlist : ∀ {t : Tasks} {q : List Nat}, ReadyQueue t q → ReadyQueue t (readyList t) :=
    fun ht => ht.readyList_eq.symm ▸ ht
  cases op with
  | create name priority =>
      refine ⟨(), _, rfl, ?_⟩
      cases hi : findFreeSlot s 1 (maxProcesses - 1) with
      | none =>
          rcases processCreate_cases (k := kernelPageDirectory) name priority s with ⟨-, he⟩ |
            ⟨j, e, r, t, hj, -⟩
          · rw [he]
            exact ⟨h, fun x hx => hx⟩
          · rw [hi] at hj
            exact absurd hj (by simp)
      | some i =>
          obtain ⟨hinv, hs', -, -⟩ := h.create kernelPageDirectory name priority hi
          refine ⟨hlist hinv, ?_⟩
          intro x hx
          have hunused : s.states i = .unused := (findFreeSlot_some hi).2.2
          have hxi : x ≠ i := by
            rintro rfl
            rw [hunused] at hx
            exact absurd hx (by decide)
          rw [hs', Function.update_of_ne hxi]
          exact hx
  | add p =>
      obtain ⟨hready, hp, hc⟩ := hok
      refine ⟨(), _, rfl, hlist (h.add hp hc), ?_⟩
      intro x hx
      have hxp : x ≠ p := by
        rintro rfl
        rw [Tasks.states, hready] at hx
        exact absurd hx (by decide)
      obtain ⟨-, -, -, hs'⟩ := schedulerAddProcess_spec h.enabled h.queue hp
      rw [hs', Function.update_of_ne hxp]
      exact hx
  | remove process =>
      cases process with
      | none => exact ⟨(), s, rfl, h, fun x hx => hx⟩
      | some p =>
          obtain ⟨s', he, hq, hc, hen, hs'⟩ := schedulerRemoveProcess_spec h.enabled h.queue p
          refine ⟨(), s', ?_, ?_, ?_⟩
          · rw [schedulerStep, he]
            rfl
          · refine hlist (q := (readyList s).erase p) ⟨hen, hq, ?_, ?_, ?_⟩
            · intro x hx
              rw [hs']
              exact h.ready x (List.mem_of_mem_erase hx)
            · obtain ⟨c, hcur, hcq, hstate⟩ := h.current
              rw [hs', hc]
              exact ⟨c, hcur, fun hmem => hcq (List.mem_of_mem_erase hmem), hstate⟩
            · rw [hs', hc]
              exact h.only
          · rw [hs']
            exact fun x hx => hx
  | schedule =>
      obtain ⟨q', hinv, hend⟩ := schedulerSchedule_spec h
      exact ⟨(), _, rfl, hlist hinv, hend⟩
  | yield =>
      obtain ⟨q', hinv, hend⟩ := schedulerSchedule_spec h
      rw [← schedulerYield_eq] at hinv hend
      exact ⟨(), _, rfl, hlist hinv, hend⟩
  | tick =>
      obtain ⟨q', hinv, hend⟩ := schedulerTick_spec h
      exact ⟨(), _, rfl, hlist hinv, hend⟩
  | exit exitCode =>
      obtain ⟨q', hinv, hend⟩ := processExit_spec exitCode h
      exact ⟨(), _, rfl, hlist hinv, hend⟩

theorem schedulerRun_terminated {ops : List SchedulerOp} {os : List Unit} {x : Nat}
    (kernelPageDirectory : Nat) (h : ReadyQueue s (readyList s))
    (hok : Machine.Meets (schedulerStep kernelPageDirectory) AddOk ops s)
    (hrun : Machine.run (schedulerStep kernelPageDirectory) ops s = some (os, s'))
    (hx : s.states x = .terminated) : ReadyQueue s' (readyList s') ∧ s'.states x = .terminated := by
  refine Machine.run_inv (I := fun t => ReadyQueue t (readyList t) ∧ t.states x = .terminated)
    ?_ ⟨h, hx⟩ hok hrun
  rintro op t o t' ⟨ht, hend⟩ hg hstep
  obtain ⟨o', u, he, hinv, hkeep⟩ := schedulerStep_inv kernelPageDirectory ht hg
  rw [he, Option.some.injEq, Prod.mk.injEq] at hstep
  rw [← hstep.2]
  exact ⟨hinv, hkeep x hend⟩

/-- **The ready queue along runs.** -/
theorem schedulerRun_readyQueue (kernelPageDirectory : Nat) (phys : Phys) (ops : List SchedulerOp)
    (hok : Machine.Meets (schedulerStep kernelPageDirectory) AddOk ops (bootTasks phys)) :
    ∃ os s, Machine.run (schedulerStep kernelPageDirectory) ops (bootTasks phys) = some (os, s) ∧
      Represents s.links s.readyQueue.head s.readyQueue.tail s.readyQueue.count (readyList s) ∧
      (s.readyQueue.head = none ↔ s.readyQueue.count = 0) ∧
      (s.readyQueue.tail = none ↔ s.readyQueue.count = 0) ∧
      (∀ p ∈ readyList s, (s.processTable p).state = .ready) ∧
      (∀ p, s.currentProcess = some p → p ∉ readyList s) ∧
      (∀ p, (s.processTable p).state = .running → s.currentProcess = some p) ∧
      (∀ p, AddOk (.add p) s →
        readyList (schedulerAddProcess (some p) s) = readyList s ++ [p]) ∧
      (∀ p, ∃ s', schedulerRemoveProcess (some p) s = some s' ∧
        readyList s' = (readyList s).erase p) ∧
      ∀ ops' os' s' p, Machine.Meets (schedulerStep kernelPageDirectory) AddOk ops' s →
        Machine.run (schedulerStep kernelPageDirectory) ops' s = some (os', s') →
        (s.processTable p).state = .terminated →
        (s'.processTable p).state = .terminated ∧ p ∉ readyList s' := by
  have hboot : ReadyQueue (bootTasks phys) (readyList (bootTasks phys)) :=
    bootTasks_readyQueue phys
  obtain ⟨os, s, hrun, h⟩ := Machine.run_total (I := fun s => ReadyQueue s (readyList s))
    (fun op s hs hg => by
      obtain ⟨o, s', he, hinv, -⟩ := schedulerStep_inv kernelPageDirectory hs hg
      exact ⟨o, s', he, hinv⟩) hboot hok
  have hq := h.queue
  refine ⟨os, s, hrun, hq, hq.head_eq_none, hq.tail_eq_none, h.ready, ?_, h.only, ?_, ?_, ?_⟩
  · intro p hc hp
    exact h.ne_of_mem hc hp rfl
  · rintro p ⟨-, hp, hc⟩
    exact (h.add hp hc).readyList_eq
  · intro p
    obtain ⟨s', he, hq', -⟩ := schedulerRemoveProcess_spec h.enabled hq p
    exact ⟨s', he, hq'.readyList_eq⟩
  · intro ops' os' s' p hok' hrun' hp
    obtain ⟨h', hend⟩ := schedulerRun_terminated kernelPageDirectory h hok' hrun' hp
    refine ⟨hend, ?_⟩
    intro hmem
    rw [h'.ready p hmem] at hend
    exact absurd hend (by decide)

theorem findFreeSlot_eq {i n j : Nat} (hij : i ≤ j) (hjn : j < i + n)
    (hused : ∀ x, i ≤ x → x < j → s.states x ≠ .unused) (hj : s.states j = .unused) :
    findFreeSlot s i n = some j := by
  induction n generalizing i with
  | zero => omega
  | succ n ih =>
      rw [findFreeSlot]
      by_cases he : i = j
      · subst he
        exact if_pos hj
      · have hi : ¬(s.processTable i).state = .unused := hused i (Nat.le_refl i) (by omega)
        rw [if_neg hi]
        exact ih (by omega) (by omega) fun x h₁ h₂ => hused x (by omega) h₂

theorem bootTasks_states {phys : Phys} (hp : p ≠ 0) : (bootTasks phys).states p = .unused :=
  congrArg Process.state (Function.update_of_ne hp _ fun _ => Process.cleared)

theorem bootTasks_freeSlot (phys : Phys) :
    findFreeSlot (bootTasks phys) 1 (maxProcesses - 1) = some 1 := by
  refine findFreeSlot_eq (Nat.le_refl 1) (by decide) ?_ (bootTasks_states (by decide))
  intro x h₁ h₂
  omega

theorem bootTasks_create (kernelPageDirectory : Nat) (name : List UInt8) (priority : Nat)
    (phys : Phys) :
    ReadyQueue (processCreate kernelPageDirectory name priority (bootTasks phys)).2 [] ∧
      (processCreate kernelPageDirectory name priority (bootTasks phys)).2.states
        = Function.update (bootTasks phys).states 1 .ready ∧
      AddOk (.add 1) (processCreate kernelPageDirectory name priority (bootTasks phys)).2 := by
  obtain ⟨hinv, hs', -, hc⟩ := (bootTasks_readyQueue phys).create kernelPageDirectory name priority
    (bootTasks_freeSlot phys)
  refine ⟨hinv, hs', ?_, ?_, hc⟩
  · have hone := congrFun hs' 1
    rw [Function.update_self] at hone
    exact hone
  · rw [hinv.readyList_eq]
    exact List.not_mem_nil

/-- Theorem `schedulerRun_readyQueue` for a process that is created, runs and exits. -/
theorem schedulerRun_readyQueue_exit :
    ∃ os s, Machine.run (schedulerStep 0x110000) [.create [97] 2, .add 1, .schedule, .exit 3]
        (bootTasks (vmmInit 0x110000 (pmmInit ⟨fun _ => 0⟩))) = some (os, s) ∧
      Represents s.links s.readyQueue.head s.readyQueue.tail s.readyQueue.count (readyList s) := by
  obtain ⟨os, s, hrun, hq, -⟩ := schedulerRun_readyQueue 0x110000
    (vmmInit 0x110000 (pmmInit ⟨fun _ => 0⟩)) [.create [97] 2, .add 1, .schedule, .exit 3] (by
      refine ⟨trivial, ?_⟩
      intro o s₁ hs₁
      rw [schedulerStep, Option.some.injEq, Prod.mk.injEq] at hs₁
      rw [← hs₁.2]
      exact ⟨(bootTasks_create ..).2.2, fun _ _ _ =>
        ⟨trivial, fun _ _ _ => ⟨trivial, fun _ _ _ => trivial⟩⟩⟩)
  exact ⟨os, s, hrun, hq⟩

/-! ### Rotation -/

theorem heads_rotate {α : Type*} (l : List α) (k : Nat) :
    (List.range l.length).map (fun j => (l.rotate (k + j)).head?) = (l.rotate k).map some := by
  apply List.ext_getElem?
  intro i
  rw [List.getElem?_map, List.getElem?_map]
  by_cases hi : i < l.length
  · have hlen : i < (l.rotate k).length := by rwa [List.length_rotate]
    rw [List.getElem?_range hi, List.getElem?_eq_getElem hlen, Option.map_some, Option.map_some,
      ← List.rotate_rotate, List.head?_rotate hlen, List.getElem?_eq_getElem hlen]
  · rw [List.getElem?_eq_none (by rw [List.length_range]; omega),
      List.getElem?_eq_none (by rw [List.length_rotate]; omega)]
    rfl

/-- One call rotates the running process and the queue by one. -/
theorem schedulerSchedule_rotates (h : ReadyQueue s q) (hc : s.currentProcess = some c)
    (hrun : s.states c = .running) : ∃ c' q', ReadyQueue (schedulerSchedule s) q' ∧
      (schedulerSchedule s).currentProcess = some c' ∧
      (schedulerSchedule s).states c' = .running ∧ c' :: q' = (c :: q).rotate 1 := by
  cases q with
  | nil =>
      rw [schedulerSchedule_nil h]
      exact ⟨c, [], h, hc, hrun, (List.rotate_singleton c 1).symm⟩
  | cons p q =>
      obtain ⟨hinv, hcur, hs'⟩ := schedulerSchedule_running h hc hrun
      refine ⟨p, q ++ [c], hinv, hcur, ?_, ?_⟩
      · rw [hs', Function.update_self]
      · rw [List.rotate_cons_succ, List.rotate_zero]
        rfl

theorem schedulerSchedule_iterate (h : ReadyQueue s q) (hc : s.currentProcess = some c)
    (hrun : s.states c = .running) (k : Nat) : ∃ c' q', ReadyQueue (schedulerSchedule^[k] s) q' ∧
      (schedulerSchedule^[k] s).currentProcess = some c' ∧
      (schedulerSchedule^[k] s).states c' = .running ∧ c' :: q' = (c :: q).rotate k := by
  induction k with
  | zero => exact ⟨c, q, h, hc, hrun, (List.rotate_zero _).symm⟩
  | succ k ih =>
      obtain ⟨c₁, q₁, h₁, hc₁, hrun₁, hrot₁⟩ := ih
      obtain ⟨c₂, q₂, h₂, hc₂, hrun₂, hrot₂⟩ := schedulerSchedule_rotates h₁ hc₁ hrun₁
      rw [Function.iterate_succ_apply']
      refine ⟨c₂, q₂, h₂, hc₂, hrun₂, ?_⟩
      rw [hrot₂, hrot₁, List.rotate_rotate]

/-- **Round robin.**  After `k` calls the current process and the queue are the list of the
beginning rotated by `k`, one of these processes runs, and in any `n + 1` calls each of them
becomes the current one once. -/
theorem schedulerSchedule_roundRobin (h : ReadyQueue s q) (hc : s.currentProcess = some c)
    (hrun : (s.processTable c).state = .running) (k : Nat) :
    (∃ c', (schedulerSchedule^[k] s).currentProcess = some c' ∧
      c' :: readyList (schedulerSchedule^[k] s) = (c :: q).rotate k ∧
      ∀ p ∈ c :: q, ((schedulerSchedule^[k] s).processTable p).state = .running ↔ p = c') ∧
    (List.range (q.length + 1)).map
        (fun j => (schedulerSchedule^[k + 1 + j] s).currentProcess)
      = ((c :: q).rotate (k + 1)).map some ∧
    ((c :: q).rotate (k + 1)).Nodup ∧ ((c :: q).rotate (k + 1)).Perm (c :: q) := by
  have hiter := schedulerSchedule_iterate h hc hrun
  have hcurrent : ∀ m, (schedulerSchedule^[m] s).currentProcess = ((c :: q).rotate m).head? := by
    intro m
    obtain ⟨c', q', -, hc', -, hrot⟩ := hiter m
    rw [hc', ← hrot]
    rfl
  have hnodup : (c :: q).Nodup :=
    List.nodup_cons.mpr ⟨fun hmem => h.ne_of_mem hc hmem rfl, h.queue.nodup⟩
  refine ⟨?_, ?_, List.nodup_rotate.mpr hnodup, List.rotate_perm ..⟩
  · obtain ⟨c', q', h', hc', hrun', hrot⟩ := hiter k
    refine ⟨c', hc', ?_, ?_⟩
    · rw [h'.readyList_eq]
      exact hrot
    · intro p _
      constructor
      · intro hp
        exact Option.some.inj ((h'.only p hp).symm.trans hc')
      · rintro rfl
        exact hrun'
  · rw [← heads_rotate]
    exact List.map_congr_left fun j _ => hcurrent (k + 1 + j)

/-- Theorem `schedulerSchedule_roundRobin` for the kernel and one process. -/
theorem schedulerSchedule_roundRobin_two : ∃ s, ReadyQueue s [1] ∧ s.currentProcess = some 0 ∧
    (schedulerSchedule^[3] s).currentProcess = some 1 ∧
    readyList (schedulerSchedule^[3] s) = [0] := by
  obtain ⟨phys⟩ : Nonempty Phys := ⟨pmmInit ⟨fun _ => 0⟩⟩
  obtain ⟨h, hs', -, -, hc⟩ := bootTasks_create 0x110000 [97] 2 phys
  generalize (processCreate 0x110000 [97] 2 (bootTasks phys)).2 = s at h hs' hc
  have hrun : s.states 0 = .running := by
    rw [hs', Function.update_of_ne (by decide)]
    rfl
  have hcur : s.currentProcess = some 0 := h.only 0 hrun
  have hadd := h.add List.not_mem_nil hc
  obtain ⟨-, hcur', -, hstates'⟩ := schedulerAddProcess_spec h.enabled h.queue List.not_mem_nil
    (p := 1)
  have hrun' : ((schedulerAddProcess (some 1) s).processTable 0).state = .running := by
    have hzero := congrFun hstates' 0
    rw [Function.update_of_ne (by decide), hrun] at hzero
    exact hzero
  obtain ⟨⟨c', hc', hlist, -⟩, -⟩ :=
    schedulerSchedule_roundRobin hadd (hcur'.trans hcur) hrun' 3
  have hrot : c' :: readyList (schedulerSchedule^[3] (schedulerAddProcess (some 1) s)) = [1, 0] :=
    hlist
  rw [List.cons.injEq] at hrot
  exact ⟨_, hadd, hcur'.trans hcur, hrot.1 ▸ hc', hrot.2⟩

end AceOS.Kernel
