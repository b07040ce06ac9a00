import AceOS.Kernel.SchedulerRun

/-!
# Destroying a process that is queued

`process_destroy` clears the whole slot, the link of the ready queue with it, and tells
the scheduler nothing.  The queue stays intact if and only if the process is not queued
(`ReadyQueue.destroy_intact`); otherwise its slot stays at the place it had and what was
behind it is lost.
-/

namespace AceOS.Kernel

open Memory LinkedQueue

variable {s : Tasks} {p : Nat} {q : List Nat}

/-! ### The calls -/

inductive TaskOp
  | scheduler (op : SchedulerOp)
  | destroy (p : Nat)
  deriving DecidableEq, Repr

def taskStep (kernelPageDirectory : Nat) : TaskOp → Tasks → Option (Unit × Tasks)
  | .scheduler op, s => schedulerStep kernelPageDirectory op s
  | .destroy p, s => some ((), processDestroy (some p) s)

/-- What is destroyed is live, and neither the current process nor the kernel. -/
def DestroyOk (p : Nat) (s : Tasks) : Prop := s.Live p ∧ s.currentProcess ≠ some p ∧ p ≠ 0

def TaskOk : TaskOp → Tasks → Prop
  | .scheduler op, s => AddOk op s
  | .destroy p, s => DestroyOk p s

/-- No queued process is destroyed. -/
def DestroysUnqueued : TaskOp → Tasks → Prop
  | .scheduler _, _ => True
  | .destroy p, s => p ∉ readyList s

/-- The queue of `s'` is that of `s` without `p`, and all of it is in use. -/
def QueueIntact (p : Nat) (s s' : Tasks) : Prop :=
  s'.Queue ((readyList s).erase p) ∧ ∀ x ∈ (readyList s).erase p, s'.Live x

/-- `process_destroy` tells the scheduler nothing. -/
theorem processDestroy_readyQueue (process : Option Nat) (s : Tasks) :
    (processDestroy process s).readyQueue = s.readyQueue := by
  rcases processDestroy_cases process s with ⟨he, -⟩ | ⟨p, s', -, -, he, hrep, -⟩
  · rw [he]
  · rw [he]
    exact hrep.queue

theorem ReadyQueue.destroy (h : ReadyQueue s q) (hc : s.currentProcess ≠ some p) (hp : p ∉ q) :
    ReadyQueue (processDestroy (some p) s) q := by
  rcases processDestroy_cases (some p) s with ⟨he, -⟩ | ⟨i, s', hi, -, he, hrep, -⟩
  · rw [he]
    exact h
  · rw [Option.some.injEq] at hi
    subst hi
    rw [he]
    exact h.replaced hrep hp hc (by decide)

/-- **Destroying a process keeps the queue intact if and only if it is not queued.** -/
theorem ReadyQueue.destroy_intact (h : ReadyQueue s q) (hc : s.currentProcess ≠ some p) :
    QueueIntact p s (processDestroy (some p) s) ↔ p ∉ q := by
  rw [QueueIntact, h.readyList_eq]
  constructor
  · rintro ⟨hqueue, -⟩ hp
    -- the count stays
    have hcount : s.readyQueue.count = (q.erase p).length := by
      rw [← processDestroy_readyQueue (some p) s]
      exact hqueue.count_eq
    rw [h.queue.count_eq, List.length_erase_of_mem hp] at hcount
    have hpos : 0 < q.length := List.length_pos_of_mem hp
    omega
  · intro hp
    have h' := h.destroy hc hp
    rw [List.erase_of_not_mem hp]
    refine ⟨h'.queue, ?_⟩
    exact fun x hx => h'.live hx

/-- **The ready queue along runs that destroy no queued process.** -/
theorem taskRun_intact (kernelPageDirectory : Nat) (phys : Phys) (ops : List TaskOp)
    (hok : Machine.Meets (taskStep kernelPageDirectory) TaskOk ops (bootTasks phys))
    (hfree : Machine.Meets (taskStep kernelPageDirectory) DestroysUnqueued ops (bootTasks phys)) :
    ∃ os s, Machine.run (taskStep kernelPageDirectory) ops (bootTasks phys) = some (os, s) ∧
      s.Queue (readyList s) ∧ (∀ x ∈ readyList s, s.Live x) ∧
      ∀ p, DestroyOk p s → (QueueIntact p s (processDestroy (some p) s) ↔ p ∉ readyList s) := by
  have hboot : ReadyQueue (bootTasks phys) (readyList (bootTasks phys)) :=
    bootTasks_readyQueue phys
  obtain ⟨os, s, hrun, h⟩ := Machine.run_total (I := fun s => ReadyQueue s (readyList s))
    (G := fun op s => TaskOk op s ∧ DestroysUnqueued op s)
    (fun op s hs hg => by
      cases op with
      | scheduler op =>
          obtain ⟨o, s', he, hinv, -⟩ := schedulerStep_inv kernelPageDirectory hs hg.1
          exact ⟨o, s', he, hinv⟩
      | destroy p =>
          have hinv := hs.destroy hg.1.2.1 hg.2
          refine ⟨(), _, rfl, ?_⟩
          rw [hinv.readyList_eq]
          exact hinv) hboot (Machine.meets_and.mpr ⟨hok, hfree⟩)
  refine ⟨os, s, hrun, h.queue, fun x hx => h.live hx, ?_⟩
  intro p hp
  exact h.destroy_intact hp.2.1

theorem schedulerAddProcess_pid (x : Nat) :
    ((schedulerAddProcess (some p) s).processTable x).pid = (s.processTable x).pid := by
  have hkeep : ∀ (t : Tasks) (i : Nat) (f : Process → Process),
      (f (t.processTable i)).pid = (t.processTable i).pid →
      ((t.modify i f).processTable x).pid = (t.processTable x).pid := by
    intro t i f hf
    rw [Tasks.modify_processTable]
    by_cases hx : x = i
    · rw [hx, Function.update_self, hf]
    · rw [Function.update_of_ne hx]
  have hmodify := hkeep s p (fun e => { e with state := .ready, next := none }) rfl
  rw [schedulerAddProcess]
  dsimp only
  split
  · rfl
  · split
    · rename_i t ht
      rw [← hmodify]
      exact hkeep _ t (fun e => { e with next := some p }) rfl
    · exact hmodify

theorem bootTasks_two (kernelPageDirectory : Nat) (phys : Phys) : ∃ s₁ s₂,
    taskStep kernelPageDirectory (.scheduler (.create [97] 2)) (bootTasks phys) = some ((), s₁) ∧
    taskStep kernelPageDirectory (.scheduler (.create [98] 2)) s₁ = some ((), s₂) ∧
    ReadyQueue s₂ [] ∧
    s₂.states = Function.update (Function.update (bootTasks phys).states 1 .ready) 2 .ready ∧
    s₂.currentProcess = some 0 ∧ (s₂.processTable 1).pid = 1 := by
  obtain ⟨e₁, hrep₁, hpid₁, hstate₁⟩ :=
    processCreate_slot kernelPageDirectory [97] 2 (bootTasks_freeSlot phys)
  obtain ⟨h₁, hs₁, -⟩ :=
    (bootTasks_readyQueue phys).create kernelPageDirectory [97] 2 (bootTasks_freeSlot phys)
  generalize he₁ : processCreate kernelPageDirectory [97] 2 (bootTasks phys) = t₁ at *
  obtain ⟨r₁, s₁⟩ := t₁
  have hslot : findFreeSlot s₁ 1 (maxProcesses - 1) = some 2 := by
    refine findFreeSlot_eq (by decide) (by decide) ?_ ?_
    · intro x hx₁ hx₂
      obtain rfl : x = 1 := by omega
      rw [hs₁, Function.update_self]
      decide
    · rw [hs₁, Function.update_of_ne (by decide)]
      exact bootTasks_states (by decide)
  obtain ⟨e₂, hrep₂, -, -⟩ := processCreate_slot kernelPageDirectory [98] 2 hslot
  obtain ⟨h₂, hs₂, -, -⟩ := h₁.create kernelPageDirectory [98] 2 hslot
  generalize he₂ : processCreate kernelPageDirectory [98] 2 s₁ = t₂ at hrep₂ h₂ hs₂
  refine ⟨s₁, t₂.2, ?_, ?_, h₂, ?_, ?_, ?_⟩
  · rw [taskStep, schedulerStep, he₁]
  · rw [taskStep, schedulerStep, he₂]
  · rw [hs₂, hs₁]
  · rw [hrep₂.current, hrep₁.current]
    rfl
  · rw [hrep₂.other 1 (by decide), hrep₁.self, hpid₁]
    rfl

/-- Theorem `taskRun_intact` for two processes: the second one is queued and the first one
destroyed. -/
theorem taskRun_intact_two : ∃ os s, Machine.run (taskStep 0x110000)
      [.scheduler (.create [97] 2), .scheduler (.create [98] 2), .scheduler (.add 2), .destroy 1]
      (bootTasks (vmmInit 0x110000 (pmmInit ⟨fun _ => 0⟩))) = some (os, s) ∧
    readyList s = [2] ∧ s.Queue [2] ∧ s.Live 2 ∧ ¬s.Live 1 ∧ DestroyOk 2 s ∧
    ¬QueueIntact 2 s (processDestroy (some 2) s) := by
  generalize vmmInit 0x110000 (pmmInit ⟨fun _ => 0⟩) = phys
  obtain ⟨s₁, s₂, hstep₁, hstep₂, h₂, hs₂, hc₂, hpid₂⟩ := bootTasks_two 0x110000 phys
  have hready : (s₂.processTable 2).state = .ready := by
    have hstate := congrFun hs₂ 2
    rwa [Function.update_self] at hstate
  -- the second one is queued
  have hc₂' : s₂.currentProcess ≠ some 2 := by
    rw [hc₂]
    decide
  have h₃ := h₂.add List.not_mem_nil hc₂'
  obtain ⟨-, hc₃, -, hs₃⟩ := schedulerAddProcess_spec h₂.enabled h₂.queue (p := 2) List.not_mem_nil
  have hpid₃ := (schedulerAddProcess_pid (s := s₂) (p := 2) 1).trans hpid₂
  generalize hg₃ : schedulerAddProcess (some 2) s₂ = s₃ at h₃ hc₃ hs₃ hpid₃
  -- the first one is not
  have hone : (1 : Nat) ∉ [] ++ [2] := by decide
  have hlive : s₃.Live 1 := by
    have hstate := congrFun hs₃ 1
    rw [Function.update_of_ne (by decide), hs₂, Function.update_of_ne (by decide),
      Function.update_self] at hstate
    rw [Tasks.Live, show (s₃.processTable 1).state = .ready from hstate]
    decide
  have hdestroy : DestroyOk 1 s₃ := by
    refine ⟨hlive, ?_, by decide⟩
    rw [hc₃, hc₂]
    decide
  have hstep₃ : taskStep 0x110000 (.scheduler (.add 2)) s₂ = some ((), s₃) := by
    rw [taskStep, schedulerStep, hg₃]
  obtain ⟨os, s, hrun, hqueue, hall, hiff⟩ := taskRun_intact 0x110000 phys
    [.scheduler (.create [97] 2), .scheduler (.create [98] 2), .scheduler (.add 2), .destroy 1]
    (by
      rw [Machine.meets_cons_of_step hstep₁, Machine.meets_cons_of_step hstep₂,
        Machine.meets_cons_of_step hstep₃]
      refine ⟨trivial, trivial, ⟨hready, ?_, hc₂'⟩, hdestroy, fun _ _ _ => trivial⟩
      rw [h₂.readyList_eq]
      exact List.not_mem_nil)
    (by
      rw [Machine.meets_cons_of_step hstep₁, Machine.meets_cons_of_step hstep₂,
        Machine.meets_cons_of_step hstep₃]
      refine ⟨trivial, trivial, trivial, ?_, fun _ _ _ => trivial⟩
      rw [DestroysUnqueued, h₃.readyList_eq]
      exact hone)
  -- the state it ends in
  have hrun' : Machine.run (taskStep 0x110000)
      [.scheduler (.create [97] 2), .scheduler (.create [98] 2), .scheduler (.add 2), .destroy 1]
      (bootTasks phys) = some ([(), (), (), ()], processDestroy (some 1) s₃) :=
    Machine.run_cons_some.mpr ⟨_, s₁, _, hstep₁, Machine.run_cons_some.mpr ⟨_, s₂, _, hstep₂,
      Machine.run_cons_some.mpr ⟨_, s₃, [()], hstep₃, rfl, rfl⟩, rfl⟩, rfl⟩
  obtain ⟨rfl, rfl⟩ := Prod.mk.inj (Option.some.inj (hrun'.symm.trans hrun))
  have h₄ : ReadyQueue (processDestroy (some 1) s₃) [2] := h₃.destroy hdestroy.2.1 hone
  have hlist : readyList (processDestroy (some 1) s₃) = [2] := h₄.readyList_eq
  rw [hlist] at hqueue hall hiff
  have htwo : DestroyOk 2 (processDestroy (some 1) s₃) := by
    obtain ⟨c, hc, hcq, -⟩ := h₄.current
    refine ⟨hall 2 List.mem_cons_self, ?_, by decide⟩
    rw [hc, ne_eq, Option.some.injEq]
    rintro rfl
    exact hcq List.mem_cons_self
  refine ⟨_, _, hrun, hlist, hqueue, hall 2 List.mem_cons_self, ?_, htwo, ?_⟩
  · rcases processDestroy_cases (some 1) s₃ with ⟨-, hzero⟩ | ⟨p, s₅, hp, -, he₅, hrep, -⟩
    · have h0 := hzero 1 rfl
      omega
    · rw [Option.some.injEq] at hp
      subst hp
      rw [he₅, Tasks.Live, hrep.self]
      exact fun hne => hne rfl
  · exact (hiff 2 htwo).not.mpr fun hnot => hnot List.mem_cons_self

/-- Two processes are created and queued, and the first one is destroyed: its unused slot
stays in the queue, and the second process is lost. -/
theorem taskRun_lost : ∃ os s, Machine.run (taskStep 0x110000)
      [.scheduler (.create [97] 2), .scheduler (.create [98] 2), .scheduler (.add 1),
        .scheduler (.add 2)] (bootTasks (vmmInit 0x110000 (pmmInit ⟨fun _ => 0⟩))) = some (os, s) ∧
    readyList s = [1, 2] ∧ DestroyOk 1 s ∧ ¬QueueIntact 1 s (processDestroy (some 1) s) ∧
    readyList (processDestroy (some 1) s) = [1] ∧ ¬(processDestroy (some 1) s).Live 1 ∧
    ((processDestroy (some 1) s).processTable 2).state = .ready := by
  generalize vmmInit 0x110000 (pmmInit ⟨fun _ => 0⟩) = phys
  obtain ⟨s₁, s₂, hstep₁, hstep₂, h₂, hs₂, hc₂, hpid₂⟩ := bootTasks_two 0x110000 phys
  -- both are queued
  have h₃ := h₂.add (p := 1) List.not_mem_nil (by rw [hc₂]; decide)
  obtain ⟨-, hc₃, -, hs₃⟩ := schedulerAddProcess_spec h₂.enabled h₂.queue (p := 1) List.not_mem_nil
  have hpid₃ := (schedulerAddProcess_pid (s := s₂) (p := 1) 1).trans hpid₂
  generalize hg₃ : schedulerAddProcess (some 1) s₂ = s₃ at h₃ hc₃ hs₃ hpid₃
  have h₄ := h₃.add (p := 2) (by decide) (by rw [hc₃, hc₂]; decide)
  obtain ⟨-, hc₄, -, hs₄⟩ := schedulerAddProcess_spec h₃.enabled h₃.queue (p := 2) (by decide)
  have hpid₄ := (schedulerAddProcess_pid (s := s₃) (p := 2) 1).trans hpid₃
  generalize hg₄ : schedulerAddProcess (some 2) s₃ = s₄ at h₄ hc₄ hs₄ hpid₄
  have hcur : s₄.currentProcess ≠ some 1 := by
    rw [hc₄, hc₃, hc₂]
    decide
  have hlist : readyList s₄ = [1, 2] := h₄.readyList_eq
  have hrun : Machine.run (taskStep 0x110000) [.scheduler (.create [97] 2),
      .scheduler (.create [98] 2), .scheduler (.add 1), .scheduler (.add 2)] (bootTasks phys)
      = some ([(), (), (), ()], s₄) := by
    refine Machine.run_cons_some.mpr ⟨(), s₁, [(), (), ()], hstep₁, ?_, rfl⟩
    refine Machine.run_cons_some.mpr ⟨(), s₂, [(), ()], hstep₂, ?_, rfl⟩
    refine Machine.run_cons_some.mpr ⟨(), s₃, [()], ?_, ?_, rfl⟩
    · rw [taskStep, schedulerStep, hg₃]
    refine Machine.run_cons_some.mpr ⟨(), s₄, [], ?_, rfl, rfl⟩
    rw [taskStep, schedulerStep, hg₄]
  -- the first one is destroyed
  rcases processDestroy_cases (some 1) s₄ with ⟨-, hzero⟩ | ⟨p, s₅, hp, -, he₅, hrep, -⟩
  · have h0 := hzero 1 rfl
    omega
  · rw [Option.some.injEq] at hp
    subst hp
    have hintact := (h₄.destroy_intact hcur).not.mpr (fun hnot => hnot (by decide))
    refine ⟨_, s₄, hrun, hlist, ⟨h₄.live (by decide), hcur, by decide⟩, hintact, ?_, ?_, ?_⟩
    · have hhead : s₄.readyQueue.head = some 1 := h₄.queue.linked.1
      have hcount : s₄.readyQueue.count = 2 := h₄.queue.count_eq
      have hlink : s₅.links 1 = none := congrArg Process.next hrep.self
      rw [he₅, readyList, hrep.queue, hhead, hcount, follow, hlink]
      rfl
    · rw [he₅, Tasks.Live, hrep.self]
      exact fun hne => hne rfl
    · rw [he₅, hrep.other 2 (by decide)]
      exact h₄.ready 2 (by decide)

end AceOS.Kernel
