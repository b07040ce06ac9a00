import AceOS.Kernel.Vmm
import AceOS.Lib.Machine

/-!
# Processes (`src/kernel/process.c`)

The process table is an array of 32 slots; a process is its slot, and a slot is free
when its state is 0.  Pids come from a counter of their own that runs from 1 to 31 and
around.

Of the saved registers the two that point into the user stack are kept.  The others, the
bounds of the heap, the times of creation and running and the page directory in use are
written here and read nowhere, and are left out.
-/

namespace AceOS.Kernel

open Memory AceOS.Libc

/-! ### The code -/

abbrev maxProcesses : Nat := 32
abbrev userVirtualBase : Nat := 0x40000000
abbrev processStackSize : Nat := 4096

abbrev processPriorityHigh : Nat := 1
abbrev processPriorityNormal : Nat := 2

/-- The field `state`; `unused` is 0. -/
inductive ProcessState
  | unused
  | running
  | ready
  | blocked
  | terminated
  deriving DecidableEq, Repr

/-- `process_t`, with `0` for a page directory or a stack that is missing. -/
structure Process where
  pid : Nat
  parentPid : Nat
  name : List UInt8
  state : ProcessState
  priority : Nat
  pageDirectory : Nat
  kernelStack : Nat
  userStack : Nat
  esp : Nat
  ebp : Nat
  timeSlice : Nat
  timeUsed : Nat
  currentDirectory : List UInt8
  next : Option Nat
  exitCode : Int
  deriving DecidableEq, Repr

def Process.cleared : Process where
  pid := 0
  parentPid := 0
  name := []
  state := .unused
  priority := 0
  pageDirectory := 0
  kernelStack := 0
  userStack := 0
  esp := 0
  ebp := 0
  timeSlice := 0
  timeUsed := 0
  currentDirectory := []
  next := none
  exitCode := 0

/-- `task_queue_t`. -/
structure TaskQueue where
  head : Option Nat
  tail : Option Nat
  count : Nat
  deriving DecidableEq, Repr

/-- The statics of `process.c` and `scheduler.c`, and the memory below them. -/
structure Tasks where
  processTable : Nat → Process
  currentProcess : Option Nat
  nextPid : Nat
  readyQueue : TaskQueue
  schedulerEnabled : Bool
  phys : Phys

/-- An assignment to fields of a process. -/
def Tasks.modify (p : Nat) (f : Process → Process) (s : Tasks) : Tasks :=
  { s with processTable := Function.update s.processTable p (f (s.processTable p)) }

theorem Tasks.modify_processTable (p : Nat) (f : Process → Process) (s : Tasks) :
    (s.modify p f).processTable = Function.update s.processTable p (f (s.processTable p)) := rfl

/-- `"kernel"`. -/
def kernelName : List UInt8 := [107, 101, 114, 110, 101, 108]

/-- `process_init`, with the statics as they are loaded. -/
def processInit (phys : Phys) : Tasks where
  processTable := Function.update (fun _ => Process.cleared) 0
    { Process.cleared with
      name := kernelName, state := .running, priority := processPriorityHigh, timeSlice := 100,
      currentDirectory := [47] }
  currentProcess := some 0
  nextPid := 1
  readyQueue := ⟨none, none, 0⟩
  schedulerEnabled := false
  phys := phys

def processGetNextPid (s : Tasks) : Nat × Tasks :=
  let nextPid := add32 s.nextPid 1
  (s.nextPid, { s with nextPid := if maxProcesses ≤ nextPid then 1 else nextPid })

/-- The loop over the slots: the first free one of the `n` from `i` on. -/
def findFreeSlot (s : Tasks) : (i n : Nat) → Option Nat
  | _, 0 => none
  | i, n + 1 => if (s.processTable i).state = .unused then some i else findFreeSlot s (i + 1) n

/-- `process_create`: the new process.  The slot stays taken when memory runs out. -/
def processCreate (kernelPageDirectory : Nat) (name : List UInt8) (priority : Nat) (s : Tasks) :
    Option Nat × Tasks :=
  match findFreeSlot s 1 (maxProcesses - 1) with
  | none => (none, s)
  | some i =>
      let (pid, s) := processGetNextPid s
      let s := s.modify i fun _ => { Process.cleared with pid := pid }
      -- the current process may be in the slot that has just been cleared
      let parentPid := s.currentProcess.elim 0 fun c => (s.processTable c).pid
      let s := s.modify i fun e =>
        { e with
          parentPid := parentPid
          name := name.take 31
          state := .ready
          priority := priority
          timeSlice := if priority = processPriorityHigh then 50
            else if priority = processPriorityNormal then 100 else 200 }
      let (pageDirectory, phys) := vmmCreatePageDirectory kernelPageDirectory s.phys
      let s := { s.modify i fun e => { e with pageDirectory := pageDirectory } with phys := phys }
      if pageDirectory = 0 then (none, s)
      else
        let (kernelStack, phys) := pmmAllocFrame s.phys
        let s := { s.modify i fun e => { e with kernelStack := kernelStack } with phys := phys }
        if kernelStack = 0 then (none, s)
        else
          let (userStack, phys) := pmmAllocFrame s.phys
          let s := { s.modify i fun e => { e with userStack := userStack } with phys := phys }
          if userStack = 0 then (none, { s with phys := pmmFreeFrame kernelStack s.phys })
          else
            let phys := vmmMapPage pageDirectory (userVirtualBase + 0x10000) userStack
              (pagePresent ||| pageWritable ||| pageUser) s.phys
            let esp := userVirtualBase + 0x10000 + processStackSize - 4
            let currentDirectory := s.currentProcess.elim [47] fun c =>
              (s.processTable c).currentDirectory
            (some i, { s.modify i fun e =>
                { e with esp := esp, ebp := esp, currentDirectory := currentDirectory } with
              phys := phys })

def processDestroy (process : Option Nat) (s : Tasks) : Tasks :=
  match process with
  | none => s
  | some p =>
      let e := s.processTable p
      if e.pid = 0 then s
      else
        let phys := if e.kernelStack ≠ 0 then pmmFreeFrame e.kernelStack s.phys else s.phys
        let phys := if e.userStack ≠ 0 then pmmFreeFrame e.userStack phys else phys
        -- the link to the next process in the ready queue is cleared with the rest
        { s.modify p fun _ => Process.cleared with phys := phys }

/-- The loop of `process_get_by_pid` over the `n` slots from `i` on. -/
def findPid (s : Tasks) (pid : Nat) : (i n : Nat) → Option Nat
  | _, 0 => none
  | i, n + 1 =>
      if (s.processTable i).pid = pid ∧ (s.processTable i).state ≠ .unused then some i
      else findPid s pid (i + 1) n

def processGetByPid (pid : Nat) (s : Tasks) : Option Nat := findPid s pid 0 maxProcesses

/-! ### What the calls do -/

variable {kernelPageDirectory : Nat} {s : Tasks} {p : Nat}

theorem findFreeSlot_some {i n j : Nat} (h : findFreeSlot s i n = some j) :
    i ≤ j ∧ j < i + n ∧ (s.processTable j).state = .unused := by
  induction n generalizing i with
  | zero => exact absurd h (by simp [findFreeSlot])
  | succ n ih =>
      rw [findFreeSlot] at h
      split at h
      · rename_i hi
        rw [Option.some.injEq] at h
        subst h
        exact ⟨Nat.le_refl _, by omega, hi⟩
      · obtain ⟨h₁, h₂, h₃⟩ := ih h
        exact ⟨by omega, by omega, h₃⟩

theorem findFreeSlot_eq_none {i n : Nat} : findFreeSlot s i n = none ↔
    ∀ p, i ≤ p → p < i + n → (s.processTable p).state ≠ .unused := by
  induction n generalizing i with
  | zero =>
      simp only [findFreeSlot, true_iff]
      intro p h₁ h₂
      omega
  | succ n ih =>
      rw [findFreeSlot]
      split
      · rename_i hi
        simp only [reduceCtorEq, false_iff]
        exact fun h => h i (Nat.le_refl i) (by omega) hi
      · rename_i hi
        rw [ih]
        refine ⟨fun h p h₁ h₂ => ?_, fun h p h₁ h₂ => h p (by omega) (by omega)⟩
        by_cases hp : p = i
        · rw [hp]
          exact hi
        · exact h p (by omega) (by omega)

/-- One process is replaced, and the scheduler's own fields are kept. -/
structure Tasks.Replaced (s s' : Tasks) (p : Nat) (e : Process) : Prop where
  self : s'.processTable p = e
  other : ∀ q, q ≠ p → s'.processTable q = s.processTable q
  current : s'.currentProcess = s.currentProcess
  queue : s'.readyQueue = s.readyQueue
  enabled : s'.schedulerEnabled = s.schedulerEnabled

theorem Tasks.modify_modify (f g : Process → Process) (phys : Phys) :
    ({ s.modify p f with phys := phys } : Tasks).modify p g
      = { s.modify p (fun e => g (f e)) with phys := phys } := by
  simp only [Tasks.modify, Function.update_self, Function.update_idem]

theorem Tasks.modify_twice (f g : Process → Process) :
    (s.modify p f).modify p g = s.modify p fun e => g (f e) := Tasks.modify_modify f g s.phys

/-- **What `process_create` does**: nothing, or a free slot becomes a ready process with
the next pid, whether or not there is memory for it. -/
theorem processCreate_cases {k : Nat} (name : List UInt8) (priority : Nat) (s : Tasks) :
    (findFreeSlot s 1 (maxProcesses - 1) = none ∧
      processCreate k name priority s = (none, s)) ∨
    ∃ i e r s', findFreeSlot s 1 (maxProcesses - 1) = some i ∧
      processCreate k name priority s = (r, s') ∧ (r = none ∨ r = some i) ∧
      s.Replaced s' i e ∧ e.pid = s.nextPid ∧ e.state = .ready ∧ e.next = none ∧
      s'.nextPid = (processGetNextPid s).2.nextPid ∧ 1 ≤ e.timeSlice ∧ e.timeSlice ≤ 200 := by
  have hreplaced : ∀ {i : Nat} (e : Process) (phys : Phys),
      s.Replaced ⟨Function.update s.processTable i e, s.currentProcess,
        (processGetNextPid s).2.nextPid, s.readyQueue, s.schedulerEnabled, phys⟩ i e :=
    fun e phys => ⟨Function.update_self .., fun q hq => Function.update_of_ne hq .., rfl, rfl, rfl⟩
  rw [processCreate]
  cases hi : findFreeSlot s 1 (maxProcesses - 1) with
  | none => exact Or.inl ⟨rfl, rfl⟩
  | some i =>
      refine Or.inr ⟨i, ?_⟩
      dsimp only
      have hslice : 1 ≤ (if priority = processPriorityHigh then 50
          else if priority = processPriorityNormal then 100 else 200) ∧
          (if priority = processPriorityHigh then 50
          else if priority = processPriorityNormal then 100 else 200) ≤ 200 := by
        split
        · decide
        · split <;> decide
      generalize (if priority = processPriorityHigh then 50
        else if priority = processPriorityNormal then 100 else 200) = timeSlice at hslice ⊢
      rw [Tasks.modify_twice, Tasks.modify_twice]
      split
      · exact ⟨_, none, _, rfl, rfl, Or.inl rfl, hreplaced _ _, rfl, rfl, rfl, rfl, hslice⟩
      · rw [Tasks.modify_modify]
        split
        · exact ⟨_, none, _, rfl, rfl, Or.inl rfl, hreplaced _ _, rfl, rfl, rfl, rfl, hslice⟩
        · rw [Tasks.modify_modify]
          split
          · exact ⟨_, none, _, rfl, rfl, Or.inl rfl, hreplaced _ _, rfl, rfl, rfl, rfl, hslice⟩
          · rw [Tasks.modify_modify]
            exact ⟨_, some i, _, rfl, rfl, Or.inr rfl, hreplaced _ _, rfl, rfl, rfl, rfl, hslice⟩

theorem processCreate_slot {i : Nat} (k : Nat) (name : List UInt8) (priority : Nat)
    (hi : findFreeSlot s 1 (maxProcesses - 1) = some i) :
    ∃ e, s.Replaced (processCreate k name priority s).2 i e ∧ e.pid = s.nextPid ∧
      e.state = .ready := by
  rcases processCreate_cases (k := k) name priority s with ⟨hnone, -⟩ |
    ⟨j, e, r, t, hj, he, -, hrep, hpid, hstate, -, -⟩
  · rw [hi] at hnone
    exact absurd hnone (by simp)
  · have hij : i = j := Option.some.inj (hi.symm.trans hj)
    subst hij
    rw [he]
    exact ⟨e, hrep, hpid, hstate⟩

/-- **What `process_destroy` does**: nothing, or the slot is cleared. -/
theorem processDestroy_cases (process : Option Nat) (s : Tasks) :
    (processDestroy process s = s ∧ ∀ p, process = some p → (s.processTable p).pid = 0) ∨
    ∃ p s', process = some p ∧ (s.processTable p).pid ≠ 0 ∧ processDestroy process s = s' ∧
      s.Replaced s' p Process.cleared ∧ s'.nextPid = s.nextPid := by
  cases process with
  | none => exact Or.inl ⟨rfl, fun p hp => absurd hp (by simp)⟩
  | some p =>
      rw [processDestroy]
      dsimp only
      split
      · rename_i hpid
        exact Or.inl ⟨rfl, fun q hq => Option.some.inj hq ▸ hpid⟩
      · rename_i hpid
        exact Or.inr ⟨p, _, rfl, hpid, rfl, ⟨Function.update_self ..,
        fun q hq => Function.update_of_ne hq .., rfl, rfl, rfl⟩, rfl⟩

/-! ### Pids -/

abbrev Tasks.Live (s : Tasks) (p : Nat) : Prop := (s.processTable p).state ≠ .unused

def PidsUnique (s : Tasks) : Prop :=
  ∀ p < maxProcesses, ∀ q < maxProcesses, s.Live p → s.Live q →
    (s.processTable p).pid = (s.processTable q).pid → p = q

inductive ProcessOp
  | create (name : List UInt8) (priority : Nat)
  | destroy (process : Option Nat)
  deriving DecidableEq, Repr

def processStep (kernelPageDirectory : Nat) : ProcessOp → Tasks → Option (Option Nat × Tasks)
  | .create name priority, s => some (processCreate kernelPageDirectory name priority s)
  | .destroy process, s => some (none, processDestroy process s)

/-- No `process_create` gives out the pid of a live process. -/
def PidFree : ProcessOp → Tasks → Prop
  | .create _ _, s => findFreeSlot s 1 (maxProcesses - 1) ≠ none →
      ∀ p < maxProcesses, s.Live p → (s.processTable p).pid ≠ s.nextPid
  | .destroy _, _ => True

instance (op : ProcessOp) (s : Tasks) : Decidable (PidFree op s) := by
  cases op <;> unfold PidFree <;> infer_instance

theorem processInit_unique (phys : Phys) : PidsUnique (processInit phys) := by
  have hzero : ∀ p, (processInit phys).Live p → p = 0 := by
    intro p hp
    by_contra hp0
    have he : (processInit phys).processTable p = Process.cleared :=
      Function.update_of_ne hp0 _ fun _ => Process.cleared
    rw [Tasks.Live, he] at hp
    exact hp rfl
  intro p _ q _ hp hq _
  rw [hzero p hp, hzero q hq]

/-- **One step**: a creation keeps the pids apart if and only if its pid is free. -/
theorem processStep_unique {op : ProcessOp} {o : Option Nat} {s' : Tasks} (h : PidsUnique s)
    (hstep : processStep kernelPageDirectory op s = some (o, s')) :
    PidsUnique s' ↔ PidFree op s := by
  cases op with
  | create name priority =>
      rw [processStep, Option.some.injEq] at hstep
      rcases processCreate_cases (k := kernelPageDirectory) name priority s with ⟨hfree, he⟩ |
        ⟨i, e, r, t, hfree, he, -, hrep, hpid, hstate, -, -⟩
      · rw [he, Prod.mk.injEq] at hstep
        exact iff_of_true (hstep.2 ▸ h) fun hne => absurd hfree hne
      · rw [he, Prod.mk.injEq] at hstep
        rw [hstep.2] at hrep
        obtain ⟨hi₁, hi₂, hiun⟩ := findFreeSlot_some hfree
        have hi : i < maxProcesses := by omega
        have hself := hrep.self
        have hother := hrep.other
        constructor
        · intro hu _ q hq hlive hclash
          have hqi : q ≠ i := by
            rintro rfl
            exact hlive hiun
          refine hqi (hu q hq i hi ?_ ?_ ?_)
          · rwa [Tasks.Live, hother q hqi]
          · rw [Tasks.Live, hself, hstate]
            decide
          · rw [hother q hqi, hself, hclash, hpid]
        · intro hclash p hp q hq hlp hlq heq
          have hclash := hclash (hfree.trans_ne (Option.some_ne_none i))
          by_cases hpi : p = i
          · by_cases hqi : q = i
            · rw [hpi, hqi]
            · rw [hpi, hself, hother q hqi, hpid] at heq
              rw [Tasks.Live, hother q hqi] at hlq
              exact absurd heq.symm (hclash q hq hlq)
          · rw [Tasks.Live, hother p hpi] at hlp
            by_cases hqi : q = i
            · rw [hqi, hself, hother p hpi, hpid] at heq
              exact absurd heq (hclash p hp hlp)
            · rw [Tasks.Live, hother q hqi] at hlq
              rw [hother p hpi, hother q hqi] at heq
              exact h p hp q hq hlp hlq heq
  | destroy process =>
      rw [processStep, Option.some.injEq, Prod.mk.injEq] at hstep
      refine iff_of_true ?_ trivial
      rcases processDestroy_cases process s with ⟨he, -⟩ | ⟨i, t, -, -, he, hrep, -⟩
      · rw [← hstep.2, he]
        exact h
      · rw [← he, hstep.2] at hrep
        have hlive : ∀ q, s'.Live q → q ≠ i ∧ s'.processTable q = s.processTable q := by
          intro q hq
          have hqi : q ≠ i := by
            rintro rfl
            refine hq ?_
            rw [hrep.self]
            rfl
          exact ⟨hqi, hrep.other q hqi⟩
        intro p hp q hq hlp hlq heq
        obtain ⟨hpi, hpe⟩ := hlive p hlp
        obtain ⟨hqi, hqe⟩ := hlive q hlq
        rw [hpe, hqe] at heq
        rw [Tasks.Live, hpe] at hlp
        rw [Tasks.Live, hqe] at hlq
        exact h p hp q hq hlp hlq heq

/-! ### Finding a process by its pid -/

theorem findPid_of_unique {i n : Nat} (hp : i ≤ p) (hpn : p < i + n) (hlive : s.Live p)
    (hunique : ∀ q, i ≤ q → q < i + n → s.Live q → (s.processTable q).pid = (s.processTable p).pid →
      q = p) : findPid s (s.processTable p).pid i n = some p := by
  induction n generalizing i with
  | zero => omega
  | succ n ih =>
      rw [findPid]
      split
      · rename_i hi
        rw [hunique i (Nat.le_refl _) (by omega) hi.2 hi.1]
      · rename_i hi
        have hip : i ≠ p := by
          rintro rfl
          exact hi ⟨rfl, hlive⟩
        exact ih (by omega) (by omega) fun q h₁ h₂ => hunique q (by omega) (by omega)

theorem PidsUnique.processGetByPid (h : PidsUnique s) (hp : p < maxProcesses) (hlive : s.Live p) :
    processGetByPid (s.processTable p).pid s = some p := by
  refine findPid_of_unique (Nat.zero_le p) (by omega) hlive ?_
  intro q _ hq hq' heq
  exact h q (by omega) p hp hq' hlive heq

theorem processRun_keeps {ops : List ProcessOp} {os : List (Option Nat)} {s' : Tasks}
    (hlive : s.Live p) (hkeep : ∀ op ∈ ops, op ≠ .destroy (some p))
    (hrun : Machine.run (processStep kernelPageDirectory) ops s = some (os, s')) :
    s'.Live p ∧ (s'.processTable p).pid = (s.processTable p).pid := by
  refine Machine.run_inv (G := fun op _ => op ≠ ProcessOp.destroy (some p))
    (I := fun t => t.Live p ∧ (t.processTable p).pid = (s.processTable p).pid) ?_ ⟨hlive, rfl⟩
    (Machine.meets_of_forall (fun op hop _ => hkeep op hop) s) hrun
  rintro op t o t' ⟨hlive, hpid⟩ hop hstep
  have hsame : t'.processTable p = t.processTable p := by
    cases op with
    | create name priority =>
        rw [processStep, Option.some.injEq] at hstep
        rcases processCreate_cases (k := kernelPageDirectory) name priority t with ⟨-, he⟩ |
          ⟨i, e, r, u, hfree, he, -, hrep, -, -, -, -⟩
        · rw [he, Prod.mk.injEq] at hstep
          rw [hstep.2]
        · rw [he, Prod.mk.injEq] at hstep
          rw [hstep.2] at hrep
          refine hrep.other p ?_
          rintro rfl
          exact hlive (findFreeSlot_some hfree).2.2
    | destroy process =>
        rw [processStep, Option.some.injEq, Prod.mk.injEq] at hstep
        rcases processDestroy_cases process t with ⟨he, -⟩ | ⟨i, u, rfl, -, he, hrep, -⟩
        · rw [← hstep.2, he]
        · rw [← he, hstep.2] at hrep
          refine hrep.other p ?_
          rintro rfl
          exact hop rfl
  rw [Tasks.Live, hsame]
  exact ⟨hlive, hpid⟩

/-- **Pids.**  The pids of the processes in use stay apart if and only if every creation
finds its pid free, and then a pid leads to its process until that is destroyed. -/
theorem processRun_pids (kernelPageDirectory : Nat) (phys : Phys) (ops : List ProcessOp) :
    ((∀ n os s, Machine.run (processStep kernelPageDirectory) (ops.take n) (processInit phys)
        = some (os, s) → PidsUnique s) ↔
      Machine.Meets (processStep kernelPageDirectory) PidFree ops (processInit phys)) ∧
    (Machine.Meets (processStep kernelPageDirectory) PidFree ops (processInit phys) →
      ∀ ops₁ name priority ops₂ os₁ s₁ p s₂ os s, ops = ops₁ ++ .create name priority :: ops₂ →
        Machine.run (processStep kernelPageDirectory) ops₁ (processInit phys) = some (os₁, s₁) →
        processCreate kernelPageDirectory name priority s₁ = (some p, s₂) →
        (∀ op ∈ ops₂, op ≠ .destroy (some p)) →
        Machine.run (processStep kernelPageDirectory) ops (processInit phys) = some (os, s) →
        processGetByPid (s₂.processTable p).pid s = some p) := by
  have hiff : (∀ n os s, Machine.run (processStep kernelPageDirectory) (ops.take n)
      (processInit phys) = some (os, s) → PidsUnique s) ↔
      Machine.Meets (processStep kernelPageDirectory) PidFree ops (processInit phys) := by
    refine Machine.meets_iff_inv (J := fun _ => True) ?_ trivial (Machine.meets_true ops _)
      (processInit_unique phys)
    intro op s _ _
    have hstep : ∃ o s', processStep kernelPageDirectory op s = some (o, s') := by
      cases op with
      | create name priority => exact ⟨_, _, rfl⟩
      | destroy process => exact ⟨_, _, rfl⟩
    obtain ⟨o, s', hs'⟩ := hstep
    exact ⟨o, s', hs', trivial, fun h => processStep_unique h hs'⟩
  refine ⟨hiff, ?_⟩
  rintro hfree ops₁ name priority ops₂ os₁ s₁ p s₂ os s rfl hrun₁ hcreate hkeep hrun
  have hunique : PidsUnique s := by
    refine hiff.mpr hfree (ops₁ ++ .create name priority :: ops₂).length os s ?_
    rw [List.take_length]
    exact hrun
  obtain ⟨os₁', t, os₂, ht, hrest, -⟩ := Machine.run_append_some.mp hrun
  rw [hrun₁, Option.some.injEq, Prod.mk.injEq] at ht
  obtain ⟨o, u, os₃, hu, hrun₂, -⟩ := Machine.run_cons_some.mp hrest
  rw [← ht.2, processStep, hcreate, Option.some.injEq, Prod.mk.injEq] at hu
  rw [← hu.2] at hrun₂
  -- the new process is in its slot
  have hnew : s₂.Live p ∧ p < maxProcesses := by
    rcases processCreate_cases (k := kernelPageDirectory) name priority s₁ with ⟨-, he⟩ |
      ⟨i, e, r, t', hslot, he, hr, hrep, -, hstate, -, -⟩
    · rw [hcreate, Prod.mk.injEq] at he
      exact absurd he.1 (by simp)
    · rw [hcreate, Prod.mk.injEq] at he
      have hpi : p = i := by
        rcases hr with hr | hr
        · exact absurd (he.1.trans hr) (by simp)
        · exact Option.some.inj (he.1.trans hr)
      obtain ⟨-, hlt, -⟩ := findFreeSlot_some hslot
      subst hpi
      refine ⟨?_, by omega⟩
      rw [Tasks.Live, he.2, hrep.self, hstate]
      decide
  obtain ⟨hlive, hpid⟩ := processRun_keeps hnew.1 hkeep hrun₂
  rw [← hpid]
  exact hunique.processGetByPid hnew.2 hlive

/-! ### A pid given out twice -/

/-- Slot 1 holds the process with pid 1, slot 2 is free, and pid `n` is next. -/
structure PidAged (n : Nat) (s : Tasks) : Prop where
  first_live : s.Live 1
  first_pid : (s.processTable 1).pid = 1
  second : (s.processTable 2).state = .unused
  nextPid : s.nextPid = n

theorem processGetNextPid_nextPid {n : Nat} (h : s.nextPid = n) (hn : n < maxProcesses) :
    (processGetNextPid s).2.nextPid = if n + 1 = maxProcesses then 1 else n + 1 := by
  have hmax : maxProcesses = 32 := rfl
  have hadd : add32 n 1 = n + 1 := by
    rw [add32]
    omega
  rw [processGetNextPid, h]
  dsimp only
  rw [hadd]
  split <;> split <;> omega

section Aged

variable {n : Nat}

theorem PidAged.create (k : Nat) (name : List UInt8) (priority : Nat) (h : PidAged n s)
    (hn : n < maxProcesses) :
    ∃ r s', processCreate k name priority s = (r, s') ∧ s'.Live 1 ∧ s'.Live 2 ∧
      (s'.processTable 1).pid = 1 ∧ (s'.processTable 2).pid = n ∧
      s'.nextPid = if n + 1 = maxProcesses then 1 else n + 1 := by
  have hslot : findFreeSlot s 1 (maxProcesses - 1) = some 2 := by
    rw [show maxProcesses - 1 = 29 + 1 + 1 from rfl, findFreeSlot, if_neg h.first_live,
      findFreeSlot, if_pos h.second]
  rcases processCreate_cases (k := k) name priority s with ⟨hnone, -⟩ |
    ⟨i, e, r, s', hi, he, -, hrep, hpid, hstate, -, hnext, -⟩
  · rw [hslot] at hnone
    exact absurd hnone (by simp)
  · rw [hslot, Option.some.injEq] at hi
    subst hi
    have hone := hrep.other 1 (by decide)
    refine ⟨r, s', he, ?_, ?_, ?_, ?_, ?_⟩
    · rw [Tasks.Live, hone]
      exact h.first_live
    · rw [Tasks.Live, hrep.self, hstate]
      decide
    · rw [hone, h.first_pid]
    · rw [hrep.self, hpid, h.nextPid]
    · rw [hnext, processGetNextPid_nextPid h.nextPid hn]

theorem PidAged.round (k : Nat) (name : List UInt8) (priority : Nat) (h : PidAged n s)
    (hpos : 0 < n) (hn : n < maxProcesses) : ∃ os s', Machine.run (processStep k)
        [.create name priority, .destroy (some 2)] s = some (os, s') ∧
      PidAged (if n + 1 = maxProcesses then 1 else n + 1) s' := by
  obtain ⟨r, t, he, hlive, -, hpid, hpid₂, hnext⟩ :=
    h.create k name priority hn
  rcases processDestroy_cases (some 2) t with ⟨-, hzero⟩ | ⟨p, s', hp, -, he', hrep, hnext'⟩
  · have h0 := hzero 2 rfl
    omega
  · rw [Option.some.injEq] at hp
    subst hp
    have hone := hrep.other 1 (by decide)
    refine ⟨[r, none], s', Machine.run_cons_some.mpr ⟨r, t, [none], congrArg some he,
      Machine.run_cons_some.mpr ⟨none, s', [], ?_, rfl, rfl⟩, rfl⟩, ?_, ?_, ?_, ?_⟩
    · rw [processStep, he']
    · rw [Tasks.Live, hone]
      exact hlive
    · rw [hone, hpid]
    · rw [hrep.self]
      rfl
    · rw [hnext', hnext]

theorem PidAged.rounds (k : Nat) (name : List UInt8) (priority m : Nat) (h : PidAged n s)
    (hpos : 0 < n) (hn : n + m < maxProcesses) : ∃ os s', Machine.run (processStep k)
        (List.replicate m [ProcessOp.create name priority, .destroy (some 2)]).flatten s
          = some (os, s') ∧ PidAged (n + m) s' := by
  induction m generalizing n s with
  | zero => exact ⟨[], s, rfl, h⟩
  | succ m ih =>
      obtain ⟨os₁, t, hr, ht⟩ := h.round k name priority hpos (by omega)
      rw [if_neg (by omega)] at ht
      obtain ⟨os₂, s', hr', hs'⟩ := ih ht (Nat.succ_pos n) (by omega)
      refine ⟨os₁ ++ os₂, s', ?_, ?_⟩
      · rw [List.replicate_succ, List.flatten_cons]
        exact Machine.run_append_some.mpr ⟨os₁, t, os₂, hr, hr', rfl⟩
      · rwa [Nat.add_assoc, Nat.add_comm 1 m] at hs'

end Aged

/-- A process that stays, thirty that come and go, and one more. -/
def agingOps : List ProcessOp :=
  .create [97] 2 :: ((List.replicate 29 [ProcessOp.create [98] 2, .destroy (some 2)]).flatten ++
    [.create [98] 2, .destroy (some 2), .create [99] 2])

/-- The thirty-second process gets the pid of the first, which still lives. -/
theorem processRun_pid_clash : ∃ os s, Machine.run (processStep 0x110000) agingOps
      (processInit (vmmInit 0x110000 (pmmInit ⟨fun _ => 0⟩))) = some (os, s) ∧
    s.Live 1 ∧ s.Live 2 ∧ (s.processTable 1).pid = (s.processTable 2).pid ∧ ¬PidsUnique s := by
  generalize vmmInit 0x110000 (pmmInit ⟨fun _ => 0⟩) = phys
  -- the process that stays
  obtain ⟨r, s₁, he₁, haged⟩ : ∃ r s₁, processCreate 0x110000 [97] 2 (processInit phys) = (r, s₁) ∧
      PidAged 2 s₁ := by
    have hfree : ∀ p, p ≠ 0 → (processInit phys).processTable p = Process.cleared :=
      fun p hp => Function.update_of_ne hp _ fun _ => Process.cleared
    have hslot : findFreeSlot (processInit phys) 1 (maxProcesses - 1) = some 1 := by
      rw [show maxProcesses - 1 = 30 + 1 from rfl, findFreeSlot, hfree 1 (by decide)]
      rfl
    rcases processCreate_cases (k := 0x110000) [97] 2 (processInit phys) with ⟨hnone, -⟩ |
      ⟨i, e, r, s₁, hi, he, -, hrep, hpid, hstate, -, hnext, -⟩
    · rw [hslot] at hnone
      exact absurd hnone (by simp)
    · rw [hslot, Option.some.injEq] at hi
      subst hi
      refine ⟨r, s₁, he, ?_, ?_, ?_, ?_⟩
      · rw [Tasks.Live, hrep.self, hstate]
        decide
      · rw [hrep.self, hpid]
        rfl
      · rw [hrep.other 2 (by decide), hfree 2 (by decide)]
        rfl
      · rw [hnext, processGetNextPid_nextPid (n := 1) rfl (by decide)]
        rfl
  -- the others use up the pids
  obtain ⟨os₂, s₂, hr₂, haged₂⟩ := haged.rounds 0x110000 [98] 2 29 (by decide) (by decide)
  obtain ⟨os₃, s₃, hr₃, haged₃⟩ := haged₂.round 0x110000 [98] 2 (by decide) (by decide)
  obtain ⟨r₄, s₄, he₄, hone, htwo, hpid₁, hpid₂, -⟩ := haged₃.create 0x110000 [99] 2 (by decide)
  have hrun : Machine.run (processStep 0x110000) agingOps (processInit phys)
      = some (r :: (os₂ ++ (os₃ ++ [r₄])), s₄) := by
    refine Machine.run_cons_some.mpr ⟨r, s₁, _, congrArg some he₁, ?_, rfl⟩
    refine Machine.run_append_some.mpr ⟨os₂, s₂, os₃ ++ [r₄], hr₂, ?_, rfl⟩
    refine Machine.run_append_some.mpr ⟨os₃, s₃, [r₄], hr₃, ?_, rfl⟩
    exact Machine.run_cons_some.mpr ⟨r₄, s₄, [], congrArg some he₄, rfl, rfl⟩
  have hclash : (s₄.processTable 1).pid = (s₄.processTable 2).pid := by
    rw [hpid₁, hpid₂]
    rfl
  refine ⟨_, s₄, hrun, hone, htwo, hclash, ?_⟩
  intro hunique
  exact absurd (hunique 1 (by decide) 2 (by decide) hone htwo hclash) (by decide)

end AceOS.Kernel
