import AceOS.Kernel.Process
import AceOS.Lib.LinkedQueue

/-!
# The scheduler (`src/kernel/scheduler.c`)

The ready queue is linked through the field `next` of the processes themselves.
`ReadyQueue s q` says that it is the list `q`, and that the states of the processes fit:
those in `q` are ready, the current one is not in it, and no other one runs.  Each call
is read as an operation on `q` and the current process.

The statistics are left out.  `save_context` saves zeros, and `load_context` sets the state
that `scheduler_schedule` has set already.  The queue holds distinct processes of the table,
so `count` does not wrap.
-/

namespace AceOS.Kernel

open Memory LinkedQueue

/-! ### The code -/

/-- `scheduler_init`. -/
def schedulerInit (s : Tasks) : Tasks :=
  { s with readyQueue := ⟨none, none, 0⟩, schedulerEnabled := true }

def schedulerAddProcess (process : Option Nat) (s : Tasks) : Tasks :=
  match process with
  | none => s
  | some p =>
      if !s.schedulerEnabled then s
      else
        let s := s.modify p fun e => { e with state := .ready, next := none }
        let count := s.readyQueue.count + 1
        match s.readyQueue.tail with
        | some t =>
            { s.modify t fun e => { e with next := some p } with
              readyQueue := ⟨s.readyQueue.head, some p, count⟩ }
        | none => { s with readyQueue := ⟨some p, some p, count⟩ }

/-- The process found is linked past. -/
def unlinkProcess (current : Nat) (previous : Option Nat) (s : Tasks) : Tasks :=
  let next := (s.processTable current).next
  let s := match previous with
    | some t => s.modify t fun e => { e with next := next }
    | none => { s with readyQueue := { s.readyQueue with head := next } }
  let tail := if some current = s.readyQueue.tail then previous else s.readyQueue.tail
  let s := { s with
    readyQueue := { s.readyQueue with tail := tail, count := s.readyQueue.count - 1 } }
  s.modify current fun e => { e with next := none }

/-- The loop of `scheduler_remove_process`; `none` if it goes on for more than `fuel`
processes. -/
def removeLoop (p : Nat) : (fuel : Nat) → (current previous : Option Nat) → Tasks → Option Tasks
  | 0, current, _, s => if current = none then some s else none
  | _ + 1, none, _, s => some s
  | fuel + 1, some current, previous, s =>
      if current = p then some (unlinkProcess current previous s)
      else removeLoop p fuel (s.processTable current).next (some current) s

def schedulerRemoveProcess (process : Option Nat) (s : Tasks) : Option Tasks :=
  match process with
  | none => some s
  | some p =>
      if !s.schedulerEnabled ∨ s.readyQueue.count = 0 then some s
      else removeLoop p s.readyQueue.count s.readyQueue.head none s

def getNextProcess (s : Tasks) : Option Nat × Tasks :=
  if s.readyQueue.count = 0 then (none, s)
  else
    match s.readyQueue.head with
    | none => (none, s)
    | some p =>
        let head := (s.processTable p).next
        let tail := if head = none then none else s.readyQueue.tail
        let s := { s with readyQueue := ⟨head, tail, s.readyQueue.count - 1⟩ }
        (some p, s.modify p fun e => { e with next := none })

def saveContext (p : Nat) (s : Tasks) : Tasks := s.modify p fun e => { e with esp := 0, ebp := 0 }

/-- The running process goes back to the queue. -/
def requeueCurrent (s : Tasks) : Tasks :=
  match s.currentProcess with
  | none => s
  | some c =>
      if (s.processTable c).state = .running then
        let s := (saveContext c s).modify c fun e => { e with state := .ready }
        if (s.processTable c).state ≠ .terminated then schedulerAddProcess (some c) s else s
      else s

def schedulerSchedule (s : Tasks) : Tasks :=
  if !s.schedulerEnabled then s
  else
    match getNextProcess s with
    | (none, s) => s
    | (some p, s) =>
        let s := { requeueCurrent s with currentProcess := some p }
        s.modify p fun e => { e with state := .running, timeUsed := 0 }

def schedulerYield (s : Tasks) : Tasks :=
  if !s.schedulerEnabled then s else schedulerSchedule s

def schedulerTick (s : Tasks) : Tasks :=
  if !s.schedulerEnabled then s
  else
    match s.currentProcess with
    | none => s
    | some c =>
        let s := s.modify c fun e => { e with timeUsed := add32 e.timeUsed 1 }
        if (s.processTable c).timeSlice ≤ (s.processTable c).timeUsed then schedulerYield s else s

/-- `process_exit` (`process.c`). -/
def processExit (exitCode : Int) (s : Tasks) : Tasks :=
  match s.currentProcess with
  | none => s
  | some c =>
      if (s.processTable c).pid = 0 then s
      else
        schedulerSchedule
          (s.modify c fun e => { e with exitCode := exitCode, state := .terminated })

/-! ### The queue -/

/-- The field `next` of every process. -/
def Tasks.links (s : Tasks) : Nat → Option Nat := fun p => (s.processTable p).next

/-- The field `state` of every process. -/
def Tasks.states (s : Tasks) : Nat → ProcessState := fun p => (s.processTable p).state

/-- The statics of the ready queue and the links stand for a list. -/
def Tasks.Queue (s : Tasks) (q : List Nat) : Prop :=
  Represents s.links s.readyQueue.head s.readyQueue.tail s.readyQueue.count q

/-- The processes met from the head of the ready queue on. -/
def readyList (s : Tasks) : List Nat := follow s.links s.readyQueue.count s.readyQueue.head

variable {s s' : Tasks} {p c : Nat} {q : List Nat} {f : Process → Process}

theorem links_modify :
    (s.modify p f).links = Function.update s.links p (f (s.processTable p)).next := by
  funext x
  rw [Tasks.links, Tasks.modify_processTable]
  by_cases hx : x = p
  · rw [hx, Function.update_self, Function.update_self]
  · rw [Function.update_of_ne hx, Function.update_of_ne hx]
    rfl

theorem states_modify :
    (s.modify p f).states = Function.update s.states p (f (s.processTable p)).state := by
  funext x
  rw [Tasks.states, Tasks.modify_processTable]
  by_cases hx : x = p
  · rw [hx, Function.update_self, Function.update_self]
  · rw [Function.update_of_ne hx, Function.update_of_ne hx]
    rfl

theorem links_modify_keep (h : (f (s.processTable p)).next = (s.processTable p).next) :
    (s.modify p f).links = s.links := by
  rw [links_modify, h]
  exact Function.update_eq_self p s.links

theorem states_modify_keep (h : (f (s.processTable p)).state = (s.processTable p).state) :
    (s.modify p f).states = s.states := by
  rw [states_modify, h]
  exact Function.update_eq_self p s.states

theorem Tasks.Queue.readyList_eq (h : s.Queue q) : readyList s = q := h.follow_eq

/-- **`scheduler_add_process`** appends. -/
theorem schedulerAddProcess_spec (hen : s.schedulerEnabled = true) (h : s.Queue q) (hp : p ∉ q) :
    (schedulerAddProcess (some p) s).Queue (q ++ [p]) ∧
    (schedulerAddProcess (some p) s).currentProcess = s.currentProcess ∧
    (schedulerAddProcess (some p) s).schedulerEnabled = true ∧
    (schedulerAddProcess (some p) s).states = Function.update s.states p .ready := by
  have hpush := h.push hp
  have hnot : ¬(!s.schedulerEnabled) = true := by
    rw [hen]
    decide
  rw [schedulerAddProcess]
  dsimp only
  rw [if_neg hnot]
  have hlinks : (s.modify p fun e => { e with state := .ready, next := none }).links
      = Function.update s.links p none := links_modify
  have hstates : (s.modify p fun e => { e with state := .ready, next := none }).states
      = Function.update s.states p .ready := states_modify
  have htail : (s.modify p fun e => { e with state := .ready, next := none }).readyQueue.tail
      = s.readyQueue.tail := rfl
  rw [htail]
  cases ht : s.readyQueue.tail with
  | none =>
      rw [ht] at hpush
      refine ⟨?_, rfl, hen, hstates⟩
      rw [← hlinks] at hpush
      exact hpush
  | some t =>
      rw [ht] at hpush
      refine ⟨?_, rfl, hen, ?_⟩
      · rw [← hlinks] at hpush
        have hlinks₂ :=
          links_modify (s := s.modify p fun e => { e with state := .ready, next := none })
          (p := t) (f := fun e => { e with next := some p })
        dsimp only [Option.elim] at hpush
        rw [← hlinks₂] at hpush
        exact hpush
      · rw [← hstates]
        exact states_modify_keep (f := fun e => { e with next := some p }) rfl

/-- **`get_next_process`** takes the first. -/
theorem getNextProcess_nil (h : s.Queue []) : getNextProcess s = (none, s) := by
  have hcount : s.readyQueue.count = 0 := h.count_eq
  rw [getNextProcess, if_pos hcount]

theorem getNextProcess_cons (h : s.Queue (p :: q)) : ∃ s', getNextProcess s = (some p, s') ∧
    s'.Queue q ∧ s'.currentProcess = s.currentProcess ∧
    s'.schedulerEnabled = s.schedulerEnabled ∧ s'.states = s.states := by
  obtain ⟨hhead, hpop⟩ := h.pop
  have hcount : s.readyQueue.count ≠ 0 := by
    rw [h.count_eq, List.length_cons]
    exact Nat.succ_ne_zero _
  rw [getNextProcess, if_neg hcount, hhead]
  refine ⟨_, rfl, ?_, rfl, rfl, states_modify_keep rfl⟩
  rw [Tasks.Queue, links_modify]
  exact hpop

theorem unlinkProcess_spec {a r : List Nat} (h : s.Queue (a ++ p :: r)) :
    (unlinkProcess p a.getLast? s).Queue (a ++ r) ∧
    (unlinkProcess p a.getLast? s).currentProcess = s.currentProcess ∧
    (unlinkProcess p a.getLast? s).schedulerEnabled = s.schedulerEnabled ∧
    (unlinkProcess p a.getLast? s).states = s.states := by
  have hremove := h.remove
  cases hlast : a.getLast? with
  | none =>
      rw [hlast] at hremove
      rw [unlinkProcess]
      refine ⟨?_, rfl, rfl, states_modify_keep rfl⟩
      rw [Tasks.Queue, links_modify]
      exact hremove
  | some t =>
      rw [hlast] at hremove
      rw [unlinkProcess]
      have hlinks : (s.modify t fun e => { e with next := (s.processTable p).next }).links
          = Function.update s.links t (s.links p) := links_modify
      refine ⟨?_, rfl, rfl, ?_⟩
      · rw [Tasks.Queue, links_modify]
        dsimp only [Option.elim] at hremove
        rw [← hlinks] at hremove
        exact hremove
      · have hstates : (s.modify t fun e => { e with next := (s.processTable p).next }).states
            = s.states := states_modify_keep rfl
        rw [← hstates]
        exact states_modify_keep rfl

theorem removeLoop_spec (fuel : Nat) {a r : List Nat} (h : s.Queue (a ++ r)) {current : Option Nat}
    (hc : Linked s.links current r) (hfuel : r.length ≤ fuel) (ha : p ∉ a) :
    ∃ s', removeLoop p fuel current a.getLast? s = some s' ∧ s'.Queue ((a ++ r).erase p) ∧
      s'.currentProcess = s.currentProcess ∧ s'.schedulerEnabled = s.schedulerEnabled ∧
      s'.states = s.states := by
  induction r generalizing a current fuel with
  | nil =>
      rw [linked_nil] at hc
      subst hc
      have hmem : p ∉ a ++ [] := by rwa [List.append_nil]
      refine ⟨s, ?_, ?_, rfl, rfl, rfl⟩
      · cases fuel <;> rfl
      · rw [List.erase_of_not_mem hmem]
        exact h
  | cons x r ih =>
      obtain ⟨rfl, hc⟩ := hc
      rw [List.length_cons] at hfuel
      obtain ⟨fuel, rfl⟩ : ∃ n, fuel = n + 1 := ⟨fuel - 1, by omega⟩
      rw [removeLoop]
      by_cases hxp : x = p
      · subst hxp
        rw [if_pos rfl, List.erase_append_right _ ha, List.erase_cons_head]
        exact ⟨_, rfl, unlinkProcess_spec h⟩
      · rw [if_neg hxp]
        have hlist : (a ++ [x]) ++ r = a ++ x :: r := by
          rw [List.append_assoc, List.singleton_append]
        have ha' : p ∉ a ++ [x] := by
          rw [List.mem_append, List.mem_singleton, not_or]
          exact ⟨ha, fun he => hxp he.symm⟩
        have hrec := ih fuel (a := a ++ [x]) (hlist.symm ▸ h) hc (by omega) ha'
        rwa [List.getLast?_concat, hlist] at hrec

/-- **`scheduler_remove_process`** returns, and takes out the process. -/
theorem schedulerRemoveProcess_spec (hen : s.schedulerEnabled = true) (h : s.Queue q) (p : Nat) :
    ∃ s', schedulerRemoveProcess (some p) s = some s' ∧ s'.Queue (q.erase p) ∧
      s'.currentProcess = s.currentProcess ∧ s'.schedulerEnabled = true ∧ s'.states = s.states := by
  rw [schedulerRemoveProcess]
  split
  · rename_i hidle
    refine ⟨s, rfl, ?_, rfl, hen, rfl⟩
    have hzero : s.readyQueue.count = 0 := by
      refine hidle.resolve_left ?_
      rw [hen]
      decide
    have hq : q = [] := List.length_eq_zero_iff.mp (h.count_eq.symm.trans hzero)
    subst hq
    exact h
  · obtain ⟨s', he, hq, hc, hen', hs⟩ := removeLoop_spec (p := p) (a := []) s.readyQueue.count h
      h.linked (Nat.le_of_eq h.count_eq.symm) List.not_mem_nil
    exact ⟨s', he, hq, hc, hen'.trans hen, hs⟩

end AceOS.Kernel
