import AceOS.Drivers.Timer
import AceOS.Kernel.Syscall

/-!
# Sleeping (`src/drivers/timer.c`, `src/kernel/syscall.c`)

`timer_sleep` and `kernel_sleep` wait until the tick counter has reached a deadline.  The deadline
is computed modulo 2^32 and compared as a number, so that a deadline beyond the end of the counter
is reached too early (`sleep_iff`); `kernel_sleep` has also multiplied by 1000.

A wait is given by its polls: each is the interrupts since the poll before it.
-/

namespace AceOS.Drivers

open Kernel

/-! ### The code -/

section Code

variable (call : Nat → Timer → TimerContext)

/-- `while (timer_ticks < target_ticks)`: the polls that are left after the loop. -/
def timerSleepLoop (targetTicks : UInt32) :
    List (List TimerContext) → Timer → Option (List (List TimerContext) × Timer)
  | [], _ => none
  | cs :: polls, t =>
      let t := timerRun call cs t
      if t.timerTicks < targetTicks then
        timerSleepLoop targetTicks polls
          (if t.context.multitaskingEnabled then
            { t with context := { t.context with tasks := schedulerYield t.context.tasks } }
          else t)
      else some (polls, t)

def timerSleep (milliseconds : UInt32) (polls : List (List TimerContext)) (t : Timer) :
    Option (List (List TimerContext) × Timer) :=
  let startTicks := t.timerTicks
  let targetTicks := startTicks + milliseconds
  timerSleepLoop call targetTicks polls t

/-- What `timer_get_ticks` returns at the polls. -/
def pollTicks : List (List TimerContext) → Timer → List UInt32
  | [], _ => []
  | cs :: polls, t =>
      let t := timerRun call cs t
      t.timerTicks :: pollTicks polls t

/-! ### Deadlines -/

/-- `n` ticks after `start`. -/
abbrev ticksAfter (start : UInt32) (n : Nat) : UInt32 := start + UInt32.ofNat n

theorem toNat_ticksAfter (start : UInt32) (n : Nat) :
    (ticksAfter start n).toNat = (start.toNat + n) % 2 ^ 32 := by
  rw [ticksAfter, UInt32.toNat_add, UInt32.toNat_ofNat']
  exact Nat.add_mod_mod ..

theorem ticksAfter_zero (start : UInt32) : ticksAfter start 0 = start := UInt32.add_zero start

theorem ticksAfter_add (start : UInt32) (m n : Nat) :
    ticksAfter (ticksAfter start m) n = ticksAfter start (m + n) := by
  rw [← UInt32.toNat_inj, toNat_ticksAfter, toNat_ticksAfter, toNat_ticksAfter, Nat.mod_add_mod,
    Nat.add_assoc]

/-- **A deadline `r` ticks ahead** is reached after `r` ticks, and not before, if and only if it
is in the same round of the counter. -/
theorem deadline_iff {start target : UInt32} {r : Nat}
    (htarget : target.toNat = (start.toNat + r) % 2 ^ 32) :
    (∀ n, target ≤ ticksAfter start n → r ≤ n) ↔ start.toNat + r < 2 ^ 32 := by
  have hstart := start.toNat_lt
  have hlt := target.toNat_lt
  simp only [UInt32.le_iff_toNat_le, toNat_ticksAfter]
  constructor
  · intro h
    by_contra hround
    -- the deadline is before `start + r`, and the counter there, or already
    have hearly := h (target.toNat - start.toNat) (by omega)
    omega
  · intro hround n hn
    by_contra hearly
    omega

variable (t : Timer)

theorem timerRun_timerTicks (cs : List TimerContext) :
    (timerRun call cs t).timerTicks = ticksAfter t.timerTicks cs.length := by
  induction cs generalizing t with
  | nil => exact (ticksAfter_zero _).symm
  | cons c cs ih =>
      have hone : t.timerTicks + 1 = ticksAfter t.timerTicks 1 := rfl
      rw [timerRun, ih, timerHandler_timerTicks, hone, ticksAfter_add, List.length_cons,
        Nat.add_comm]

/-! ### The loops -/

variable {call t} {target : UInt32} {done rest polls : List (List TimerContext)}

theorem timerSleepLoop_length {t' : Timer}
    (h : timerSleepLoop call target polls t = some (rest, t')) : rest.length < polls.length := by
  induction polls generalizing t with
  | nil => exact absurd h (by simp [timerSleepLoop])
  | cons cs polls ih =>
      rw [timerSleepLoop] at h
      dsimp only at h
      split at h
      · exact Nat.lt_succ_of_lt (ih h)
      · rw [Option.some.injEq, Prod.mk.injEq] at h
        rw [← h.1]
        exact Nat.lt_succ_self _

/-- The loop of `timer_sleep` ends at the deadline. -/
theorem timerSleepLoop_target {t' : Timer}
    (h : timerSleepLoop call target (done ++ rest) t = some (rest, t')) :
    target ≤ ticksAfter t.timerTicks done.flatten.length := by
  induction done generalizing t with
  | nil => exact absurd (timerSleepLoop_length h) (Nat.lt_irrefl _)
  | cons cs done ih =>
      rw [List.cons_append, timerSleepLoop] at h
      dsimp only at h
      rw [List.flatten_cons, List.length_append, ← ticksAfter_add, ← timerRun_timerTicks call]
      split at h
      · refine (ih h).trans_eq ?_
        split <;> rfl
      · rename_i hreached
        have hdone : done = [] := by
          rw [Option.some.injEq, Prod.mk.injEq] at h
          exact List.append_left_eq_self.mp h.1
        subst hdone
        exact (UInt32.not_lt.mp hreached).trans_eq (ticksAfter_zero _).symm

theorem timerSleepLoop_exit (c : TimerContext) {n : Nat}
    (h : target ≤ ticksAfter t.timerTicks n) :
    ∃ t', timerSleepLoop call target ([List.replicate n c] ++ []) t = some ([], t') := by
  refine ⟨timerRun call (List.replicate n c) t, ?_⟩
  have hticks := timerRun_timerTicks call t (List.replicate n c)
  rw [List.length_replicate] at hticks
  rw [List.append_nil, timerSleepLoop]
  dsimp only
  rw [if_neg]
  rw [hticks]
  exact UInt32.not_lt.mpr h

theorem pollTicks_length : (pollTicks call polls t).length = polls.length := by
  induction polls generalizing t with
  | nil => rfl
  | cons cs polls ih => exact congrArg Nat.succ ih

theorem sleepLoop_length {ticks ticks' : List UInt32} (h : sleepLoop target ticks = some ticks') :
    ticks'.length < ticks.length := by
  induction ticks with
  | nil => exact absurd h (by simp [sleepLoop])
  | cons r ticks ih =>
      rw [sleepLoop] at h
      split at h
      · exact Nat.lt_succ_of_lt (ih h)
      · rw [← Option.some.inj h]
        exact Nat.lt_succ_self _

/-- The loop of `kernel_sleep` ends at the deadline. -/
theorem sleepLoop_target {ticks : List UInt32}
    (h : sleepLoop target (pollTicks call (done ++ rest) t) = some ticks)
    (hrest : ticks.length = rest.length) :
    target ≤ ticksAfter t.timerTicks done.flatten.length := by
  induction done generalizing t with
  | nil =>
      have hlt := sleepLoop_length h
      rw [List.nil_append, pollTicks_length, hrest] at hlt
      exact absurd hlt (Nat.lt_irrefl _)
  | cons cs done ih =>
      rw [List.cons_append, pollTicks, sleepLoop] at h
      rw [List.flatten_cons, List.length_append, ← ticksAfter_add, ← timerRun_timerTicks call]
      split at h
      · exact ih h
      · rename_i hreached
        have hdone : done = [] := by
          rw [← Option.some.inj h, pollTicks_length, List.length_append] at hrest
          exact List.eq_nil_of_length_eq_zero (by omega)
        subst hdone
        exact (UInt32.not_lt.mp hreached).trans_eq (ticksAfter_zero _).symm

theorem sleepLoop_exit (c : TimerContext) {n : Nat} (h : target ≤ ticksAfter t.timerTicks n) :
    sleepLoop target (pollTicks call ([List.replicate n c] ++ []) t) = some [] := by
  have hticks := timerRun_timerTicks call t (List.replicate n c)
  rw [List.length_replicate] at hticks
  rw [List.append_nil, pollTicks, pollTicks, sleepLoop, if_neg]
  rw [hticks]
  exact UInt32.not_lt.mpr h

end Code

/-! ### The sleep -/

section Sleep

variable {σ : Type} (call : Nat → Timer → TimerContext) (t : Timer)

/-- `timer_sleep` returns only after `milliseconds` interrupts, whatever comes between the polls. -/
def TimerSleeps (milliseconds : UInt32) : Prop :=
  ∀ done rest t', timerSleep call milliseconds (done ++ rest) t = some (rest, t') →
    milliseconds.toNat ≤ done.flatten.length

/-- `kernel_sleep` returns only after 1000 interrupts for each second. -/
def KernelSleeps (seconds : UInt32) (st : SysState σ) : Prop :=
  ∀ done rest result st',
    kernelSleep seconds { st with ticks := t.timerTicks :: pollTicks call (done ++ rest) t }
      = some (result, st') → st'.ticks.length = rest.length →
    1000 * seconds.toNat ≤ done.flatten.length

theorem kernelSleep_eq {seconds : UInt32} (hzero : seconds ≠ 0) (start : UInt32)
    (ticks : List UInt32) (st : SysState σ) :
    kernelSleep seconds { st with ticks := start :: ticks }
      = (sleepLoop (start + seconds * 1000) ticks).map fun ticks =>
          (0, { st with ticks := ticks }) := by
  rw [kernelSleep, if_neg hzero]
  simp only [timerGetTicks, Option.bind_eq_bind, Option.bind_some]
  cases sleepLoop (start + seconds * 1000) ticks with
  | none => rfl
  | some ticks => rfl

theorem timerSleeps_iff (milliseconds : UInt32) : TimerSleeps call t milliseconds ↔
    t.timerTicks.toNat + milliseconds.toNat < 2 ^ 32 := by
  rw [← deadline_iff (UInt32.toNat_add t.timerTicks milliseconds)]
  constructor
  · intro h n hn
    obtain ⟨t', hexit⟩ := timerSleepLoop_exit t.context hn
    have hlen := h [List.replicate n t.context] [] t' hexit
    rwa [List.flatten_singleton, List.length_replicate] at hlen
  · intro h done rest t' hsleep
    exact h _ (timerSleepLoop_target hsleep)

theorem kernelSleeps_iff (seconds : UInt32) (st : SysState σ) : KernelSleeps call t seconds st ↔
    t.timerTicks.toNat + 1000 * seconds.toNat < 2 ^ 32 := by
  have htarget : (t.timerTicks + seconds * 1000).toNat
      = (t.timerTicks.toNat + 1000 * seconds.toNat) % 2 ^ 32 := by
    rw [UInt32.toNat_add, UInt32.toNat_mul, Nat.add_mod_mod, Nat.mul_comm]
    rfl
  rw [← deadline_iff htarget]
  constructor
  · intro h n hn
    by_cases hzero : seconds = 0
    · rw [hzero]
      exact Nat.zero_le n
    · have hlen := h [List.replicate n t.context] [] 0 { st with ticks := [] } (by
        rw [kernelSleep_eq hzero, sleepLoop_exit t.context hn, Option.map_some]) rfl
      rwa [List.flatten_singleton, List.length_replicate] at hlen
  · intro h done rest result st' hsleep hrest
    by_cases hzero : seconds = 0
    · rw [hzero]
      exact Nat.zero_le _
    · rw [kernelSleep_eq hzero] at hsleep
      obtain ⟨ticks, hloop, hst⟩ := Option.map_eq_some_iff.mp hsleep
      obtain ⟨-, rfl⟩ := Prod.mk.inj hst
      exact h _ (sleepLoop_target hloop hrest)

/-- **Sleeping lasts as long as asked** if and only if the deadline does not run over the end of
the counter. -/
theorem sleep_iff (st : SysState σ) :
    (∀ milliseconds, TimerSleeps call t milliseconds ↔
      t.timerTicks.toNat + milliseconds.toNat < 2 ^ 32) ∧
    ∀ seconds, KernelSleeps call t seconds st ↔
      t.timerTicks.toNat + 1000 * seconds.toNat < 2 ^ 32 :=
  ⟨timerSleeps_iff call t, fun seconds => kernelSleeps_iff call t seconds st⟩

/-- One millisecond at the last value of the counter: `timer_sleep` returns at once. -/
theorem timerSleep_wrapped : ∃ t : Timer, t.timerTicks = 0xFFFFFFFF ∧
    timerSleep (fun _ t => t.context) 1 ([[]] ++ []) t = some ([], t) ∧
    ¬TimerSleeps (fun _ t => t.context) t 1 := by
  let context : TimerContext := {
    timerCallbacks := fun _ => none
    callbackCount := 0
    multitaskingEnabled := false
    tasks := processInit (pmmInit ⟨fun _ => 0⟩) }
  have hsleep : timerSleep (fun _ t => t.context) 1 ([[]] ++ [])
      { timerStart context with timerTicks := 0xFFFFFFFF }
        = some ([], { timerStart context with timerTicks := 0xFFFFFFFF }) :=
    if_neg (show ¬(0xFFFFFFFF : UInt32) < 0xFFFFFFFF + 1 by decide)
  refine ⟨_, rfl, hsleep, ?_⟩
  intro h
  exact absurd (h _ _ _ hsleep) (by decide)

end Sleep

end AceOS.Drivers
