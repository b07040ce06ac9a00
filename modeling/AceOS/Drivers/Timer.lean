import AceOS.Kernel.Scheduler

/-!
# The timer (`src/drivers/timer.c`)

The interrupt handler counts ticks in a 32-bit counter and moves the clock on at every tick
divisible by 1000.  2^32 is not divisible by 1000, so the second in which the counter wraps
around is too short, and the clock is ahead from then on (`timerRun_uptime`).

A callback is a number `f`; what it does is a parameter.  It may read all and write what is
outside the static variables of the timer: the registry and the processes.
-/

namespace AceOS.Drivers

open Kernel

/-! ### The code -/

structure SystemTime where
  seconds : UInt32
  minutes : UInt32
  hours : UInt32
  days : UInt32
deriving DecidableEq

/-- `missed_ticks` is never written. -/
structure TimerStats where
  totalTicks : UInt32
  interruptsPerSecond : UInt32
  schedulerCalls : UInt32

abbrev maxTimerCallbacks : Nat := 10

/-- What callbacks and the code between two interrupts may change. -/
structure TimerContext where
  timerCallbacks : Fin maxTimerCallbacks → Option Nat
  callbackCount : Fin (maxTimerCallbacks + 1)
  multitaskingEnabled : Bool
  tasks : Tasks

structure Timer where
  timerTicks : UInt32
  systemTime : SystemTime
  stats : TimerStats
  context : TimerContext

/-- `timer_update_system_time`. -/
def timerUpdateSystemTime (t : SystemTime) : SystemTime :=
  let t := { t with seconds := t.seconds + 1 }
  if t.seconds ≥ 60 then
    let t := { t with seconds := 0, minutes := t.minutes + 1 }
    if t.minutes ≥ 60 then
      let t := { t with minutes := 0, hours := t.hours + 1 }
      if t.hours ≥ 24 then { t with hours := 0, days := t.days + 1 } else t
    else t
  else t

/-- `for (i = 10 - n; i < callback_count; i++)`: the count is read again every time. -/
def callCallbacks (call : Nat → Timer → TimerContext) : (n : Nat) → n ≤ maxTimerCallbacks →
    Timer → Timer
  | 0, _, t => t
  | n + 1, hn, t =>
      let i : Fin maxTimerCallbacks := ⟨maxTimerCallbacks - (n + 1), by omega⟩
      if i.val < t.context.callbackCount.val then
        match t.context.timerCallbacks i with
        | some f => callCallbacks call n (by omega) { t with context := call f t }
        | none => callCallbacks call n (by omega) t
      else t

/-- The first part of `timer_handler`: the counters and the clock. -/
def timerCount (t : Timer) : Timer :=
  let t := { t with
    timerTicks := t.timerTicks + 1
    stats := { t.stats with totalTicks := t.stats.totalTicks + 1 } }
  if t.timerTicks % 1000 = 0 then
    { t with
      systemTime := timerUpdateSystemTime t.systemTime
      stats := { t.stats with interruptsPerSecond := 1000 } }
  else t

/-- The last part of `timer_handler`. -/
def timerSchedule (t : Timer) : Timer :=
  if t.context.multitaskingEnabled then
    { t with
      context := { t.context with tasks := schedulerTick t.context.tasks }
      stats := { t.stats with schedulerCalls := t.stats.schedulerCalls + 1 } }
  else t

def timerHandler (call : Nat → Timer → TimerContext) (t : Timer) : Timer :=
  timerSchedule (callCallbacks call maxTimerCallbacks le_rfl (timerCount t))

/-- The static variables as they are loaded; `timer_init` leaves no callback. -/
def timerStart (context : TimerContext) : Timer where
  timerTicks := 0
  systemTime := ⟨0, 0, 0, 0⟩
  stats := ⟨0, 0, 0⟩
  context := context

/-- One interrupt for each element, which is what the code in between has left. -/
def timerRun (call : Nat → Timer → TimerContext) : List TimerContext → Timer → Timer
  | [], t => t
  | c :: cs, t => timerRun call cs (timerHandler call { t with context := c })

/-! ### The clock -/

/-- The clock as a number of seconds. -/
def SystemTime.uptime (t : SystemTime) : Nat :=
  t.days.toNat * 86400 + t.hours.toNat * 3600 + t.minutes.toNat * 60 + t.seconds.toNat

structure SystemTime.WellFormed (t : SystemTime) : Prop where
  seconds : t.seconds.toNat < 60
  minutes : t.minutes.toNat < 60
  hours : t.hours.toNat < 24

/-- The seconds the clock can count before `days` wraps around. -/
abbrev clockRange : Nat := 2 ^ 32 * 86400

theorem SystemTime.WellFormed.uptime_lt {t : SystemTime} (h : t.WellFormed) :
    t.uptime < clockRange := by
  have hdays := t.days.toNat_lt
  obtain ⟨hseconds, hminutes, hhours⟩ := h
  rw [SystemTime.uptime, clockRange]
  omega

private theorem toNat_add_one {x : UInt32} {b : Nat} (h : x.toNat < b) (hb : b < 2 ^ 32) :
    (x + 1).toNat = x.toNat + 1 := by
  rw [UInt32.toNat_add]
  exact Nat.mod_eq_of_lt (by show x.toNat + 1 < 2 ^ 32; omega)

/-- **The carry chain counts one second**, and wraps around with the days. -/
theorem timerUpdateSystemTime_spec {t : SystemTime} (h : t.WellFormed) :
    (timerUpdateSystemTime t).WellFormed ∧
      (timerUpdateSystemTime t).uptime = (t.uptime + 1) % clockRange := by
  have hlt := h.uptime_lt
  obtain ⟨hseconds, hminutes, hhours⟩ := h
  have hs := toNat_add_one hseconds (by decide)
  have hm := toNat_add_one hminutes (by decide)
  have hh := toNat_add_one hhours (by decide)
  have hd : (t.days + 1).toNat = (t.days.toNat + 1) % 2 ^ 32 := UInt32.toNat_add ..
  have hzero : (0 : UInt32).toNat = 0 := rfl
  have hsixty : (60 : UInt32).toNat = 60 := rfl
  have htwentyfour : (24 : UInt32).toNat = 24 := rfl
  have hdays := t.days.toNat_lt
  rw [clockRange] at hlt
  rw [timerUpdateSystemTime]
  simp only [ge_iff_le, UInt32.le_iff_toNat_le]
  rw [hs, hm, hh, hsixty, htwentyfour]
  rw [SystemTime.uptime] at hlt ⊢
  rw [SystemTime.uptime]
  by_cases h₁ : 60 ≤ t.seconds.toNat + 1
  · rw [if_pos h₁]
    by_cases h₂ : 60 ≤ t.minutes.toNat + 1
    · rw [if_pos h₂]
      by_cases h₃ : 24 ≤ t.hours.toNat + 1
      · rw [if_pos h₃]
        refine ⟨⟨by rw [hzero]; omega, by rw [hzero]; omega, by rw [hzero]; omega⟩, ?_⟩
        dsimp only
        rw [hd, hzero, clockRange]
        omega
      · rw [if_neg h₃]
        refine ⟨⟨by rw [hzero]; omega, by rw [hzero]; omega, by rw [hh]; omega⟩, ?_⟩
        dsimp only
        rw [hh, hzero, clockRange]
        omega
    · rw [if_neg h₂]
      refine ⟨⟨by rw [hzero]; omega, by rw [hm]; omega, hhours⟩, ?_⟩
      dsimp only
      rw [hm, hzero, clockRange]
      omega
  · rw [if_neg h₁]
    refine ⟨⟨by rw [hs]; omega, hminutes, hhours⟩, ?_⟩
    dsimp only
    rw [hs, clockRange]
    omega

/-! ### One interrupt -/

section Handler

variable (call : Nat → Timer → TimerContext)

theorem callCallbacks_keeps (n : Nat) (hn : n ≤ maxTimerCallbacks) (t : Timer) :
    (callCallbacks call n hn t).timerTicks = t.timerTicks ∧
      (callCallbacks call n hn t).systemTime = t.systemTime := by
  induction n generalizing t with
  | zero => exact ⟨rfl, rfl⟩
  | succ n ih =>
      rw [callCallbacks]
      dsimp only
      split
      · split
        · exact ih (by omega) _
        · exact ih (by omega) _
      · exact ⟨rfl, rfl⟩

theorem timerSchedule_keeps (t : Timer) :
    (timerSchedule t).timerTicks = t.timerTicks ∧ (timerSchedule t).systemTime = t.systemTime := by
  rw [timerSchedule]
  split <;> exact ⟨rfl, rfl⟩

theorem timerHandler_timerTicks (t : Timer) :
    (timerHandler call t).timerTicks = t.timerTicks + 1 := by
  rw [timerHandler, (timerSchedule_keeps _).1, (callCallbacks_keeps call _ _ _).1, timerCount]
  dsimp only
  split <;> rfl

theorem timerHandler_systemTime (t : Timer) :
    (timerHandler call t).systemTime =
      if (t.timerTicks + 1) % 1000 = 0 then timerUpdateSystemTime t.systemTime
      else t.systemTime := by
  rw [timerHandler, (timerSchedule_keeps _).2, (callCallbacks_keeps call _ _ _).2, timerCount]
  dsimp only
  split <;> rfl

/-! ### Runs -/

/-- The seconds the handler counts in `n` interrupts: 4294968 in every full round of the
counter, one of them at the value 0, which the first round does not count. -/
def secondsCounted (n : Nat) : Nat := n / 2 ^ 32 * 4294968 + n % 2 ^ 32 / 1000

theorem secondsCounted_succ (n : Nat) :
    secondsCounted (n + 1) =
      if (n + 1) % 2 ^ 32 % 1000 = 0 then secondsCounted n + 1 else secondsCounted n := by
  rw [secondsCounted, secondsCounted]
  split <;> omega

theorem timerRun_append (cs ds : List TimerContext) (t : Timer) :
    timerRun call (cs ++ ds) t = timerRun call ds (timerRun call cs t) := by
  induction cs generalizing t with
  | nil => rfl
  | cons c cs ih => exact ih _

/-- **The clock after `n` interrupts**: the invariant of a run. -/
theorem timerRun_uptime (cs : List TimerContext) (context : TimerContext) :
    (timerRun call cs (timerStart context)).timerTicks.toNat = cs.length % 2 ^ 32 ∧
      (timerRun call cs (timerStart context)).systemTime.WellFormed ∧
      (timerRun call cs (timerStart context)).systemTime.uptime =
        secondsCounted cs.length % clockRange := by
  induction cs using List.reverseRecOn with
  | nil =>
      have hzero : secondsCounted 0 = 0 := rfl
      refine ⟨rfl, ⟨Nat.succ_pos 59, Nat.succ_pos 59, Nat.succ_pos 23⟩, ?_⟩
      rw [List.length_nil, hzero, Nat.zero_mod]
      simp [timerRun, timerStart, SystemTime.uptime]
  | append_singleton cs c ih =>
      obtain ⟨hticks, hwf, huptime⟩ := ih
      rw [timerRun_append, timerRun, timerRun, timerHandler_timerTicks, timerHandler_systemTime,
        List.length_append, List.length_singleton, secondsCounted_succ]
      generalize timerRun call cs (timerStart context) = t at hticks hwf huptime
      dsimp only
      have hnext : (t.timerTicks + 1).toNat = (cs.length + 1) % 2 ^ 32 := by
        rw [UInt32.toNat_add, hticks]
        exact Nat.mod_add_mod ..
      have hsecond : (t.timerTicks + 1) % 1000 = 0 ↔ (cs.length + 1) % 2 ^ 32 % 1000 = 0 := by
        rw [← UInt32.toNat_inj, UInt32.toNat_mod, hnext]
        rfl
      refine ⟨hnext, ?_⟩
      by_cases hs : (cs.length + 1) % 2 ^ 32 % 1000 = 0
      · obtain ⟨hwf', huptime'⟩ := timerUpdateSystemTime_spec hwf
        rw [if_pos (hsecond.mpr hs), if_pos hs, huptime', huptime]
        exact ⟨hwf', Nat.mod_add_mod ..⟩
      · rw [if_neg (fun h => hs (hsecond.mp h)), if_neg hs]
        exact ⟨hwf, huptime⟩

/-- Where the count is the true number of seconds: in the first round of the counter, and in
the second one in the last 296 milliseconds of what the clock takes for a second. -/
theorem secondsCounted_eq_iff (n : Nat) :
    secondsCounted n % clockRange = n / 1000 ↔
      n < 2 ^ 32 ∨ n < 2 ^ 33 ∧ 704 ≤ n % 2 ^ 32 % 1000 := by
  rw [clockRange, secondsCounted]
  constructor
  · intro h
    -- The clock stays below its range, and in this range it is not ahead by a whole round of days.
    have hlt : n / 1000 < 2 ^ 32 * 86400 := h ▸ Nat.mod_lt _ (by decide)
    have hround : n / 2 ^ 32 * 4294968 + n % 2 ^ 32 / 1000 < 2 * (2 ^ 32 * 86400) := by omega
    have hsmall : n / 2 ^ 32 * 4294968 + n % 2 ^ 32 / 1000 < 2 ^ 32 * 86400 := by
      by_contra hge
      rw [Nat.mod_eq_sub_mod (by omega), Nat.mod_eq_of_lt (by omega)] at h
      omega
    rw [Nat.mod_eq_of_lt hsmall] at h
    omega
  · intro h
    rw [Nat.mod_eq_of_lt (by omega)]
    omega

/-- **The uptime clock is right** in the first round of the counter, and no longer than the
last 296 interrupts of each thousand of the second one. -/
theorem timerRun_uptime_iff (cs : List TimerContext) (context : TimerContext) :
    let t := (timerRun call cs (timerStart context)).systemTime
    (t.seconds.toNat < 60 ∧ t.minutes.toNat < 60 ∧ t.hours.toNat < 24 ∧
      t.days.toNat * 86400 + t.hours.toNat * 3600 + t.minutes.toNat * 60 + t.seconds.toNat =
        cs.length / 1000) ↔
      cs.length < 2 ^ 32 ∨ cs.length < 2 ^ 33 ∧ 704 ≤ cs.length % 2 ^ 32 % 1000 := by
  obtain ⟨-, hwf, huptime⟩ := timerRun_uptime call cs context
  rw [← secondsCounted_eq_iff, ← huptime]
  exact ⟨fun h => h.2.2.2, fun h => ⟨hwf.seconds, hwf.minutes, hwf.hours, h⟩⟩

/-- At interrupt 2^32 the counter is 0 and the clock counts a second, 296 milliseconds after
the last one: it shows 49 days, 17 hours, 2 minutes and 48 seconds, one second too many. -/
theorem timerRun_wrap (context : TimerContext) :
    (timerRun call (List.replicate (2 ^ 32) context) (timerStart context)).systemTime.uptime
      = 49 * 86400 + 17 * 3600 + 2 * 60 + 48 := by
  obtain ⟨-, -, huptime⟩ := timerRun_uptime call (List.replicate (2 ^ 32) context) context
  rw [huptime, List.length_replicate]
  rfl

end Handler

/-- The clock is wrong at the first interrupt after the counter wraps around, long before the
days do. -/
theorem timerRun_uptime_counterexample :
    ¬ ∀ (call : Nat → Timer → TimerContext) (cs : List TimerContext) (context : TimerContext),
      secondsCounted cs.length < clockRange →
        (timerRun call cs (timerStart context)).systemTime.uptime = cs.length / 1000 := by
  intro h
  let context : TimerContext := {
    timerCallbacks := fun _ => none
    callbackCount := 0
    multitaskingEnabled := false
    tasks := processInit (pmmInit ⟨fun _ => 0⟩) }
  have hlaw := h (fun _ t => t.context) (List.replicate (2 ^ 32) context) context
  rw [List.length_replicate, timerRun_wrap] at hlaw
  exact absurd (hlaw (by decide)) (by decide)

end AceOS.Drivers
