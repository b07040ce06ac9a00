import AceOS.Drivers.Timer
import AceOS.Lib.Turns

/-!
# Timer callbacks (`src/drivers/timer.c`)

The registry is an array without holes: registering appends, unregistering closes the gap.
`timer_handler` goes through it by index, so that a callback which unregisters one whose turn
has come moves the next one under the index, and that one is not called
(`timerHandlerCalls_iff`).
-/

namespace AceOS.Drivers

open Kernel Turns

/-! ### The code -/

/-- `timer_register_callback`; a full registry is reported and left alone. -/
def timerRegisterCallback (callback : Nat) (c : TimerContext) : TimerContext :=
  if h : c.callbackCount.val < maxTimerCallbacks then
    { c with
      timerCallbacks := Function.update c.timerCallbacks ⟨c.callbackCount.val, h⟩ (some callback)
      callbackCount := ⟨c.callbackCount.val + 1, Nat.succ_lt_succ h⟩ }
  else c

/-- `n` rounds of `timer_callbacks[j] = timer_callbacks[j + 1]` from `j` on. -/
def shiftCallbacks : (n j : Nat) → j + n < maxTimerCallbacks →
    (Fin maxTimerCallbacks → Option Nat) → Fin maxTimerCallbacks → Option Nat
  | 0, _, _, slots => slots
  | n + 1, j, h, slots =>
      shiftCallbacks n (j + 1) (by omega)
        (Function.update slots ⟨j, by omega⟩ (slots ⟨j + 1, by omega⟩))

/-- `for (i = 10 - n; i < callback_count; i++)` in `timer_unregister_callback`. -/
def unregisterLoop (callback : Nat) (c : TimerContext) : (n : Nat) → n ≤ maxTimerCallbacks →
    TimerContext
  | 0, _ => c
  | n + 1, hn =>
      let i := maxTimerCallbacks - (n + 1)
      if hi : i < c.callbackCount.val then
        if c.timerCallbacks ⟨i, by omega⟩ = some callback then
          { c with
            timerCallbacks := Function.update
              (shiftCallbacks (c.callbackCount.val - 1 - i) i (by omega) c.timerCallbacks)
              ⟨c.callbackCount.val - 1, by omega⟩ none
            callbackCount := ⟨c.callbackCount.val - 1, by omega⟩ }
        else unregisterLoop callback c n (by omega)
      else c

def timerUnregisterCallback (callback : Nat) (c : TimerContext) : TimerContext :=
  unregisterLoop callback c maxTimerCallbacks le_rfl

/-- What a callback does: the calls of `timer_unregister_callback` it makes, in turn, and what it
leaves of the rest. -/
structure CallbackBody where
  unregisters : Timer → List Nat
  multitaskingEnabled : Timer → Bool
  tasks : Timer → Tasks

def runBody (bodies : Nat → CallbackBody) (f : Nat) (t : Timer) : TimerContext :=
  { ((bodies f).unregisters t).foldl (fun c g => timerUnregisterCallback g c) t.context with
    multitaskingEnabled := (bodies f).multitaskingEnabled t
    tasks := (bodies f).tasks t }

theorem slot_lt (n : Nat) : maxTimerCallbacks - (n + 1) < maxTimerCallbacks :=
  Nat.sub_lt (by decide) n.succ_pos

/-- What the loop of `callCallbacks` calls. -/
def calledCallbacks (call : Nat → Timer → TimerContext) : (n : Nat) → n ≤ maxTimerCallbacks →
    Timer → List Nat
  | 0, _, _ => []
  | n + 1, hn, t =>
      let i : Fin maxTimerCallbacks := ⟨maxTimerCallbacks - (n + 1), slot_lt n⟩
      if i.val < t.context.callbackCount.val then
        match t.context.timerCallbacks i with
        | some f =>
            f :: calledCallbacks call n (Nat.le_of_succ_le hn) { t with context := call f t }
        | none => calledCallbacks call n (Nat.le_of_succ_le hn) t
      else []

def timerHandlerCalls (call : Nat → Timer → TimerContext) (t : Timer) : List Nat :=
  calledCallbacks call maxTimerCallbacks le_rfl (timerCount t)

def registeredCallbacks (t : Timer) : List Nat :=
  ((List.ofFn t.context.timerCallbacks).take t.context.callbackCount.val).reduceOption

def callOne (call : Nat → Timer → TimerContext) (f : Nat) (t : Timer) : Timer :=
  { t with context := call f t }

theorem callCallbacks_eq_foldl (call : Nat → Timer → TimerContext) (n : Nat)
    (hn : n ≤ maxTimerCallbacks) (t : Timer) :
    callCallbacks call n hn t
      = (calledCallbacks call n hn t).foldl (fun t f => callOne call f t) t := by
  induction n generalizing t with
  | zero => rfl
  | succ n ih =>
      rw [callCallbacks, calledCallbacks]
      dsimp only
      split
      · cases t.context.timerCallbacks ⟨maxTimerCallbacks - (n + 1), by omega⟩ with
        | some f => exact ih (by omega) _
        | none => exact ih (by omega) t
      · rfl

/-! ### The registry -/

/-- The slots hold the list `q` and nothing behind it. -/
structure HoldsCallbacks (c : TimerContext) (q : List Nat) : Prop where
  count_eq : c.callbackCount.val = q.length
  slot_eq : ∀ i : Fin maxTimerCallbacks, c.timerCallbacks i = q[i.val]?
  nodup : q.Nodup

/-- The registries that registering and unregistering make, each with its callbacks in the order
of their registration; no callback is registered twice. -/
inductive Registry : TimerContext → List Nat → Prop
  | init (c : TimerContext) (hslots : c.timerCallbacks = fun _ => none)
      (hcount : c.callbackCount = 0) : Registry c []
  | register {c q} (h : Registry c q) (f : Nat) (hf : f ∉ q) :
      Registry (timerRegisterCallback f c) (if q.length < maxTimerCallbacks then q ++ [f] else q)
  | unregister {c q} (h : Registry c q) (f : Nat) :
      Registry (timerUnregisterCallback f c) (q.erase f)
  | other {c q} (h : Registry c q) (enabled : Bool) (s : Tasks) :
      Registry { c with multitaskingEnabled := enabled, tasks := s } q

section Registry

variable {c : TimerContext} {q : List Nat}

theorem HoldsCallbacks.length_le (h : HoldsCallbacks c q) : q.length ≤ maxTimerCallbacks := by
  rw [← h.count_eq]
  exact Nat.le_of_lt_succ c.callbackCount.isLt

theorem HoldsCallbacks.register (h : HoldsCallbacks c q) {f : Nat} (hf : f ∉ q) :
    HoldsCallbacks (timerRegisterCallback f c)
      (if q.length < maxTimerCallbacks then q ++ [f] else q) := by
  obtain ⟨hcount, hslot, hnodup⟩ := h
  rw [timerRegisterCallback]
  split
  · rename_i hlt
    rw [if_pos (hcount ▸ hlt)]
    refine ⟨?_, ?_, ?_⟩
    · rw [List.length_append, List.length_singleton, ← hcount]
    · intro i
      dsimp only
      by_cases hi : i.val = q.length
      · have hi' : i = ⟨c.callbackCount.val, hlt⟩ := Fin.ext (hi.trans hcount.symm)
        rw [hi', Function.update_self, hcount, List.getElem?_append_right le_rfl, Nat.sub_self]
        rfl
      · have hi' : i ≠ ⟨c.callbackCount.val, hlt⟩ := by
          intro heq
          exact hi ((congrArg Fin.val heq).trans hcount)
        rw [Function.update_of_ne hi', hslot, List.getElem?_append, List.getElem?_singleton]
        split
        · rfl
        · rw [if_neg (by omega), List.getElem?_eq_none (by omega)]
    · exact List.nodup_append.mpr ⟨hnodup, List.nodup_singleton f, by
        rintro a ha b hb rfl
        exact hf (List.mem_singleton.mp hb ▸ ha)⟩
  · rename_i hge
    rw [if_neg (hcount ▸ hge)]
    exact ⟨hcount, hslot, hnodup⟩

theorem shiftCallbacks_apply (n j : Nat) (h : j + n < maxTimerCallbacks)
    {slots : Fin maxTimerCallbacks → Option Nat} {q : Nat → Option Nat}
    (hslots : ∀ i : Fin maxTimerCallbacks, slots i = q i.val) (i : Fin maxTimerCallbacks) :
    shiftCallbacks n j h slots i
      = if j ≤ i.val ∧ i.val < j + n then q (i.val + 1) else q i.val := by
  induction n generalizing j slots q with
  | zero =>
      rw [if_neg (by omega)]
      exact hslots i
  | succ n ih =>
      have hslots' : ∀ i : Fin maxTimerCallbacks,
          Function.update slots ⟨j, by omega⟩ (slots ⟨j + 1, by omega⟩) i
            = Function.update q j (q (j + 1)) i.val := by
        intro i
        by_cases hi : i.val = j
        · have hi' : i = ⟨j, by omega⟩ := Fin.ext hi
          rw [hi', Function.update_self, Function.update_self, hslots]
        · rw [Function.update_of_ne (fun h => hi (congrArg Fin.val h)), Function.update_of_ne hi,
            hslots]
      rw [shiftCallbacks, ih (j + 1) (by omega) hslots']
      by_cases hrange : j + 1 ≤ i.val ∧ i.val < j + 1 + n
      · rw [if_pos hrange, if_pos (by omega), Function.update_of_ne (by omega)]
      · rw [if_neg hrange]
        by_cases hi : i.val = j
        · rw [if_pos (by omega), hi, Function.update_self]
        · rw [if_neg (by omega), Function.update_of_ne hi]

theorem HoldsCallbacks.eraseIdx (h : HoldsCallbacks c q) {i : Nat} (hi : i < c.callbackCount.val)
    (hshift : i + (c.callbackCount.val - 1 - i) < maxTimerCallbacks)
    (hlast : c.callbackCount.val - 1 < maxTimerCallbacks)
    (hcount' : c.callbackCount.val - 1 < maxTimerCallbacks + 1) :
    HoldsCallbacks { c with
      timerCallbacks := Function.update
        (shiftCallbacks (c.callbackCount.val - 1 - i) i hshift c.timerCallbacks)
        ⟨c.callbackCount.val - 1, hlast⟩ none
      callbackCount := ⟨c.callbackCount.val - 1, hcount'⟩ } (q.eraseIdx i) := by
  have hle := h.length_le
  obtain ⟨hcount, hslot, hnodup⟩ := h
  refine ⟨?_, ?_, hnodup.eraseIdx i⟩
  · rw [List.length_eraseIdx_of_lt (hcount ▸ hi), ← hcount]
  · intro j
    rw [List.getElem?_eraseIdx]
    dsimp only
    by_cases hj : j.val = c.callbackCount.val - 1
    · have hj' : j = ⟨c.callbackCount.val - 1, hlast⟩ := Fin.ext hj
      rw [hj', Function.update_self, if_neg (by simp only; omega),
        List.getElem?_eq_none (by simp only; omega)]
    · rw [Function.update_of_ne (fun h => hj (congrArg Fin.val h)),
        shiftCallbacks_apply _ _ hshift hslot]
      by_cases hbefore : j.val < i
      · rw [if_neg (by omega), if_pos hbefore]
      · rw [if_neg hbefore]
        split
        · rfl
        · rw [List.getElem?_eq_none (by omega), List.getElem?_eq_none (by omega)]

theorem HoldsCallbacks.unregisterLoop (h : HoldsCallbacks c q) (f n : Nat)
    (hn : n ≤ maxTimerCallbacks) (hpre : ∀ k < maxTimerCallbacks - n, q[k]? ≠ some f) :
    HoldsCallbacks (unregisterLoop f c n hn) (q.erase f) := by
  have hle := h.length_le
  have hcount := h.count_eq
  have habsent (hall : ∀ k : Nat, q[k]? ≠ some f) : HoldsCallbacks c (q.erase f) := by
    have hf : f ∉ q := fun hf => (List.mem_iff_getElem?.mp hf).elim hall
    rwa [List.erase_of_not_mem hf]
  induction n with
  | zero =>
      refine habsent fun k hk => ?_
      have hlt := (List.getElem?_eq_some_iff.mp hk).1
      exact hpre k (by omega) hk
  | succ n ih =>
      rw [Drivers.unregisterLoop]
      split
      · rename_i hi
        split
        · -- found in slot `i`, which is taken out of the list
          rename_i hfound
          rw [h.slot_eq] at hfound
          dsimp only at hfound
          obtain ⟨hlt, hget⟩ := List.getElem?_eq_some_iff.mp hfound
          have herase : q.erase f = q.eraseIdx (maxTimerCallbacks - (n + 1)) := by
            rw [← hget, h.nodup.erase_getElem]
          rw [herase]
          exact h.eraseIdx hi _ _ _
        · rename_i hother
          rw [h.slot_eq] at hother
          refine ih (by omega) fun k hk => ?_
          by_cases hk' : k = maxTimerCallbacks - (n + 1)
          · rw [hk']
            exact hother
          · exact hpre k (by omega)
      · rename_i hi
        refine habsent fun k hk => ?_
        have hlt := (List.getElem?_eq_some_iff.mp hk).1
        exact hpre k (by omega) hk

theorem HoldsCallbacks.unregister (h : HoldsCallbacks c q) (f : Nat) :
    HoldsCallbacks (timerUnregisterCallback f c) (q.erase f) :=
  h.unregisterLoop f maxTimerCallbacks le_rfl fun k hk => absurd hk (by omega)

/-- **The registry is an array without holes**, in the order of the registrations. -/
theorem Registry.holds (h : Registry c q) : HoldsCallbacks c q := by
  induction h with
  | init c hslots hcount =>
      refine ⟨by rw [hcount]; rfl, fun i => by rw [hslots]; rfl, List.nodup_nil⟩
  | register _ f hf ih => exact ih.register hf
  | unregister _ f ih => exact ih.unregister f
  | other _ enabled s ih => exact ⟨ih.count_eq, ih.slot_eq, ih.nodup⟩

end Registry

/-! ### The handler -/

section Handler

variable (bodies : Nat → CallbackBody) {t : Timer} {q : List Nat}

theorem registeredCallbacks_eq (h : HoldsCallbacks t.context q) : registeredCallbacks t = q := by
  have hle := h.length_le
  have hslots : (List.ofFn t.context.timerCallbacks).take t.context.callbackCount.val
      = q.map some := by
    refine List.ext_getElem? fun i => ?_
    rw [List.getElem?_take, List.getElem?_map, h.count_eq]
    split
    · rename_i hi
      rw [List.getElem?_ofFn, dif_pos (by omega), h.slot_eq, List.getElem?_eq_getElem hi]
      rfl
    · rw [List.getElem?_eq_none (by omega)]
      rfl
  rw [registeredCallbacks, hslots]
  exact (List.filterMap_map ..).trans List.filterMap_some

theorem HoldsCallbacks.unregisterAll {c : TimerContext} (h : HoldsCallbacks c q) (gs : List Nat) :
    HoldsCallbacks (gs.foldl (fun c g => timerUnregisterCallback g c) c) (q.diff gs) := by
  induction gs generalizing c q with
  | nil => exact h
  | cons g gs ih =>
      rw [List.foldl_cons, List.diff_cons]
      exact ih (h.unregister g)

theorem HoldsCallbacks.call (h : HoldsCallbacks t.context q) (f : Nat) :
    HoldsCallbacks (callOne (runBody bodies) f t).context
      (q.filter fun g => g ∉ (bodies f).unregisters t) := by
  obtain ⟨hcount, hslot, hnodup⟩ := h.unregisterAll ((bodies f).unregisters t)
  rw [h.nodup.sdiff_eq_filter] at hcount hslot hnodup
  exact ⟨hcount, hslot, hnodup⟩

theorem timerCount_context (t : Timer) : (timerCount t).context = t.context := by
  rw [timerCount]
  dsimp only
  split <;> rfl

theorem calledCallbacks_eq (h : ∃ q, HoldsCallbacks t.context q) (n : Nat)
    (hn : n ≤ maxTimerCallbacks) :
    calledCallbacks (runBody bodies) n hn t
      = byIndex registeredCallbacks (callOne (runBody bodies)) n (maxTimerCallbacks - n) t := by
  induction n generalizing t with
  | zero => rfl
  | succ n ih =>
      obtain ⟨q, hq⟩ := h
      rw [calledCallbacks, byIndex, registeredCallbacks_eq hq]
      dsimp only
      rw [hq.count_eq, hq.slot_eq]
      split
      · rename_i hi
        rw [List.getElem?_eq_getElem hi]
        dsimp only
        have hindex : maxTimerCallbacks - (n + 1) + 1 = maxTimerCallbacks - n := by omega
        rw [hindex]
        exact congrArg _ (ih ⟨_, hq.call bodies q[maxTimerCallbacks - (n + 1)]⟩ (by omega))
      · rename_i hi
        rw [List.getElem?_eq_none (by omega)]

/-- **A tick calls every due callback once, in the order of registration,** if and only if each
callback, in its turn, unregisters only callbacks that are still to come, or leaves none of
these. -/
theorem timerHandlerCalls_iff (h : Registry t.context q) :
    timerHandler (runBody bodies) t
      = timerSchedule ((timerHandlerCalls (runBody bodies) t).foldl
          (fun t f => callOne (runBody bodies) f t) (timerCount t)) ∧
    (timerHandlerCalls (runBody bodies) t
        = byTurn registeredCallbacks (callOne (runBody bodies)) q (timerCount t) ↔
      TurnsKept registeredCallbacks (callOne (runBody bodies)) [] q (timerCount t)) := by
  refine ⟨congrArg timerSchedule (callCallbacks_eq_foldl ..), ?_⟩
  have hholds : HoldsCallbacks (timerCount t).context q := by
    rw [timerCount_context]
    exact h.holds
  have hq := registeredCallbacks_eq hholds
  rw [timerHandlerCalls, calledCallbacks_eq bodies ⟨q, hholds⟩, Nat.sub_self]
  have hnodup : ∀ t : Timer, (∃ q, HoldsCallbacks t.context q) → (registeredCallbacks t).Nodup := by
    rintro t ⟨q, hq⟩
    rw [registeredCallbacks_eq hq]
    exact hq.nodup
  have hact : ∀ (f : Nat) (t : Timer), (∃ q, HoldsCallbacks t.context q) →
      (∃ q, HoldsCallbacks (callOne (runBody bodies) f t).context q) ∧
        ∃ keep, registeredCallbacks (callOne (runBody bodies) f t)
          = (registeredCallbacks t).filter keep := by
    rintro f t ⟨q, hq⟩
    have hcall := hq.call bodies f
    refine ⟨⟨_, hcall⟩, fun g => g ∉ (bodies f).unregisters t, ?_⟩
    rw [registeredCallbacks_eq hcall, registeredCallbacks_eq hq]
  have hiff := byIndex_eq_byTurn_iff hnodup hact ⟨q, hholds⟩ (hq.symm ▸ hholds.length_le)
  rwa [hq] at hiff

end Handler

theorem registry_two : Registry (timerRegisterCallback 1 (timerRegisterCallback 0
    { timerCallbacks := fun _ => none
      callbackCount := 0
      multitaskingEnabled := false
      tasks := processInit (pmmInit ⟨fun _ => 0⟩) })) [0, 1] :=
  ((Registry.init _ rfl rfl).register 0 (by decide)).register 1 (by decide)

/-- Of three callbacks the first unregisters the second: the third is called in its turn. -/
theorem timerHandlerCalls_three : ∃ (bodies : Nat → CallbackBody) (t : Timer),
    Registry t.context [0, 1, 2] ∧
    timerHandler (runBody bodies) t
      = timerSchedule ((timerHandlerCalls (runBody bodies) t).foldl
          (fun t f => callOne (runBody bodies) f t) (timerCount t)) ∧
    timerHandlerCalls (runBody bodies) t
      = byTurn registeredCallbacks (callOne (runBody bodies)) [0, 1, 2] (timerCount t) ∧
    timerHandlerCalls (runBody bodies) t = [0, 2] := by
  have hthree := registry_two.register 2 (by decide)
  have h := timerHandlerCalls_iff (fun f => ⟨fun _ => if f = 0 then [1] else [],
    fun t => t.context.multitaskingEnabled, fun t => t.context.tasks⟩) (t := timerStart _) hthree
  exact ⟨_, _, hthree, h.1, h.2.mpr (by decide +kernel), by decide +kernel⟩

/-- The first unregisters itself, and the second is not called. -/
theorem timerHandlerCalls_skips : ∃ (bodies : Nat → CallbackBody) (t : Timer),
    Registry t.context [0, 1] ∧ timerHandlerCalls (runBody bodies) t = [0] ∧
    byTurn registeredCallbacks (callOne (runBody bodies)) [0, 1] (timerCount t) = [0, 1] :=
  ⟨fun f => ⟨fun _ => if f = 0 then [0] else [], fun t => t.context.multitaskingEnabled,
    fun t => t.context.tasks⟩, timerStart _, registry_two, by decide +kernel, by decide +kernel⟩

end AceOS.Drivers
