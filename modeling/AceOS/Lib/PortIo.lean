import Mathlib.Data.List.Basic
import Mathlib.Tactic.Common

/-!
# Port input and output

A program that talks to devices through ports sees of them only the values it reads.  `answers`
is what the reads give, one after the other, whatever the devices do to arrive at it; `log`
is every access made, oldest first.

`pollPort` is the busy wait with a bound.  `Emits io io' es` says that `io'` is `io` after the
accesses `es`; a part of a log without `outb` is `Quiet`.
-/

namespace PortIo

inductive PortEvent
  | outb (port : UInt16) (value : UInt8)
  | outw (port : UInt16) (value : UInt16)
  | inb (port : UInt16)
  | inw (port : UInt16)
  deriving DecidableEq

structure Io where
  answers : Nat → UInt16
  reads : Nat
  log : List PortEvent

def outb (port : UInt16) (value : UInt8) (io : Io) : Io :=
  { io with log := io.log ++ [.outb port value] }

def outw (port value : UInt16) (io : Io) : Io := { io with log := io.log ++ [.outw port value] }

def inb (port : UInt16) (io : Io) : UInt8 × Io :=
  ((io.answers io.reads).toUInt8,
    { io with reads := io.reads + 1, log := io.log ++ [.inb port] })

def inw (port : UInt16) (io : Io) : UInt16 × Io :=
  (io.answers io.reads, { io with reads := io.reads + 1, log := io.log ++ [.inw port] })

/-- `while (!done(inb(port)) && --timeout) {}`: whether `done` was seen. -/
def pollPort (port : UInt16) (done : UInt8 → Bool) : (timeout : Nat) → Io → Bool × Io
  | 0, io => (false, io)
  | timeout + 1, io =>
      let (status, io) := inb port io
      if done status then (true, io) else pollPort port done timeout io

/-! ### What is accessed -/

/-- The accesses made from `io` to `io'`. -/
def Emits (io io' : Io) (es : List PortEvent) : Prop := io'.log = io.log ++ es

/-- No byte is written. -/
def Quiet (es : List PortEvent) : Prop := ∀ port value, PortEvent.outb port value ∉ es

section Emits

variable {io io' io'' : Io} {es es' : List PortEvent}

theorem Emits.refl (io : Io) : Emits io io [] := (List.append_nil _).symm

theorem Emits.trans (h : Emits io io' es) (h' : Emits io' io'' es') :
    Emits io io'' (es ++ es') := by
  rw [Emits, h', h, List.append_assoc]

theorem emits_outb (port : UInt16) (value : UInt8) (io : Io) :
    Emits io (outb port value io) [.outb port value] := rfl

theorem emits_outw (port value : UInt16) (io : Io) :
    Emits io (outw port value io) [.outw port value] := rfl

theorem emits_inb (port : UInt16) (io : Io) : Emits io (inb port io).2 [.inb port] := rfl

theorem emits_inw (port : UInt16) (io : Io) : Emits io (inw port io).2 [.inw port] := rfl

theorem quiet_nil : Quiet [] := fun _ _ => List.not_mem_nil

theorem Quiet.append (h : Quiet es) (h' : Quiet es') : Quiet (es ++ es') := by
  intro port value hmem
  exact (List.mem_append.mp hmem).elim (h port value) (h' port value)

theorem quiet_singleton {e : PortEvent} (h : ∀ port value, e ≠ .outb port value) : Quiet [e] := by
  intro port value hmem
  exact h port value (List.mem_singleton.mp hmem).symm

theorem emits_pollPort (port : UInt16) (done : UInt8 → Bool) (timeout : Nat) (io : Io) :
    ∃ n, Emits io (pollPort port done timeout io).2 (List.replicate n (.inb port)) := by
  induction timeout generalizing io with
  | zero => exact ⟨0, Emits.refl io⟩
  | succ timeout ih =>
      rw [pollPort]
      dsimp only
      split
      · exact ⟨1, emits_inb port io⟩
      · obtain ⟨n, hn⟩ := ih (inb port io).2
        exact ⟨n + 1, (emits_inb port io).trans hn⟩

theorem pollPort_first (port : UInt16) {done : UInt8 → Bool} (timeout : Nat)
    (h : done (io.answers io.reads).toUInt8 = true) :
    pollPort port done (timeout + 1) io = (true, (inb port io).2) := by
  rw [pollPort]
  exact if_pos h

theorem quiet_replicate_inb (n : Nat) (port : UInt16) : Quiet (List.replicate n (.inb port)) := by
  intro p value hmem
  exact absurd (List.mem_replicate.mp hmem).2 (by simp)

/-- **A wait ends well** if one of the answers in its time says so. -/
theorem pollPort_iff (port : UInt16) (done : UInt8 → Bool) (timeout : Nat) (io : Io) :
    (pollPort port done timeout io).1 = true ↔
      ∃ i < timeout, done (io.answers (io.reads + i)).toUInt8 = true := by
  induction timeout generalizing io with
  | zero => simp [pollPort]
  | succ timeout ih =>
      rw [pollPort]
      dsimp only
      split
      · rename_i hdone
        exact iff_of_true rfl ⟨0, Nat.succ_pos _, hdone⟩
      · rename_i hdone
        rw [ih]
        constructor
        · rintro ⟨i, hi, h⟩
          refine ⟨i + 1, Nat.succ_lt_succ hi, ?_⟩
          rwa [Nat.add_comm i 1, ← Nat.add_assoc]
        · rintro ⟨i, hi, h⟩
          cases i with
          | zero => exact absurd h hdone
          | succ i =>
              refine ⟨i, Nat.lt_of_succ_lt_succ hi, ?_⟩
              rwa [Nat.add_comm i 1, ← Nat.add_assoc] at h

end Emits

end PortIo
