import Mathlib.Tactic.Common

/-!
# Interrupts (`src/kernel/interrupt.asm`, `src/kernel/isr.c`)

The stub of an interrupt saves the general registers in a frame, calls `isr_handler` and
restores the registers from the frame.  The frame is the argument of `isr_handler`, which
is passed by value: a C function works on a copy of its own, and here returns the copy as
it leaves it.  `isr_handler` does not look at the copy of the handler it calls.

Segment registers, flags and the return address are left out, and the stack is not a part
of the memory the handlers see.
-/

namespace AceOS.Kernel

structure Cpu where
  eax : UInt32
  ebx : UInt32
  ecx : UInt32
  edx : UInt32
  esi : UInt32
  edi : UInt32
  ebp : UInt32
  esp : UInt32
  deriving DecidableEq, Repr

structure Registers where
  edi : UInt32
  esi : UInt32
  ebp : UInt32
  esp : UInt32
  ebx : UInt32
  edx : UInt32
  ecx : UInt32
  eax : UInt32
  intNo : UInt32
  errCode : UInt32
  deriving DecidableEq, Repr

section Isr

variable {S : Type}

abbrev Isr (S : Type) := Registers → S → Option (Registers × S)

/-- `interrupt_handlers`; `none` is `NULL`. -/
abbrev InterruptHandlers (S : Type) := Nat → Option (Isr S)

def registerInterruptHandler (n : Nat) (handler : Isr S) (handlers : InterruptHandlers S) :
    InterruptHandlers S := Function.update handlers n (some handler)

def picEoi (intNo : UInt32) : List (UInt16 × UInt8) :=
  if 32 ≤ intNo ∧ intNo < 48 then (if 40 ≤ intNo then [(0xA0, 0x20)] else []) ++ [(0x20, 0x20)]
  else []

/-- `isr_handler`: its copy of the registers, the state, and what it writes to ports. -/
def isrHandler (handlers : InterruptHandlers S) (regs : Registers) (st : S) :
    Option (Registers × S × List (UInt16 × UInt8)) :=
  match handlers regs.intNo.toNat with
  | some handler => do
      let (_, st) ← handler regs st
      some (regs, st, picEoi regs.intNo)
  | none => some (regs, st, picEoi regs.intNo)

/-- The frame the stub and `pusha` build; three words of the processor and two of the stub are
on the stack by then. -/
def pushFrame (intNo : UInt32) (cpu : Cpu) : Registers where
  edi := cpu.edi
  esi := cpu.esi
  ebp := cpu.ebp
  esp := cpu.esp - 20
  ebx := cpu.ebx
  edx := cpu.edx
  ecx := cpu.ecx
  eax := cpu.eax
  intNo := intNo
  errCode := 0

/-- `popa`, `add esp, 8` and `iret`; `popa` skips `esp`. -/
def popFrame (regs : Registers) (cpu : Cpu) : Cpu where
  eax := regs.eax
  ebx := regs.ebx
  ecx := regs.ecx
  edx := regs.edx
  esi := regs.esi
  edi := regs.edi
  ebp := regs.ebp
  esp := cpu.esp

/-- The stub of an interrupt without an error code, with `isr_common_stub`. -/
def isrStub (handlers : InterruptHandlers S) (intNo : UInt32) (cpu : Cpu) (st : S) :
    Option (Cpu × S × List (UInt16 × UInt8)) := do
  let (frame, st, ports) ← isrHandler handlers (pushFrame intNo cpu) st
  some (popFrame frame cpu, st, ports)

variable {handlers : InterruptHandlers S} {regs : Registers} {intNo : UInt32} {cpu : Cpu} {st : S}

@[simp] theorem registerInterruptHandler_self (n : Nat) (handler : Isr S) :
    registerInterruptHandler n handler handlers n = some handler := Function.update_self ..

/-- **An interrupt gives every general register back**, whatever its handler leaves in the
copy it gets. -/
theorem isrStub_cpu {cpu' : Cpu} {st' : S} {ports : List (UInt16 × UInt8)}
    (h : isrStub handlers intNo cpu st = some (cpu', st', ports)) : cpu' = cpu := by
  rw [isrStub, isrHandler] at h
  split at h
  · simp only [Option.bind_eq_bind, Option.bind_eq_some_iff, Option.some.injEq] at h
    obtain ⟨⟨frame, st₁, ports₁⟩, ⟨r, -, hr⟩, he⟩ := h
    rw [Prod.mk.injEq] at hr he
    rw [← he.1, ← hr.1]
    rfl
  · simp only [Option.bind_eq_bind, Option.bind_some, Option.some.injEq, Prod.mk.injEq] at h
    rw [← h.1]
    rfl

theorem isrStub_eq {handler : Isr S} (h : handlers intNo.toNat = some handler) :
    isrStub handlers intNo cpu st
      = (handler (pushFrame intNo cpu) st).map fun r => (cpu, r.2, picEoi intNo) := by
  have hno : handlers (pushFrame intNo cpu).intNo.toNat = some handler := h
  rw [isrStub, isrHandler, hno]
  dsimp only
  cases hr : handler (pushFrame intNo cpu) st with
  | none => rfl
  | some r => rfl

end Isr

end AceOS.Kernel
