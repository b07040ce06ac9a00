import AceOS.Drivers.Fs.Model
import AceOS.Kernel.Heap
import AceOS.Kernel.Isr

/-!
# System calls (`src/kernel/syscall.c`)

`syscall_handler` is the handler of interrupt 128.  The file system with its allocator and
the kernel heap share one memory; strings and buffers are read and written there.  The
values `timer_get_ticks` returns from now on are a list in the state, and a call that waits
for more of them has not returned.

The debug output is left out, but for the bytes `kernel_write` sends.
-/

namespace AceOS.Kernel

open Memory Drivers.Fs

/-! ### The state -/

/-- What the calls work on. -/
structure SysState (σ : Type) where
  files : FsState σ
  mgr : HeapManager
  heapInitialized : Bool
  /-- The readings of `timer_ticks` to come. -/
  ticks : List UInt32
  /-- `current_errno`. -/
  errno : UInt32
  syscallCount : UInt32 → UInt32
  totalSyscalls : UInt32
  /-- What is sent to the serial port. -/
  serial : List UInt8

namespace SysState

variable {σ : Type} (st : SysState σ)

def mem : Mem := st.files.mem

def heapState : HeapState := ⟨st.files.mem, st.mgr, st.heapInitialized⟩

def withMem (m : Mem) : SysState σ := { st with files := { st.files with mem := m } }

def withHeap (h : HeapState) : SysState σ :=
  { st with files := { st.files with mem := h.mem }, mgr := h.mgr,
            heapInitialized := h.initialized }

def withErrno (errno : UInt32) : SysState σ := { st with errno := errno }

end SysState

abbrev ENOENT : UInt32 := 2
abbrev EBADF : UInt32 := 9
abbrev EAGAIN : UInt32 := 11
abbrev ENOMEM : UInt32 := 12
abbrev EFAULT : UInt32 := 14
abbrev EEXIST : UInt32 := 17
abbrev EINVAL : UInt32 := 22
abbrev ERANGE : UInt32 := 34

/-- The string at an address, among the next `n` bytes; the addresses wrap. -/
def stringAt (m : Mem) : (n addr : Nat) → Option (List UInt8)
  | 0, _ => none
  | n + 1, addr =>
      if m addr = 0 then some [] else (stringAt m n (add32 addr 1)).map (m addr :: ·)

/-- The string a pointer points to.  There are `2 ^ 32` addresses; a string that has not
ended after as many bytes never does. -/
def userString (m : Mem) (ptr : UInt32) : Option (List UInt8) := stringAt m walkFuel ptr.toNat

section Calls

variable {σ : Type}

/-- `current_errno = errno; return -1;` -/
def sysFail (errno : UInt32) (st : SysState σ) : Option (Int32 × SysState σ) :=
  some (-1, st.withErrno errno)

/-! ### Implementations -/

def kernelExit (status : Int32) (st : SysState σ) : Option (Int32 × SysState σ) :=
  some (status, st)

def kernelRead (fd : Int32) (buffer : UInt32) (st : SysState σ) : Option (Int32 × SysState σ) :=
  if buffer = 0 then sysFail EFAULT st
  else if fd = 0 then some (0, st.withErrno EAGAIN)
  else sysFail EBADF st

/-- The bytes of the loop in `kernel_write`, from `str[i]` on with `n` more to go. -/
def kernelWriteLoop (m : Mem) (str : Nat) : (n i : Nat) → List UInt8
  | 0, _ => []
  | n + 1, i =>
      if m (add32 str i) = 0 then [] else m (add32 str i) :: kernelWriteLoop m str n (i + 1)

def kernelWrite (fd : Int32) (buffer count : UInt32) (st : SysState σ) :
    Option (Int32 × SysState σ) :=
  if buffer = 0 then sysFail EFAULT st
  else if fd = 1 ∨ fd = 2 then
    let written := kernelWriteLoop st.mem buffer.toNat count.toNat 0
    some ((UInt32.ofNat written.length).toInt32, { st with serial := st.serial ++ written })
  else sysFail EBADF st

def kernelOpen (pathname : UInt32) (st : SysState σ) : Option (Int32 × SysState σ) :=
  if pathname = 0 then sysFail EFAULT st
  else do
    let path ← userString st.mem pathname
    let found ← fsFind st.files.fs path
    if 0 ≤ found then some (3, st) else sysFail ENOENT st

def kernelClose (fd : Int32) (st : SysState σ) : Option (Int32 × SysState σ) :=
  if fd < 0 then sysFail EBADF st
  else if fd ≤ 2 then sysFail EBADF st
  else some (0, st)

/-- `kernel_malloc`; a pointer. -/
def kernelMalloc (size : UInt32) (st : SysState σ) : Option (UInt32 × SysState σ) :=
  if size = 0 then some (0, st.withErrno EINVAL)
  else do
    let (ptr, h) ← heapMalloc size.toNat st.heapState
    let st := st.withHeap h
    some (UInt32.ofNat ptr, if ptr = 0 then st.withErrno ENOMEM else st)

def kernelFree (ptr : UInt32) (st : SysState σ) : Option (Int32 × SysState σ) :=
  if ptr = 0 then sysFail EINVAL st
  else some (0, st.withHeap (heapFree ptr.toNat st.heapState))

def kernelGetpid (st : SysState σ) : Option (Int32 × SysState σ) := some (1, st)

def timerGetTicks (st : SysState σ) : Option (UInt32 × SysState σ) :=
  match st.ticks with
  | [] => none
  | t :: ticks => some (t, { st with ticks := ticks })

/-- `while (timer_get_ticks() < target_time)`: the readings after the loop. -/
def sleepLoop (targetTime : UInt32) : List UInt32 → Option (List UInt32)
  | [] => none
  | t :: ticks => if t < targetTime then sleepLoop targetTime ticks else some ticks

def kernelSleep (seconds : UInt32) (st : SysState σ) : Option (Int32 × SysState σ) :=
  if seconds = 0 then some (0, st)
  else do
    let (startTime, st) ← timerGetTicks st
    let ticks ← sleepLoop (startTime + seconds * 1000) st.ticks
    some (0, { st with ticks := ticks })

def kernelChdir (path : UInt32) (st : SysState σ) : Option (Int32 × SysState σ) :=
  if path = 0 then sysFail EFAULT st
  else do
    let p ← userString st.mem path
    let (result, files) ← fsChangeDir p st.files
    let st := { st with files := files }
    if result ≠ 0 then sysFail ENOENT st else some (0, st)

def kernelGetcwd (buffer size : UInt32) (st : SysState σ) : Option (Int32 × SysState σ) :=
  if buffer = 0 ∨ size = 0 then sysFail EFAULT st
  else
    let currentDir := st.files.currentDirectory
    if size.toNat ≤ currentDir.length then sysFail ERANGE st
    else
      let m := storeBytes st.mem buffer.toNat (strncpy currentDir size.toNat)
      some (0, st.withMem (store8 m (add32 buffer.toNat (sub32 size.toNat 1)) 0))

def kernelMkdir (pathname : UInt32) (st : SysState σ) : Option (Int32 × SysState σ) :=
  if pathname = 0 then sysFail EFAULT st
  else do
    let path ← userString st.mem pathname
    let (result, fs) ← fsMkdir path st.files.fs
    let st := { st with files := { st.files with fs := fs } }
    if result ≠ 0 then sysFail EEXIST st else some (0, st)

/-- `kernel_rmdir` and `kernel_unlink`: one body under two names. -/
def kernelDelete (A : Allocator σ) (pathname : UInt32) (st : SysState σ) :
    Option (Int32 × SysState σ) :=
  if pathname = 0 then sysFail EFAULT st
  else do
    let path ← userString st.mem pathname
    let (result, files) ← fsDelete A path st.files
    let st := { st with files := files }
    if result ≠ 0 then sysFail ENOENT st else some (0, st)

def kernelRmdir (A : Allocator σ) (pathname : UInt32) (st : SysState σ) :
    Option (Int32 × SysState σ) := kernelDelete A pathname st

def kernelUnlink (A : Allocator σ) (pathname : UInt32) (st : SysState σ) :
    Option (Int32 × SysState σ) := kernelDelete A pathname st

/-- `kernel_stat`; `image` gives the bytes of an entry. -/
def kernelStat (image : FsEntry → List UInt8) (pathname statbuf : UInt32) (st : SysState σ) :
    Option (Int32 × SysState σ) :=
  if pathname = 0 ∨ statbuf = 0 then sysFail EFAULT st
  else do
    let path ← userString st.mem pathname
    match ← fsStat path st.files.fs with
    | (0, some info) => some (0, st.withMem (storeBytes st.mem statbuf.toNat (image info)))
    | _ => sysFail ENOENT st

def kernelTime (st : SysState σ) : Option (UInt32 × SysState σ) := do
  let (ticks, st) ← timerGetTicks st
  some (ticks / 1000, st)

/-! ### The dispatcher -/

/-- The `switch` of `syscall_handler`. -/
def syscallDispatch (A : Allocator σ) (image : FsEntry → List UInt8) (regs : Registers)
    (st : SysState σ) : Option (Int32 × SysState σ) :=
  let arg1 := regs.ebx
  let arg2 := regs.ecx
  let arg3 := regs.edx
  match regs.eax.toNat with
  | 0 => kernelExit arg1.toInt32 st
  | 1 => kernelRead arg1.toInt32 arg2 st
  | 2 => kernelWrite arg1.toInt32 arg2 arg3 st
  | 3 => kernelOpen arg1 st
  | 4 => kernelClose arg1.toInt32 st
  | 5 => (kernelMalloc arg1 st).map fun r => (r.1.toInt32, r.2)
  | 6 => kernelFree arg1 st
  | 7 => kernelGetpid st
  | 8 => kernelSleep arg1 st
  | 13 => kernelChdir arg1 st
  | 14 => kernelGetcwd arg1 arg2 st
  | 15 => kernelMkdir arg1 st
  | 16 => kernelRmdir A arg1 st
  | 17 => kernelUnlink A arg1 st
  | 18 => kernelStat image arg1 arg2 st
  | 19 => (kernelTime st).map fun r => (r.1.toInt32, r.2)
  | _ => sysFail EINVAL st

/-- The statistics and `current_errno = 0`. -/
def syscallEnter (regs : Registers) (st : SysState σ) : SysState σ :=
  { st with
    totalSyscalls := st.totalSyscalls + 1
    syscallCount := if regs.eax < 30 then
        Function.update st.syscallCount regs.eax (st.syscallCount regs.eax + 1)
      else st.syscallCount
    errno := 0 }

def syscallHandler (A : Allocator σ) (image : FsEntry → List UInt8) : Isr (SysState σ) :=
  fun regs st => do
    let (result, st) ← syscallDispatch A image regs (syscallEnter regs st)
    some ({ regs with eax := result.toUInt32 }, st)

/-- `syscall_init`: the handlers it leaves. -/
def syscallInit (A : Allocator σ) (image : FsEntry → List UInt8)
    (handlers : InterruptHandlers (SysState σ)) : InterruptHandlers (SysState σ) :=
  registerInterruptHandler 128 (syscallHandler A image) handlers

/-- `int 0x80`. -/
def int80 (A : Allocator σ) (image : FsEntry → List UInt8)
    (handlers : InterruptHandlers (SysState σ)) (cpu : Cpu) (st : SysState σ) :
    Option (Cpu × SysState σ × List (UInt16 × UInt8)) :=
  isrStub (syscallInit A image handlers) 128 cpu st

end Calls

end AceOS.Kernel
