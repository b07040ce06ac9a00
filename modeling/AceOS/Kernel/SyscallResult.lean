import AceOS.Kernel.Syscall
import AceOS.Drivers.Fs.Run

/-!
# The result of a system call

`syscall_handler` puts the result into `eax` of its copy of the registers, and the stub
restores the registers from another one.  So after `int 0x80` the register `eax` holds the
number of the call again (`int80_cpu`), and that is the result only where the two happen to
be the same (`int80_delivered_iff`).
-/

namespace AceOS.Kernel

open Memory Drivers.Fs

section Result

variable {σ : Type} {A : Allocator σ} {image : FsEntry → List UInt8}
  {handlers : InterruptHandlers (SysState σ)} {cpu cpu' : Cpu} {regs : Registers}
  {st st' : SysState σ} {ports : List (UInt16 × UInt8)} {r : Int32}

/-! ### What an interrupt does -/

/-- The interrupted code finds the result in `eax`, and the other registers as they were. -/
def Delivered (A : Allocator σ) (image : FsEntry → List UInt8) (cpu : Cpu) (st : SysState σ)
    (cpu' : Cpu) : Prop :=
  ∃ result st', syscallDispatch A image (pushFrame 128 cpu) (syscallEnter (pushFrame 128 cpu) st)
      = some (result, st') ∧ cpu' = { cpu with eax := result.toUInt32 }

/-- **A system call gives every register back**, `eax` too. -/
theorem int80_cpu (h : int80 A image handlers cpu st = some (cpu', st', ports)) : cpu' = cpu :=
  isrStub_cpu h

theorem int80_dispatch (h : int80 A image handlers cpu st = some (cpu', st', ports)) :
    ∃ result, syscallDispatch A image (pushFrame 128 cpu) (syscallEnter (pushFrame 128 cpu) st)
      = some (result, st') := by
  have hhandler : syscallInit A image handlers (128 : UInt32).toNat
      = some (syscallHandler A image) :=
    registerInterruptHandler_self ..
  rw [int80, isrStub_eq hhandler, Option.map_eq_some_iff] at h
  obtain ⟨⟨copy, st₁⟩, hcall, he⟩ := h
  rw [syscallHandler, Option.bind_eq_bind, Option.bind_eq_some_iff] at hcall
  obtain ⟨⟨result, st₂⟩, hdispatch, hcopy⟩ := hcall
  simp only [Option.some.injEq, Prod.mk.injEq] at hcopy he
  refine ⟨result, ?_⟩
  rw [hdispatch, hcopy.2, he.2.1]

/-! ### Calls that say 0 or -1 -/

/-- A call that returns 0 or -1. -/
def IsStatus (o : Option (Int32 × SysState σ)) : Prop :=
  ∀ r st', o = some (r, st') → r = 0 ∨ r = -1

theorem isStatus_zero {st : SysState σ} : IsStatus (some (0, st)) := by
  intro r st' h
  rw [Option.some.injEq, Prod.mk.injEq] at h
  exact Or.inl h.1.symm

theorem isStatus_sysFail {errno : UInt32} {st : SysState σ} : IsStatus (sysFail errno st) := by
  intro r st' h
  rw [sysFail, Option.some.injEq, Prod.mk.injEq] at h
  exact Or.inr h.1.symm

theorem IsStatus.bind {α : Type} {o : Option α} {f : α → Option (Int32 × SysState σ)}
    (h : ∀ a, IsStatus (f a)) : IsStatus (o.bind f) := by
  intro r st' he
  obtain ⟨a, -, ha⟩ := Option.bind_eq_some_iff.mp he
  exact h a r st' ha

theorem IsStatus.ite {p : Prop} [Decidable p] {o o' : Option (Int32 × SysState σ)}
    (h : IsStatus o) (h' : IsStatus o') : IsStatus (if p then o else o') := by
  split
  · exact h
  · exact h'

variable (st : SysState σ)

theorem isStatus_kernelRead (fd : Int32) (buffer : UInt32) : IsStatus (kernelRead fd buffer st) :=
  .ite isStatus_sysFail (.ite isStatus_zero isStatus_sysFail)

theorem isStatus_kernelClose (fd : Int32) : IsStatus (kernelClose fd st) :=
  .ite isStatus_sysFail (.ite isStatus_sysFail isStatus_zero)

theorem isStatus_kernelFree (ptr : UInt32) : IsStatus (kernelFree ptr st) :=
  .ite isStatus_sysFail isStatus_zero

theorem isStatus_kernelSleep (seconds : UInt32) : IsStatus (kernelSleep seconds st) :=
  .ite isStatus_zero (.bind fun _ => .bind fun _ => isStatus_zero)

theorem isStatus_kernelChdir (path : UInt32) : IsStatus (kernelChdir path st) :=
  .ite isStatus_sysFail
    (.bind fun _ => .bind fun _ => .ite isStatus_sysFail isStatus_zero)

theorem isStatus_kernelGetcwd (buffer size : UInt32) : IsStatus (kernelGetcwd buffer size st) :=
  .ite isStatus_sysFail (.ite isStatus_sysFail isStatus_zero)

theorem isStatus_kernelMkdir (pathname : UInt32) : IsStatus (kernelMkdir pathname st) :=
  .ite isStatus_sysFail
    (.bind fun _ => .bind fun _ => .ite isStatus_sysFail isStatus_zero)

theorem isStatus_kernelDelete (pathname : UInt32) : IsStatus (kernelDelete A pathname st) :=
  .ite isStatus_sysFail
    (.bind fun _ => .bind fun _ => .ite isStatus_sysFail isStatus_zero)

theorem isStatus_kernelStat (pathname statbuf : UInt32) :
    IsStatus (kernelStat image pathname statbuf st) := by
  refine .ite isStatus_sysFail (.bind fun _ => .bind fun r => ?_)
  split
  · exact isStatus_zero
  · exact isStatus_sysFail

/-- The result of such a call is no number but 0 or `0xFFFFFFFF`. -/
theorem IsStatus.ne_number {o : Option (Int32 × SysState σ)} (h : IsStatus o)
    (ho : o = some (r, st')) {n : UInt32} (h0 : n ≠ 0) (hmax : n ≠ 0xFFFFFFFF) :
    r.toUInt32 ≠ n := by
  rcases h r st' ho with rfl | rfl
  · exact Ne.symm h0
  · exact Ne.symm hmax

/-! ### The other calls -/

/-- A loop over the string at `str` with `n` bytes to go takes `k` of them. -/
def TakesBytes (m : Mem) (str n k : Nat) : Prop :=
  k ≤ n ∧ (∀ j < k, m (add32 str j) ≠ 0) ∧ (k = n ∨ m (add32 str k) = 0)

theorem kernelWriteLoop_length (m : Mem) (str n i : Nat) :
    ∀ k, (kernelWriteLoop m str n i).length = k ↔
      k ≤ n ∧ (∀ j < k, m (add32 str (i + j)) ≠ 0) ∧ (k = n ∨ m (add32 str (i + k)) = 0) := by
  induction n generalizing i with
  | zero =>
      intro k
      rw [kernelWriteLoop, List.length_nil]
      constructor
      · rintro rfl
        exact ⟨Nat.le_refl 0, by simp, Or.inl rfl⟩
      · intro h
        exact (Nat.le_zero.mp h.1).symm
  | succ n ih =>
      intro k
      rw [kernelWriteLoop]
      by_cases hz : m (add32 str i) = 0
      · rw [if_pos hz, List.length_nil]
        constructor
        · rintro rfl
          exact ⟨Nat.zero_le _, by simp, Or.inr hz⟩
        · intro h
          by_contra hk
          exact h.2.1 0 (Nat.pos_of_ne_zero (Ne.symm hk)) hz
      · rw [if_neg hz, List.length_cons]
        cases k with
        | zero =>
            constructor
            · intro h
              exact absurd h (Nat.succ_ne_zero _)
            · intro h
              rcases h.2.2 with h | h
              · exact absurd h.symm (Nat.succ_ne_zero n)
              · exact absurd h hz
        | succ k =>
            rw [Nat.succ_inj, ih (i + 1) k]
            have hshift : ∀ j, i + 1 + j = i + (j + 1) := by
              intro j
              omega
            simp only [hshift]
            constructor
            · rintro ⟨hk, hj, hend⟩
              refine ⟨Nat.succ_le_succ hk, ?_, ?_⟩
              · intro j hjk
                cases j with
                | zero => exact hz
                | succ j => exact hj j (Nat.lt_of_succ_lt_succ hjk)
              · rcases hend with rfl | hend
                · exact Or.inl rfl
                · exact Or.inr hend
            · rintro ⟨hk, hj, hend⟩
              refine ⟨Nat.le_of_succ_le_succ hk, ?_, ?_⟩
              · intro j hjk
                exact hj (j + 1) (Nat.succ_lt_succ hjk)
              · rcases hend with hend | hend
                · exact Or.inl (Nat.succ_inj.mp hend)
                · exact Or.inr hend

theorem kernelWriteLoop_length_iff (m : Mem) (str n k : Nat) :
    (kernelWriteLoop m str n 0).length = k ↔ TakesBytes m str n k := by
  have h := kernelWriteLoop_length m str n 0 k
  simp only [Nat.zero_add] at h
  exact h

theorem toUInt32_ofNat_eq {a k : Nat} (ha : a < 4294967296) (hk : k < 4294967296) :
    (UInt32.ofNat a).toInt32.toUInt32 = UInt32.ofNat k ↔ a = k := by
  rw [UInt32.toUInt32_toInt32, ← UInt32.toNat_inj, UInt32.toNat_ofNat_of_lt' ha,
    UInt32.toNat_ofNat_of_lt' hk]

theorem toInt32_inj {a : UInt32} (b : UInt32) : a.toInt32 = b.toInt32 ↔ a = b := by
  constructor
  · intro h
    rw [← UInt32.toUInt32_toInt32 a, h, UInt32.toUInt32_toInt32]
  · intro h
    rw [h]

theorem kernelWrite_eq_two {fd : Int32} {buffer count : UInt32}
    (h : kernelWrite fd buffer count st = some (r, st')) : r.toUInt32 = 2 ↔
      buffer ≠ 0 ∧ (fd = 1 ∨ fd = 2) ∧ TakesBytes st.mem buffer.toNat count.toNat 2 := by
  rw [kernelWrite] at h
  split at h
  · rename_i hb
    have hr := isStatus_sysFail.ne_number h (n := 2) (by decide) (by decide)
    exact ⟨fun he => absurd he hr, fun he => absurd hb he.1⟩
  · rename_i hb
    split at h
    · rename_i hfd
      rw [Option.some.injEq, Prod.mk.injEq] at h
      have hle := ((kernelWriteLoop_length_iff st.mem buffer.toNat count.toNat _).mp rfl).1
      have hlt := Nat.lt_of_le_of_lt hle count.toNat_lt
      rw [← h.1, show (2 : UInt32) = UInt32.ofNat 2 from rfl, toUInt32_ofNat_eq hlt (by decide),
        kernelWriteLoop_length_iff]
      exact ⟨fun ht => ⟨hb, hfd, ht⟩, fun ht => ht.2.2⟩
    · rename_i hfd
      have hr := isStatus_sysFail.ne_number h (n := 2) (by decide) (by decide)
      exact ⟨fun he => absurd he hr, fun he => absurd he.2.1 hfd⟩

theorem kernelOpen_eq_three {pathname : UInt32} (h : kernelOpen pathname st = some (r, st')) :
    r.toUInt32 = 3 ↔ pathname ≠ 0 ∧ ∃ path i, userString st.mem pathname = some path ∧
      fsFind st.files.fs path = some i ∧ 0 ≤ i := by
  rw [kernelOpen] at h
  split at h
  · rename_i hp
    have hr := isStatus_sysFail.ne_number h (n := 3) (by decide) (by decide)
    exact ⟨fun he => absurd he hr, fun he => absurd hp he.1⟩
  · rename_i hp
    simp only [Option.bind_eq_bind, Option.bind_eq_some_iff] at h
    obtain ⟨path, hpath, i, hi, h⟩ := h
    split at h
    · rename_i hle
      rw [Option.some.injEq, Prod.mk.injEq] at h
      rw [← h.1]
      exact ⟨fun _ => ⟨hp, path, i, hpath, hi, hle⟩, fun _ => rfl⟩
    · rename_i hlt
      have hr := isStatus_sysFail.ne_number h (n := 3) (by decide) (by decide)
      refine ⟨fun he => absurd he hr, ?_⟩
      rintro ⟨-, path', i', hpath', hi', hle⟩
      rw [hpath, Option.some.injEq] at hpath'
      rw [← hpath', hi, Option.some.injEq] at hi'
      exact absurd (hi' ▸ hle) hlt

/-- A pointer from `heap_malloc` is 0, or lies behind the header `find_best_fit` picks. -/
theorem heapMalloc_ptr {size ptr : Nat} {h h' : HeapState}
    (hm : heapMalloc size h = some (ptr, h')) :
    ptr < 4294967296 ∧ (ptr = 5 ↔ size ≠ 0 ∧ h.initialized = true ∧
      ∃ block, findBestFit (roundSize size) h = some block ∧ add32 block heapBlockSize = 5) := by
  have hzero : ∀ {q : Prop}, (0 : Nat) = ptr → ¬q → (ptr = 5 ↔ q) := by
    intro q h₀ hq
    rw [← h₀]
    exact ⟨fun h5 => absurd h5 (by decide), fun h => absurd h hq⟩
  rw [heapMalloc] at hm
  split at hm
  · rename_i hinit
    rw [Option.some.injEq, Prod.mk.injEq] at hm
    refine ⟨hm.1 ▸ by decide, hzero hm.1 ?_⟩
    intro h
    rw [h.2.1] at hinit
    cases hinit
  · rename_i hinit
    have hinit' : h.initialized = true := by
      rwa [Bool.not_eq_true', Bool.not_eq_false] at hinit
    split at hm
    · rename_i hsize
      rw [Option.some.injEq, Prod.mk.injEq] at hm
      exact ⟨hm.1 ▸ by decide, hzero hm.1 fun h => h.1 hsize⟩
    · rename_i hsize
      split at hm
      · cases hm
      · rename_i block hblock
        split at hm
        · rename_i hb
          rw [Option.some.injEq, Prod.mk.injEq] at hm
          refine ⟨hm.1 ▸ by decide, hzero hm.1 ?_⟩
          rintro ⟨-, -, block', hblock', h5⟩
          rw [hblock, Option.some.injEq] at hblock'
          rw [← hblock', hb, add32_of_lt (by decide)] at h5
          exact absurd h5 (by decide)
        · rw [Option.some.injEq, Prod.mk.injEq] at hm
          refine ⟨hm.1 ▸ add32_lt _ _, ?_⟩
          constructor
          · intro h5
            exact ⟨hsize, hinit', block, hblock, hm.1.trans h5⟩
          · rintro ⟨-, -, block', hblock', h5⟩
            rw [hblock, Option.some.injEq] at hblock'
            rw [← hm.1, hblock', h5]

theorem kernelMalloc_eq_five {size ptr : UInt32} (h : kernelMalloc size st = some (ptr, st')) :
    ptr = 5 ↔ size ≠ 0 ∧ st.heapInitialized = true ∧
      ∃ block, findBestFit (roundSize size.toNat) st.heapState = some block ∧
        add32 block heapBlockSize = 5 := by
  rw [kernelMalloc] at h
  split at h
  · rename_i hsize
    rw [Option.some.injEq, Prod.mk.injEq] at h
    rw [← h.1]
    exact ⟨fun h5 => absurd h5 (by decide), fun h => absurd hsize h.1⟩
  · rename_i hsize
    simp only [Option.bind_eq_bind, Option.bind_eq_some_iff, Option.some.injEq, Prod.mk.injEq] at h
    obtain ⟨⟨p, h'⟩, hm, hp, -⟩ := h
    obtain ⟨hlt, h5⟩ := heapMalloc_ptr hm
    have hsize' : size.toNat ≠ 0 ↔ size ≠ 0 := by
      rw [ne_eq, ne_eq, ← UInt32.toNat_inj]
      rfl
    rw [← hp, ← UInt32.toNat_inj, UInt32.toNat_ofNat_of_lt' hlt,
      show (5 : UInt32).toNat = 5 from rfl, h5, hsize']
    rfl

theorem kernelTime_eq_nineteen {t : UInt32} (h : kernelTime st = some (t, st')) :
    t = 19 ↔ ∃ now ticks, st.ticks = now :: ticks ∧ 19000 ≤ now ∧ now < 20000 := by
  rw [kernelTime, timerGetTicks] at h
  cases hticks : st.ticks with
  | nil =>
      rw [hticks] at h
      cases h
  | cons now ticks =>
      rw [hticks] at h
      simp only [Option.bind_eq_bind, Option.bind_some, Option.some.injEq, Prod.mk.injEq] at h
      have hnow : t = 19 ↔ 19000 ≤ now ∧ now < 20000 := by
        have h₁ : (19 : UInt32).toNat = 19 := rfl
        have h₂ : (1000 : UInt32).toNat = 1000 := rfl
        have h₃ : (19000 : UInt32).toNat = 19000 := rfl
        have h₄ : (20000 : UInt32).toNat = 20000 := rfl
        rw [← h.1, ← UInt32.toNat_inj, UInt32.toNat_div, UInt32.le_iff_toNat_le,
          UInt32.lt_iff_toNat_lt, h₁, h₂, h₃, h₄]
        omega
      rw [hnow]
      constructor
      · intro hn
        exact ⟨now, ticks, rfl, hn⟩
      · rintro ⟨now', ticks', he, hn⟩
        rw [List.cons.injEq] at he
        rwa [he.1]

/-! ### Every call -/

/-- The calls whose result is their own number. -/
def ResultIsNumber (cpu : Cpu) (st : SysState σ) : Prop :=
  match cpu.eax.toNat with
  -- `exit(0)`
  | 0 => cpu.ebx = 0
  -- a `write` of two bytes
  | 2 => cpu.ecx ≠ 0 ∧ (cpu.ebx = 1 ∨ cpu.ebx = 2) ∧
      TakesBytes st.mem cpu.ecx.toNat cpu.edx.toNat 2
  -- an `open` of a path that exists: every descriptor is 3
  | 3 => cpu.ebx ≠ 0 ∧ ∃ path i, userString st.mem cpu.ebx = some path ∧
      fsFind st.files.fs path = some i ∧ 0 ≤ i
  -- a `malloc` whose block header lies over the end of the address space
  | 5 => cpu.ebx ≠ 0 ∧ st.heapInitialized = true ∧
      ∃ block, findBestFit (roundSize cpu.ebx.toNat) st.heapState = some block ∧
        add32 block heapBlockSize = 5
  -- `time` in the twentieth second
  | 19 => ∃ now ticks, st.ticks = now :: ticks ∧ 19000 ≤ now ∧ now < 20000
  -- the number that is `-1`
  | 4294967295 => True
  | _ => False

theorem syscallDispatch_eq_number
    (h : syscallDispatch A image (pushFrame 128 cpu) (syscallEnter (pushFrame 128 cpu) st)
      = some (r, st')) : r.toUInt32 = cpu.eax ↔ ResultIsNumber cpu st := by
  -- a call that says 0 or -1, under a number that is neither
  have hstatus : ∀ (n : Nat) {o : Option (Int32 × SysState σ)}, cpu.eax.toNat = n → IsStatus o →
      o = some (r, st') → n ≠ 0 → n ≠ 4294967295 → ¬r.toUInt32 = cpu.eax := by
    intro n o hn hs ho h0 hmax
    refine hs.ne_number ho ?_ ?_
    · intro he
      rw [he] at hn
      exact h0 hn.symm
    · intro he
      rw [he] at hn
      exact hmax hn.symm
  have hnum : ∀ k : UInt32, cpu.eax.toNat = k.toNat → cpu.eax = k :=
    fun k hk => UInt32.toNat_inj.mp hk
  rw [syscallDispatch] at h
  simp only [pushFrame] at h
  rw [ResultIsNumber]
  split at h
  case h_1 hn =>
      rw [kernelExit, Option.some.injEq, Prod.mk.injEq] at h
      rw [hn, ← h.1, UInt32.toUInt32_toInt32, hnum 0 hn]
      exact Iff.rfl
  case h_2 hn =>
      rw [hn]
      exact iff_of_false (hstatus 1 hn (isStatus_kernelRead _ _ _) h (by decide) (by decide)) id
  case h_3 hn =>
      have h₁ : cpu.ebx.toInt32 = 1 ↔ cpu.ebx = 1 := toInt32_inj 1
      have h₂ : cpu.ebx.toInt32 = 2 ↔ cpu.ebx = 2 := toInt32_inj 2
      rw [hn, hnum 2 hn, kernelWrite_eq_two _ h, h₁, h₂]
      exact Iff.rfl
  case h_4 hn =>
      rw [hn, hnum 3 hn, kernelOpen_eq_three _ h]
      exact Iff.rfl
  case h_5 hn =>
      rw [hn]
      exact iff_of_false (hstatus 4 hn (isStatus_kernelClose _ _) h (by decide) (by decide)) id
  case h_6 hn =>
      obtain ⟨⟨ptr, st₁⟩, hm, he⟩ := Option.map_eq_some_iff.mp h
      rw [Prod.mk.injEq] at he
      rw [hn, hnum 5 hn, ← he.1, UInt32.toUInt32_toInt32, kernelMalloc_eq_five _ hm]
      exact Iff.rfl
  case h_7 hn =>
      rw [hn]
      exact iff_of_false (hstatus 6 hn (isStatus_kernelFree _ _) h (by decide) (by decide)) id
  case h_8 hn =>
      rw [kernelGetpid, Option.some.injEq, Prod.mk.injEq] at h
      rw [hn, hnum 7 hn, ← h.1]
      exact iff_of_false (by decide) id
  case h_9 hn =>
      rw [hn]
      exact iff_of_false (hstatus 8 hn (isStatus_kernelSleep _ _) h (by decide) (by decide)) id
  case h_10 hn =>
      rw [hn]
      exact iff_of_false (hstatus 13 hn (isStatus_kernelChdir _ _) h (by decide) (by decide)) id
  case h_11 hn =>
      rw [hn]
      exact iff_of_false (hstatus 14 hn (isStatus_kernelGetcwd _ _ _) h (by decide) (by decide)) id
  case h_12 hn =>
      rw [hn]
      exact iff_of_false (hstatus 15 hn (isStatus_kernelMkdir _ _) h (by decide) (by decide)) id
  case h_13 hn =>
      rw [hn]
      exact iff_of_false (hstatus 16 hn (isStatus_kernelDelete _ _) h (by decide) (by decide)) id
  case h_14 hn =>
      rw [hn]
      exact iff_of_false (hstatus 17 hn (isStatus_kernelDelete _ _) h (by decide) (by decide)) id
  case h_15 hn =>
      rw [hn]
      exact iff_of_false (hstatus 18 hn (isStatus_kernelStat _ _ _) h (by decide) (by decide)) id
  case h_16 hn =>
      obtain ⟨⟨t, st₁⟩, ht, he⟩ := Option.map_eq_some_iff.mp h
      rw [Prod.mk.injEq] at he
      rw [hn, hnum 19 hn, ← he.1, UInt32.toUInt32_toInt32, kernelTime_eq_nineteen _ ht]
      exact Iff.rfl
  case h_17 h0 _ h2 h3 _ h5 _ _ _ _ _ _ _ _ _ h19 =>
      by_cases hmax : cpu.eax.toNat = 4294967295
      · rw [sysFail, Option.some.injEq, Prod.mk.injEq] at h
        rw [hmax, hnum 0xFFFFFFFF hmax, ← h.1]
        exact iff_of_true rfl trivial
      · have hne := hstatus _ rfl isStatus_sysFail h h0 hmax
        split
        case h_1 hn => exact absurd hn h0
        case h_2 hn => exact absurd hn h2
        case h_3 hn => exact absurd hn h3
        case h_4 hn => exact absurd hn h5
        case h_5 hn => exact absurd hn h19
        case h_6 hn => exact absurd hn hmax
        case h_7 => exact iff_of_false hne id

end Result

/-- **The result of a system call is delivered** if and only if it is the number of the call. -/
theorem int80_delivered_iff {σ : Type} (A : Allocator σ) (image : FsEntry → List UInt8)
    (handlers : InterruptHandlers (SysState σ)) (cpu cpu' : Cpu) (st st' : SysState σ)
    (ports : List (UInt16 × UInt8)) (h : int80 A image handlers cpu st = some (cpu', st', ports)) :
    Delivered A image cpu st cpu' ↔ ResultIsNumber cpu st := by
  obtain ⟨result, hdispatch⟩ := int80_dispatch h
  rw [← syscallDispatch_eq_number st hdispatch, int80_cpu h, Delivered]
  constructor
  · rintro ⟨result', st₁, hdispatch', he⟩
    rw [hdispatch, Option.some.injEq, Prod.mk.injEq] at hdispatch'
    rw [hdispatch'.1]
    exact (congrArg Cpu.eax he).symm
  · intro he
    refine ⟨result, st', hdispatch, ?_⟩
    rw [he]

/-- A machine after `fs_init`, with no kernel heap yet. -/
def sysBlank : SysState Unit where
  files := fsInitState () ⟨fun _ => 0⟩
  mgr := ⟨0, 0, 0, 0, 0, 0, 0⟩
  heapInitialized := false
  ticks := []
  errno := 0
  syscallCount := fun _ => 0
  totalSyscalls := 0
  serial := []

def callCpu (number : UInt32) : Cpu := ⟨number, 0, 0, 0, 0, 0, 0, 0x9FC00⟩

/-- The text `hi!` at `0x9F000`. -/
def sysText : SysState Unit where
  __ := sysBlank
  files := fsInitState () ⟨fun a => ([104, 105, 33] : List UInt8).getD (a - 0x9F000) 0⟩

/-- `write(1, 0x9F000, count)`. -/
def writeCpu (count : UInt32) : Cpu := ⟨2, 1, 0x9F000, count, 0, 0, 0, 0x9FC00⟩

/-- Two bytes are written, and then three: only the first caller finds the count. -/
theorem int80_delivered_iff_write : ∃ st₁ ports₁ st₂ ports₂,
    int80 noMemory (fun _ => []) (fun _ => none) (writeCpu 2) sysText
      = some (writeCpu 2, st₁, ports₁) ∧ st₁.serial = [104, 105] ∧
    Delivered noMemory (fun _ => []) (writeCpu 2) sysText (writeCpu 2) ∧
    int80 noMemory (fun _ => []) (fun _ => none) (writeCpu 3) st₁
      = some (writeCpu 3, st₂, ports₂) ∧ st₂.serial = [104, 105, 104, 105, 33] ∧
    ¬Delivered noMemory (fun _ => []) (writeCpu 3) st₁ (writeCpu 3) := by
  refine ⟨_, [], _, [], rfl, by decide +kernel, ?_, rfl, by decide +kernel, ?_⟩
  · refine (int80_delivered_iff noMemory (fun _ => []) (fun _ => none) _ _ _ _ _ rfl).mpr ?_
    exact ⟨by decide, Or.inl rfl, by decide, by decide +kernel, Or.inl rfl⟩
  · refine (int80_delivered_iff noMemory (fun _ => []) (fun _ => none) _ _ _ _ _ rfl).not.mpr ?_
    rintro ⟨-, -, -, -, hcount | hend⟩
    · exact absurd hcount (by decide)
    · exact absurd hend (by decide +kernel)

/-- `sys_getpid` finds 7 in `eax`; `kernel_getpid` says 1. -/
theorem int80_getpid : ∃ cpu' st' ports,
    int80 noMemory (fun _ => []) (fun _ => none) (callCpu 7) sysBlank = some (cpu', st', ports) ∧
      cpu'.eax = 7 ∧ (kernelGetpid sysBlank).map (·.1) = some 1 ∧
      ¬Delivered noMemory (fun _ => []) (callCpu 7) sysBlank cpu' := by
  refine ⟨callCpu 7, syscallEnter (pushFrame 128 (callCpu 7)) sysBlank, [], rfl, rfl, rfl, ?_⟩
  rintro ⟨result, st', hdispatch, he⟩
  have hresult : (1 : Int32) = result := congrArg Prod.fst (Option.some.inj hdispatch)
  have heax := congrArg Cpu.eax he
  rw [← hresult] at heax
  exact absurd heax (by decide)

end AceOS.Kernel
