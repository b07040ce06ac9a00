import AceOS.Kernel.Backspace
import AceOS.Drivers.Keyboard

/-!
# The main loop (`kernel_main` in `src/kernel/kernel.c`) and the keyboard interrupt

The loop takes characters off the keyboard buffer while `keyboard_handler` puts them there.
Nothing masks the interrupt, so it may come between any two of the loop's accesses to the
buffer: `LoopPc` is the place before each of them, and an event is an interrupt or one step
of the loop.

`shell_handle_input` shares nothing with the handler, so it is one step.  `hlt` ends with any
interrupt, the timer's among them.
-/

namespace AceOS.Kernel

open Machine RingBuffer Drivers Drivers.InputBuffer Drivers.Fs

/-! ### The code -/

section Buffer

variable {size : UInt32}

/-- `char c = keyboard_buffer[buffer_tail];` -/
def bufferRead (b : InputBuffer size) : Option UInt8 :=
  if h : b.bufferTail.toNat < size.toNat then some b.buffer[b.bufferTail.toNat] else none

/-- `buffer_tail = (buffer_tail + 1) % KEYBOARD_BUFFER_SIZE;` -/
def bufferAdvance (b : InputBuffer size) : InputBuffer size :=
  { b with bufferTail := (b.bufferTail + 1) % size }

def bufferFull (b : InputBuffer size) : Bool := (b.bufferHead + 1) % size == b.bufferTail

end Buffer

/-- The place of the loop: the two tests of `keyboard_buffer_empty`, the three accesses of
`keyboard_buffer_pop`, the call with the character, and `hlt`. -/
inductive LoopPc
  | check
  | getchar
  | pop
  | read
  | advance (c : UInt8)
  | handle (c : UInt8)
  | halt
  deriving DecidableEq, Repr

structure MainLoop (σ : Type) where
  pc : LoopPc
  keyboard : Keyboard
  terminal : Terminal σ

/-- The next step is the handler's, with the scancode it reads, or the loop's. -/
inductive LoopEvent
  | interrupt (scancode : UInt8)
  | cpu
  deriving DecidableEq, Repr

/-- A character that the handler stored, or that the shell got. -/
inductive Traffic
  | stored (c : Option UInt8)
  | shown (c : UInt8)
  | quiet
  deriving DecidableEq, Repr

section Loop

variable {σ : Type} (K : ShellKernel σ)

def shellHandleInput (c : UInt8) (t : Terminal σ) : Option (Terminal σ) := terminalPutchar K c t

def kernelMainStep (s : MainLoop σ) : Option (Traffic × MainLoop σ) :=
  match s.pc with
  | .check =>
      some (.quiet,
        { s with pc := if keyboardBufferEmpty s.keyboard.buffer then .halt else .getchar })
  | .getchar =>
      some (.quiet,
        { s with pc := if keyboardBufferEmpty s.keyboard.buffer then .getchar else .pop })
  | .pop =>
      let b := s.keyboard.buffer
      some (.quiet, { s with pc := if b.bufferHead = b.bufferTail then .handle 0 else .read })
  | .read => (bufferRead s.keyboard.buffer).map fun c => (.quiet, { s with pc := .advance c })
  | .advance c =>
      some (.quiet,
        { s with
          pc := .handle c
          keyboard := ⟨s.keyboard.keys, bufferAdvance s.keyboard.buffer⟩ })
  | .handle c =>
      (shellHandleInput K c s.terminal).map fun t =>
        (.shown c, { s with pc := .halt, terminal := t })
  | .halt => some (.quiet, { s with pc := .check })

def loopStep : LoopEvent → MainLoop σ → Option (Traffic × MainLoop σ)
  | .interrupt scancode, s =>
      (keyboardHandler scancode s.keyboard).map fun (c, k) =>
        (.stored (if bufferFull s.keyboard.buffer then none else c), { s with keyboard := k })
  | .cpu, s => kernelMainStep K s

def loopStart (buffer : InputBuffer keyboardBufferSize)
    (command : Vector UInt8 maxCommandLength)
    (history : Vector (Vector UInt8 maxCommandLength) commandHistorySize) (kernel : σ) :
    MainLoop σ :=
  ⟨.check, keyboardStart buffer, shellStart K command history kernel⟩

end Loop

/-! ### What is stored and what is shown -/

def scancodes : List LoopEvent → List UInt8
  | [] => []
  | .interrupt c :: events => c :: scancodes events
  | .cpu :: events => scancodes events

def Traffic.storedChars : Traffic → List UInt8
  | .stored c => c.toList
  | .shown _ | .quiet => []

def Traffic.shownChars : Traffic → List UInt8
  | .shown c => [c]
  | .stored _ | .quiet => []

def storedChars (outs : List Traffic) : List UInt8 := outs.flatMap Traffic.storedChars

def shownChars (outs : List Traffic) : List UInt8 := outs.flatMap Traffic.shownChars

/-- What is on the way to the shell, the buffer holding `q`: a character that was read stays
in the buffer until the tail moves past it. -/
def LoopPc.pending (q : List UInt8) : LoopPc → List UInt8
  | .handle c => c :: q
  | _ => q

/-- A bound on the steps until nothing is on the way: seven for each character, less those
done for the first one. -/
def LoopPc.rest (q : List UInt8) : LoopPc → Nat
  | .check => 7 * q.length
  | .getchar => 7 * q.length - 1
  | .pop => 7 * q.length - 2
  | .read => 7 * q.length - 3
  | .advance _ => 7 * q.length - 4
  | .handle _ => 7 * q.length + 2
  | .halt => 7 * q.length + 1

/-- What the loop knows of a buffer that holds `q`: it is not empty behind the tests, and the
character that was read is still the oldest one. -/
def LoopPc.Knows (q : List UInt8) : LoopPc → Prop
  | .check | .handle _ | .halt => True
  | .getchar | .pop | .read => q ≠ []
  | .advance c => q.head? = some c

def FindsRoom {σ : Type} : LoopEvent → MainLoop σ → Prop
  | .interrupt _, s => bufferFull s.keyboard.buffer = false
  | .cpu, _ => True

instance {σ : Type} : ∀ (e : LoopEvent) (s : MainLoop σ), Decidable (FindsRoom e s)
  | .interrupt _, _ => inferInstanceAs (Decidable (_ = _))
  | .cpu, _ => inferInstanceAs (Decidable True)

/-! ### The accesses to the buffer -/

section Accesses

variable {size : UInt32} {b : InputBuffer size} {q : List UInt8} {c : UInt8}

theorem bufferPop_eq (b : InputBuffer size) : bufferPop b =
    if b.bufferHead = b.bufferTail then some (0, b)
    else (bufferRead b).map fun c => (c, bufferAdvance b) := by
  rw [bufferPop, bufferRead]
  split
  · rfl
  · split <;> rfl

theorem stores_nil_iff (h : b.Stores q) : b.bufferHead = b.bufferTail ↔ q = [] := by
  have hempty := h.empty
  rw [bufferEmpty, Bool.eq_iff_iff, beq_iff_eq, List.isEmpty_iff] at hempty
  exact hempty

theorem stores_read (h : b.Stores (c :: q)) :
    bufferRead b = some c ∧ (bufferAdvance b).Stores q := by
  obtain ⟨b', hpop, hs⟩ := h.pop
  have hne : ¬b.bufferHead = b.bufferTail := by
    rw [stores_nil_iff h]
    exact List.cons_ne_nil c q
  rw [bufferPop_eq, if_neg hne, Option.map_eq_some_iff] at hpop
  obtain ⟨d, hread, hd⟩ := hpop
  obtain ⟨rfl, rfl⟩ := Prod.mk.inj hd
  exact ⟨hread, hs⟩

theorem bufferFull_iff (h : b.Stores q) : bufferFull b = true ↔ q.length + 1 = size.toNat := by
  obtain ⟨r, hr, rfl⟩ := h
  rw [bufferFull, beq_iff_eq, ← UInt32.toNat_inj, toNat_next hr.head, hr.tail, ← Fin.ext_iff,
    Ring.next_head_eq_tail, Ring.contents_length]

theorem stores_push (h : b.Stores q) (c : UInt8) : ∃ b', bufferPush c b = some b' ∧
    b'.Stores (q ++ if bufferFull b then [] else [c]) := by
  have hlen := h.length_lt
  have hfull := bufferFull_iff h
  obtain ⟨b', hpush, hs⟩ := h.push c
  refine ⟨b', hpush, ?_⟩
  by_cases hf : bufferFull b = true
  · rw [if_neg (by rw [hfull] at hf; omega)] at hs
    rw [if_pos hf, List.append_nil]
    exact hs
  · rw [if_pos (by rw [hfull] at hf; omega)] at hs
    rw [if_neg hf]
    exact hs

end Accesses

/-! ### The invariant -/

section Run

variable {σ : Type} (K : ShellKernel σ)

/-- After the scancodes `pre` the buffer holds `q`, and the shell, which started as `t₀`, got
`fed`. -/
structure LoopInv (t₀ : Terminal σ) (pre fed q : List UInt8) (s : MainLoop σ) : Prop where
  keys : s.keyboard.keys = keysAfter pre
  stores : s.keyboard.buffer.Stores q
  knows : s.pc.Knows q
  terminal : ∃ edits line, run (terminalStep K) fed t₀ = some (edits, s.terminal) ∧
    TerminalInv K s.terminal line

variable {K} {t₀ : Terminal σ} {pre fed q : List UInt8} {s : MainLoop σ}

theorem pending_append (pc : LoopPc) (q cs : List UInt8) :
    pc.pending (q ++ cs) = pc.pending q ++ cs := by
  cases pc <;> rfl

theorem knows_append {pc : LoopPc} {q : List UInt8} (h : pc.Knows q) (cs : List UInt8) :
    pc.Knows (q ++ cs) := by
  cases pc with
  | check | handle | halt => exact trivial
  | getchar | pop | read => exact List.append_ne_nil_of_left_ne_nil h cs
  | advance c =>
      rw [LoopPc.Knows] at h ⊢
      rw [List.head?_append, h]
      rfl

/-- **An interrupt** stores its character or drops it, wherever the loop is. -/
theorem LoopInv.interrupt (h : LoopInv K t₀ pre fed q s) (c : UInt8) :
    ∃ s' d, loopStep K (.interrupt c) s = some (.stored d, s') ∧ s'.pc = s.pc ∧
      d = (if bufferFull s.keyboard.buffer then none
        else (keyboardKey c (keysAfter pre)).1) ∧
      LoopInv K t₀ (pre ++ [c]) fed (q ++ d.toList) s' := by
  have hkeys := keyboardKey_keys pre c
  rw [loopStep, keyboardHandler, h.keys]
  generalize keyboardKey c (keysAfter pre) = key at hkeys
  obtain ⟨_ | character, keys⟩ := key
  · refine ⟨_, _, rfl, rfl, rfl, hkeys, ?_, ?_, h.terminal⟩
    all_goals rw [ite_self, Option.toList_none, List.append_nil]
    · exact h.stores
    · exact h.knows
  · obtain ⟨b', hpush, hs⟩ := stores_push h.stores character
    refine ⟨{ s with keyboard := ⟨keys, b'⟩ }, _, ?_, rfl, rfl, hkeys, ?_,
      knows_append h.knows _, h.terminal⟩
    · dsimp only
      rw [keyboardBufferPush, hpush, Option.map_some, Option.map_some]
    · split at hs <;> rename_i hfull
      · rw [if_pos hfull]
        exact hs
      · rw [if_neg hfull]
        exact hs

/-- What a step of the loop leaves to do: it hands on what it shows, and comes closer to the
end where something is on the way. -/
structure Advances (pc pc' : LoopPc) (q q' : List UInt8) (o : Traffic) : Prop where
  stored : o.storedChars = []
  pending : o.shownChars ++ pc'.pending q' = pc.pending q
  rest : pc.pending q ≠ [] → pc'.rest q' + 1 = pc.rest q

theorem LoopInv.move (h : LoopInv K t₀ pre fed q s) (pc : LoopPc) (hpc : pc.Knows q) :
    LoopInv K t₀ pre (fed ++ Traffic.quiet.shownChars) q { s with pc := pc } := by
  rw [Traffic.shownChars, List.append_nil]
  exact ⟨h.keys, h.stores, hpc, h.terminal⟩

/-- **A step of the loop** passes on what it took, and takes nothing twice. -/
theorem LoopInv.cpu (h : LoopInv K t₀ pre fed q s) :
    ∃ o s' q', loopStep K .cpu s = some (o, s') ∧
      LoopInv K t₀ pre (fed ++ o.shownChars) q' s' ∧ Advances s.pc s'.pc q q' o := by
  obtain ⟨pc, keyboard, terminal⟩ := s
  have hs : keyboard.buffer.Stores q := h.stores
  have hpc : pc.Knows q := h.knows
  have hpos : q ≠ [] → 1 ≤ q.length := List.length_pos_iff.mpr
  rw [loopStep, kernelMainStep]
  cases pc with
  | check =>
      dsimp only
      rw [keyboardBufferEmpty, hs.empty]
      cases q with
      | nil => exact ⟨_, _, _, rfl, h.move _ trivial, rfl, rfl, fun hne => absurd rfl hne⟩
      | cons c q =>
          refine ⟨_, _, _, rfl, h.move _ (List.cons_ne_nil c q), rfl, rfl, fun _ => ?_⟩
          simp only [List.isEmpty_cons, Bool.false_eq_true, if_false, LoopPc.rest,
            List.length_cons]
          omega
  | getchar =>
      have hne : q.isEmpty = false := List.isEmpty_eq_false_iff.mpr hpc
      have hlen := hpos hpc
      dsimp only
      rw [keyboardBufferEmpty, hs.empty, hne, if_neg Bool.false_ne_true]
      refine ⟨_, _, _, rfl, h.move _ hpc, rfl, rfl, fun _ => ?_⟩
      simp only [LoopPc.rest]
      omega
  | pop =>
      have hne : ¬keyboard.buffer.bufferHead = keyboard.buffer.bufferTail :=
        mt (stores_nil_iff hs).mp hpc
      have hlen := hpos hpc
      dsimp only
      rw [if_neg hne]
      refine ⟨_, _, _, rfl, h.move _ hpc, rfl, rfl, fun _ => ?_⟩
      simp only [LoopPc.rest]
      omega
  | read =>
      have hlen := hpos hpc
      obtain ⟨c, q, rfl⟩ := List.exists_cons_of_ne_nil hpc
      dsimp only
      rw [(stores_read hs).1, Option.map_some]
      refine ⟨_, _, _, rfl, h.move (.advance c) rfl, rfl, rfl, fun _ => ?_⟩
      simp only [LoopPc.rest]
      omega
  | advance c =>
      obtain ⟨d, q, rfl⟩ := List.exists_cons_of_ne_nil (show q ≠ [] by rintro rfl; cases hpc)
      obtain rfl : d = c := Option.some.inj hpc
      refine ⟨_, _, q, rfl, ⟨h.keys, (stores_read hs).2, trivial, ?_⟩, rfl, rfl, fun _ => ?_⟩
      · rw [Traffic.shownChars, List.append_nil]
        exact h.terminal
      · simp only [LoopPc.rest, List.length_cons]
        omega
  | handle c =>
      obtain ⟨edits, line, hrun, hinv⟩ := h.terminal
      obtain ⟨t, hput, hinv'⟩ := hinv.terminalPutchar c
      have hstep : terminalStep K c terminal = some (editOf K c terminal, t) := by
        rw [terminalStep, hput, Option.map_some]
      refine ⟨.shown c, ⟨.halt, keyboard, t⟩, q, ?_,
        ⟨h.keys, hs, trivial, edits ++ [editOf K c terminal], _, ?_, hinv'⟩, rfl, rfl, fun _ => rfl⟩
      · simp only [shellHandleInput, hput, Option.map_some]
      · exact run_append_some.mpr ⟨edits, terminal, _, hrun,
          run_cons_some.mpr ⟨_, t, [], hstep, rfl, rfl⟩, rfl⟩
  | halt =>
      exact ⟨_, _, q, rfl, h.move _ trivial, rfl, rfl, fun _ => rfl⟩

/-! ### Runs -/

/-- **Any interrupts, between any steps.**  What the shell got and what is on the way is what
was stored, and that is what was typed, less the characters that found the buffer full. -/
theorem LoopInv.run (h : LoopInv K t₀ pre fed q s) (events : List LoopEvent) :
    ∃ outs s' q', Machine.run (loopStep K) events s = some (outs, s') ∧
      LoopInv K t₀ (pre ++ scancodes events) (fed ++ shownChars outs) q' s' ∧
      s.pc.pending q ++ storedChars outs = shownChars outs ++ s'.pc.pending q' ∧
      (storedChars outs).Sublist (keyChars pre (scancodes events)) ∧
      (Meets (loopStep K) FindsRoom events s →
        storedChars outs = keyChars pre (scancodes events)) := by
  induction events generalizing pre fed q s with
  | nil =>
      refine ⟨[], s, q, rfl, ?_, List.append_nil _, List.Sublist.refl [], fun _ => rfl⟩
      rw [scancodes, shownChars, List.flatMap_nil, List.append_nil, List.append_nil]
      exact h
  | cons event events ih =>
      cases event with
      | interrupt c =>
          obtain ⟨s₁, d, hstep, hpc, hd, h₁⟩ := h.interrupt c
          obtain ⟨outs, s', q', hrun, h', hmoved, hsub, hroom⟩ := ih h₁
          rw [List.append_assoc, List.singleton_append] at h'
          rw [hpc, pending_append, List.append_assoc] at hmoved
          refine ⟨.stored d :: outs, s', q', run_cons_some.mpr ⟨_, s₁, outs, hstep, hrun, rfl⟩, h',
            hmoved, ?_, ?_⟩
          · refine List.Sublist.append ?_ hsub
            rw [hd]
            show (ite _ _ _ : Option UInt8).toList.Sublist _
            split
            · exact List.nil_sublist _
            · exact List.Sublist.refl _
          · rintro ⟨hfree, hrest⟩
            rw [FindsRoom] at hfree
            rw [hfree, if_neg Bool.false_ne_true] at hd
            show d.toList ++ storedChars outs = _
            rw [hroom (hrest _ _ hstep), hd]
            rfl
      | cpu =>
          obtain ⟨o, s₁, q₁, hstep, h₁, hadv⟩ := h.cpu
          obtain ⟨outs, s', q', hrun, h', hmoved, hsub, hroom⟩ := ih h₁
          rw [List.append_assoc] at h'
          have hstored : storedChars (o :: outs) = storedChars outs := by
            rw [storedChars, List.flatMap_cons, hadv.stored, List.nil_append]
            rfl
          refine ⟨o :: outs, s', q', run_cons_some.mpr ⟨o, s₁, outs, hstep, hrun, rfl⟩, h', ?_,
            hstored ▸ hsub, ?_⟩
          · rw [hstored, ← hadv.pending, List.append_assoc, hmoved, ← List.append_assoc]
            rfl
          · rintro ⟨-, hrest⟩
            rw [hstored]
            exact hroom (hrest _ _ hstep)

theorem rest_append_le (pc : LoopPc) (q cs : List UInt8) :
    pc.rest (q ++ cs) ≤ pc.rest q + 7 * cs.length := by
  cases pc <;> simp only [LoopPc.rest, List.length_append] <;> omega

theorem pending_le_rest (pc : LoopPc) (q : List UInt8) :
    7 * (pc.pending q).length ≤ pc.rest q + 5 := by
  cases pc <;> simp only [LoopPc.rest, LoopPc.pending, List.length_cons] <;> omega

/-- **Progress.**  If the steps of the loop are enough for the oldest `k` of the characters on
the way, these reach the shell, whatever comes in between. -/
theorem LoopInv.delivers (h : LoopInv K t₀ pre fed q s) (events : List LoopEvent) {k : Nat}
    (hk : k ≤ (s.pc.pending q).length)
    (hn : 0 < k → s.pc.rest q ≤ events.count .cpu + 7 * ((s.pc.pending q).length - k)) :
    ∃ outs s', Machine.run (loopStep K) events s = some (outs, s') ∧
      k ≤ (shownChars outs).length := by
  induction events generalizing pre fed q s k with
  | nil =>
      refine ⟨[], s, rfl, ?_⟩
      have hle := pending_le_rest s.pc q
      rw [List.count_nil] at hn
      show k ≤ 0
      omega
  | cons event events ih =>
      cases event with
      | interrupt c =>
          -- what it adds waits behind the others
          obtain ⟨s₁, d, hstep, hpc, -, h₁⟩ := h.interrupt c
          have hrest := rest_append_le s.pc q d.toList
          have hlen : (s.pc.pending (q ++ d.toList)).length
              = (s.pc.pending q).length + d.toList.length := by
            rw [pending_append, List.length_append]
          rw [List.count_cons_of_ne (by simp)] at hn
          obtain ⟨outs, s', hrun, hshown⟩ := ih (k := k) h₁ (by rw [hpc]; omega)
            (by rw [hpc]; omega)
          exact ⟨_, s', run_cons_some.mpr ⟨_, s₁, outs, hstep, hrun, rfl⟩, hshown⟩
      | cpu =>
          obtain ⟨o, s₁, q₁, hstep, h₁, hadv⟩ := h.cpu
          have hpending := congrArg List.length hadv.pending
          rw [List.length_append] at hpending
          rw [List.count_cons_self] at hn
          have hone : o.shownChars.length ≤ 1 := by
            cases o <;> simp [Traffic.shownChars]
          have hrest : 0 < k → s₁.pc.rest q₁ + 1 = s.pc.rest q := fun hpos =>
            hadv.rest (List.length_pos_iff.mp (by omega))
          obtain ⟨outs, s', hrun, hshown⟩ := ih (k := k - o.shownChars.length) h₁ (by omega)
            (by omega)
          refine ⟨o :: outs, s', run_cons_some.mpr ⟨o, s₁, outs, hstep, hrun, rfl⟩, ?_⟩
          show k ≤ (o.shownChars ++ shownChars outs).length
          rw [List.length_append]
          omega

/-- All that is on the way reaches the shell within 1787 steps of the loop. -/
theorem LoopInv.delivers_all (h : LoopInv K t₀ pre fed q s) {events : List LoopEvent}
    (hn : 1787 ≤ events.count .cpu) : ∃ outs s' q', Machine.run (loopStep K) events s
        = some (outs, s') ∧
      LoopInv K t₀ (pre ++ scancodes events) (fed ++ shownChars outs) q' s' ∧
      s.pc.pending q ++ storedChars outs = shownChars outs ++ s'.pc.pending q' ∧
      s.pc.pending q <+: shownChars outs ∧
      (storedChars outs).Sublist (keyChars pre (scancodes events)) := by
  obtain ⟨outs, s', q', hrun, h', hmoved, hsub, -⟩ := h.run events
  have hlen : q.length < 256 := h.stores.length_lt
  have hrest : s.pc.rest q ≤ 1787 := by
    cases s.pc <;> simp only [LoopPc.rest] <;> omega
  obtain ⟨outs', s'', hrun', hshown⟩ := h.delivers events (Nat.le_refl _) fun _ => by omega
  obtain ⟨rfl, rfl⟩ := Prod.mk.inj (Option.some.inj (hrun'.symm.trans hrun))
  refine ⟨outs', s'', q', hrun, h', hmoved, ?_, hsub⟩
  exact List.prefix_of_prefix_length_le ⟨_, rfl⟩ ⟨_, hmoved.symm⟩ hshown

theorem loopInv_start (K : ShellKernel σ) (buffer : InputBuffer keyboardBufferSize)
    (command : Vector UInt8 maxCommandLength)
    (history : Vector (Vector UInt8 maxCommandLength) commandHistorySize) (kernel : σ) :
    LoopInv K (shellStart K command history kernel) [] [] []
      (loopStart K buffer command history kernel) where
  keys := rfl
  stores := stores_nil rfl (Nat.succ_pos 255)
  knows := trivial
  terminal := ⟨[], [], rfl, terminalInv_shellStart K command history kernel⟩

/-- **The shell gets what was typed, in order.**  Whatever the interleaving of the interrupts
with the loop, no access leaves the buffer, what the shell got and what is still on its way are
the characters stored, and these are the characters typed less some that were dropped. -/
theorem mainLoop_inOrder (K : ShellKernel σ) (buffer : InputBuffer keyboardBufferSize)
    (command : Vector UInt8 maxCommandLength)
    (history : Vector (Vector UInt8 maxCommandLength) commandHistorySize) (kernel : σ)
    (events : List LoopEvent) :
    ∃ outs s q edits, Machine.run (loopStep K) events (loopStart K buffer command history kernel)
        = some (outs, s) ∧
      s.keyboard.buffer.Stores q ∧ storedChars outs = shownChars outs ++ s.pc.pending q ∧
      (storedChars outs).Sublist (keyChars [] (scancodes events)) ∧
      Machine.run (terminalStep K) (shownChars outs) (shellStart K command history kernel)
        = some (edits, s.terminal) := by
  obtain ⟨outs, s, q, hrun, hinv, hmoved, hsub, -⟩ :=
    (loopInv_start K buffer command history kernel).run events
  obtain ⟨edits, -, hterminal, -⟩ := hinv.terminal
  exact ⟨outs, s, q, edits, hrun, hinv.stores, hmoved, hsub, hterminal⟩

/-- **What is stored reaches the shell** within 1787 steps of the loop, however many interrupts
come in between and whether or not they find the buffer full. -/
theorem mainLoop_delivers (K : ShellKernel σ) (buffer : InputBuffer keyboardBufferSize)
    (command : Vector UInt8 maxCommandLength)
    (history : Vector (Vector UInt8 maxCommandLength) commandHistorySize) (kernel : σ)
    (events later : List LoopEvent) (hn : 1787 ≤ later.count .cpu) :
    ∃ outs s outs' s' edits,
      Machine.run (loopStep K) events (loopStart K buffer command history kernel)
        = some (outs, s) ∧
      Machine.run (loopStep K) later s = some (outs', s') ∧
      storedChars outs <+: shownChars (outs ++ outs') ∧
      Machine.run (terminalStep K) (shownChars (outs ++ outs'))
        (shellStart K command history kernel) = some (edits, s'.terminal) := by
  obtain ⟨outs, s, q, hrun, h, hmoved, -, -⟩ :=
    (loopInv_start K buffer command history kernel).run events
  obtain ⟨outs', s', q', hrun', h', -, hprefix, -⟩ := h.delivers_all hn
  obtain ⟨edits, -, hterminal, -⟩ := h'.terminal
  have happend : shownChars (outs ++ outs') = shownChars outs ++ shownChars outs' :=
    List.flatMap_append
  have hstored : storedChars outs = shownChars outs ++ s.pc.pending q := hmoved
  refine ⟨outs, s, outs', s', edits, hrun, hrun', ?_, happend ▸ hterminal⟩
  rw [happend, hstored]
  exact (List.prefix_append_right_inj _).mpr hprefix

/-- **The interleaving does not matter.**  Where no interrupt finds the buffer full, 1787 steps
of the loop after the last interrupt the shell is in the state that the typed characters, given
to it one after the other, put it in. -/
theorem mainLoop_drains (K : ShellKernel σ) (buffer : InputBuffer keyboardBufferSize)
    (command : Vector UInt8 maxCommandLength)
    (history : Vector (Vector UInt8 maxCommandLength) commandHistorySize) (kernel : σ)
    (events : List LoopEvent)
    (hroom : Meets (loopStep K) FindsRoom events (loopStart K buffer command history kernel))
    (n : Nat) (hn : 1787 ≤ n) :
    ∃ outs s edits, Machine.run (loopStep K) (events ++ List.replicate n .cpu)
        (loopStart K buffer command history kernel) = some (outs, s) ∧
      shownChars outs = keyChars [] (scancodes events) ∧ s.keyboard.buffer.Stores [] ∧
      Machine.run (terminalStep K) (keyChars [] (scancodes events))
        (shellStart K command history kernel) = some (edits, s.terminal) := by
  obtain ⟨outs, s, q, hrun, h, hmoved, -, hall⟩ :=
    (loopInv_start K buffer command history kernel).run events
  have hcount : 1787 ≤ (List.replicate n LoopEvent.cpu).count .cpu := by
    rw [List.count_replicate_self]
    exact hn
  obtain ⟨outs', s', q', hrun', h', hmoved', hprefix, hsub⟩ := h.delivers_all hcount
  have hquiet : ∀ n, scancodes (List.replicate n .cpu) = [] := by
    intro n
    induction n with
    | zero => rfl
    | succ n ih => exact ih
  rw [hquiet] at hsub
  rw [List.sublist_nil.mp hsub, List.append_nil] at hmoved'
  -- nothing is left, neither in the buffer nor with the loop
  have hnil : s'.pc.pending q' = [] := by
    have hle := hprefix.length_le
    rw [hmoved', List.length_append] at hle
    exact List.eq_nil_of_length_eq_zero (by omega)
  have hq : q' = [] := by
    cases hpc : s'.pc <;> rw [hpc] at hnil <;> first | exact hnil | cases hnil
  rw [hnil, List.append_nil] at hmoved'
  have hshown : shownChars outs ++ shownChars outs' = keyChars [] (scancodes events) := by
    rw [← hmoved', ← hmoved, hall hroom]
    rfl
  obtain ⟨edits, -, hterminal, -⟩ := h'.terminal
  rw [List.nil_append, hshown] at hterminal
  refine ⟨outs ++ outs', s', edits, run_append_some.mpr ⟨outs, s, outs', hrun, hrun', rfl⟩, ?_,
    hq ▸ h'.stores, hterminal⟩
  rw [shownChars, List.flatMap_append]
  exact hshown

end Run

/-- Two keys are pressed, the second one between the two reads of a pop; and then a key after
each step of the loop, until the buffer is full. -/
theorem mainLoop_delivers_two : ∃ outs s outs' s' edits, Machine.run (loopStep idleShell)
      [.interrupt 0x1E, .cpu, .cpu, .cpu, .cpu, .interrupt 0x30]
      (loopStart idleShell ⟨Vector.replicate _ 0, 0, 0⟩ (Vector.replicate _ 0)
        (Vector.replicate _ (Vector.replicate _ 0)) ()) = some (outs, s) ∧
    Machine.run (loopStep idleShell) (List.replicate 1787 [.cpu, .interrupt 0x2E]).flatten s
      = some (outs', s') ∧
    [97, 98] <+: shownChars (outs ++ outs') ∧
    Machine.run (terminalStep idleShell) (shownChars (outs ++ outs'))
      (shellStart idleShell (Vector.replicate _ 0) (Vector.replicate _ (Vector.replicate _ 0)) ())
        = some (edits, s'.terminal) := by
  have hcount : 1787 ≤ (List.replicate 1787 [LoopEvent.cpu, .interrupt 0x2E]).flatten.count
      .cpu := by
    rw [List.count_flatten, List.map_replicate, List.sum_replicate_nat]
    decide
  have hstored : (Machine.run (loopStep idleShell)
      [.interrupt 0x1E, .cpu, .cpu, .cpu, .cpu, .interrupt 0x30]
      (loopStart idleShell ⟨Vector.replicate _ 0, 0, 0⟩ (Vector.replicate _ 0)
        (Vector.replicate _ (Vector.replicate _ 0)) ())).map (fun r => storedChars r.1)
      = some [97, 98] := by
    decide
  obtain ⟨outs, s, outs', s', edits, hrun, hrun', hprefix, hterminal⟩ :=
    mainLoop_delivers idleShell _ _ _ () _ _ hcount
  rw [hrun, Option.map_some, Option.some.injEq] at hstored
  exact ⟨outs, s, outs', s', edits, hrun, hrun', hstored ▸ hprefix, hterminal⟩

end AceOS.Kernel
