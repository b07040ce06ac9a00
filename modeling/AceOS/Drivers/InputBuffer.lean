import AceOS.Lib.RingBuffer

/-!
# `src/drivers/keyboard.c`, `src/drivers/serial.c`: the input buffers

Both drivers keep the characters that arrived in a ring of their own, with the same code:
`bufferPush`, `bufferPop` and `bufferEmpty` are that code, and each driver has it for its
own buffer size.  An index outside the array gives `none`.
-/

namespace AceOS.Drivers

open RingBuffer Machine

/-! ### The buffers -/

/-- The array with the two indices. -/
structure InputBuffer (size : UInt32) where
  buffer : Vector UInt8 size.toNat
  bufferHead : UInt32
  bufferTail : UInt32

variable {size : UInt32}

/-- `(b.bufferHead + 1) % size` is the next index; the character is dropped where that is
the tail. -/
def bufferPush (c : UInt8) (b : InputBuffer size) : Option (InputBuffer size) :=
  let nextHead := (b.bufferHead + 1) % size
  if nextHead ≠ b.bufferTail then
    if h : b.bufferHead.toNat < size.toNat then
      some { b with buffer := b.buffer.set b.bufferHead.toNat c h, bufferHead := nextHead }
    else none
  else some b

/-- An empty buffer gives the character 0. -/
def bufferPop (b : InputBuffer size) : Option (UInt8 × InputBuffer size) :=
  if b.bufferHead = b.bufferTail then some (0, b)
  else if h : b.bufferTail.toNat < size.toNat then
    some (b.buffer[b.bufferTail.toNat], { b with bufferTail := (b.bufferTail + 1) % size })
  else none

def bufferEmpty (b : InputBuffer size) : Bool := b.bufferHead == b.bufferTail

abbrev keyboardBufferSize : UInt32 := 256

abbrev serialBufferSize : UInt32 := 256

/-- Both indices go back to 0; the array stays. -/
def keyboardBufferInit (b : InputBuffer keyboardBufferSize) : InputBuffer keyboardBufferSize :=
  { b with bufferHead := 0, bufferTail := 0 }

def keyboardBufferPush (c : UInt8) (b : InputBuffer keyboardBufferSize) :
    Option (InputBuffer keyboardBufferSize) := bufferPush c b

def keyboardBufferPop (b : InputBuffer keyboardBufferSize) :
    Option (UInt8 × InputBuffer keyboardBufferSize) := bufferPop b

def keyboardBufferEmpty (b : InputBuffer keyboardBufferSize) : Bool := bufferEmpty b

/-- The static variables of `serial.c` as they are loaded. -/
def serialBufferStart : InputBuffer serialBufferSize :=
  { buffer := Vector.replicate _ 0, bufferHead := 0, bufferTail := 0 }

def serialBufferPush (c : UInt8) (b : InputBuffer serialBufferSize) :
    Option (InputBuffer serialBufferSize) := bufferPush c b

def serialBufferPop (b : InputBuffer serialBufferSize) :
    Option (UInt8 × InputBuffer serialBufferSize) := bufferPop b

def serialBufferEmpty (b : InputBuffer serialBufferSize) : Bool := bufferEmpty b

def keyboardStep : QueueOp UInt8 → InputBuffer keyboardBufferSize →
    Option (QueueOut UInt8 × InputBuffer keyboardBufferSize)
  | .push c, b => (keyboardBufferPush c b).map fun b' => (.done, b')
  | .pop, b => (keyboardBufferPop b).map fun (c, b') => (.item c, b')
  | .empty, b => some (.flag (keyboardBufferEmpty b), b)

def serialStep : QueueOp UInt8 → InputBuffer serialBufferSize →
    Option (QueueOut UInt8 × InputBuffer serialBufferSize)
  | .push c, b => (serialBufferPush c b).map fun b' => (.done, b')
  | .pop, b => (serialBufferPop b).map fun (c, b') => (.item c, b')
  | .empty, b => some (.flag (serialBufferEmpty b), b)

/-! ### The buffers as rings -/

namespace InputBuffer

/-- The buffer is the ring `r`. -/
structure IsRing (b : InputBuffer size) (r : Ring UInt8 size.toNat) : Prop where
  buffer : b.buffer = r.cells
  head : b.bufferHead.toNat = r.head
  tail : b.bufferTail.toNat = r.tail

/-- What a buffer with its indices inside the array stores, oldest first. -/
def Stores (b : InputBuffer size) (q : List UInt8) : Prop :=
  ∃ r, b.IsRing r ∧ r.contents = q

variable {b : InputBuffer size} {r : Ring UInt8 size.toNat} {q : List UInt8}

/-- The source's next index, where `index + 1` does not wrap around. -/
theorem toNat_next {index : UInt32} {i : Fin size.toNat} (h : index.toNat = i) :
    ((index + 1) % size).toNat = next i := by
  have hi := i.isLt
  have hsize := size.toNat_lt
  have hadd : (index + 1).toNat = i + 1 := by
    rw [UInt32.toNat_add, h]
    exact Nat.mod_eq_of_lt (by show i.val + 1 < 2 ^ 32; omega)
  rw [UInt32.toNat_mod, hadd]
  rfl

theorem IsRing.push (h : b.IsRing r) (c : UInt8) :
    ∃ b', bufferPush c b = some b' ∧ b'.IsRing (r.push c) := by
  have hnext := toNat_next h.head
  have hlt : b.bufferHead.toNat < size.toNat := h.head ▸ r.head.isLt
  rw [bufferPush, Ring.push]
  by_cases hfull : next r.head = r.tail
  · have heq : (b.bufferHead + 1) % size = b.bufferTail :=
      UInt32.toNat_inj.mp (by rw [hnext, h.tail, hfull])
    rw [if_pos hfull]
    exact ⟨b, by rw [if_neg (not_not_intro heq)], h⟩
  · have hne : (b.bufferHead + 1) % size ≠ b.bufferTail := by
      intro he
      apply hfull
      rw [Fin.ext_iff, ← hnext, he, h.tail]
    rw [if_neg hfull]
    refine ⟨{ b with
      buffer := b.buffer.set b.bufferHead.toNat c hlt
      bufferHead := (b.bufferHead + 1) % size }, ?_, ?_, hnext, h.tail⟩
    · simp only [if_pos hne, dif_pos hlt]
    · simp only [h.buffer, h.head]

theorem IsRing.pop (h : b.IsRing r) :
    ∃ b', bufferPop b = some (r.pop.1.getD 0, b') ∧ b'.IsRing r.pop.2 := by
  have hnext := toNat_next h.tail
  have hlt : b.bufferTail.toNat < size.toNat := h.tail ▸ r.tail.isLt
  rw [bufferPop, Ring.pop]
  by_cases hempty : r.head = r.tail
  · have heq : b.bufferHead = b.bufferTail :=
      UInt32.toNat_inj.mp (by rw [h.head, h.tail, hempty])
    rw [if_pos hempty, if_pos heq]
    exact ⟨b, rfl, h⟩
  · have hne : b.bufferHead ≠ b.bufferTail := by
      intro he
      apply hempty
      rw [Fin.ext_iff, ← h.head, he, h.tail]
    rw [if_neg hempty, if_neg hne, dif_pos hlt]
    refine ⟨{ b with bufferTail := (b.bufferTail + 1) % size }, ?_, h.buffer, h.head, hnext⟩
    simp only [h.buffer, h.tail, Option.getD_some, Fin.getElem_fin]

theorem Stores.length_lt (h : b.Stores q) : q.length < size.toNat := by
  obtain ⟨r, -, hq⟩ := h
  rw [← hq, Ring.contents_length]
  exact r.count_lt

theorem Stores.push (h : b.Stores q) (c : UInt8) :
    ∃ b', bufferPush c b = some b' ∧
      b'.Stores (if q.length < size.toNat - 1 then q ++ [c] else q) := by
  have hlen := h.length_lt
  obtain ⟨r, hr, hq⟩ := h
  obtain ⟨b', hpush, hr'⟩ := hr.push c
  refine ⟨b', hpush, _, hr', ?_⟩
  rw [← hq] at hlen ⊢
  split
  · exact Ring.contents_push (by omega) c
  · rw [Ring.contents_push_of_full (by omega) c]

theorem Stores.pop (h : b.Stores q) :
    ∃ b', bufferPop b = some (q.head?.getD 0, b') ∧ b'.Stores q.tail := by
  obtain ⟨r, hr, hq⟩ := h
  obtain ⟨b', hpop, hr'⟩ := hr.pop
  rw [r.pop_eq.1, hq] at hpop
  exact ⟨b', hpop, _, hr', by rw [r.pop_eq.2, hq]⟩

theorem Stores.empty (h : b.Stores q) : bufferEmpty b = q.isEmpty := by
  obtain ⟨r, hr, hq⟩ := h
  rw [bufferEmpty, Bool.eq_iff_iff, beq_iff_eq, List.isEmpty_iff, ← hq, Ring.contents_eq_nil,
    ← UInt32.toNat_inj, hr.head, hr.tail, Fin.ext_iff]

theorem stores_nil (hb : b.bufferHead = b.bufferTail) (hlt : b.bufferTail.toNat < size.toNat) :
    b.Stores [] := by
  refine ⟨⟨b.buffer, ⟨_, hlt⟩, ⟨_, hlt⟩⟩, ⟨rfl, congrArg UInt32.toNat hb, rfl⟩, ?_⟩
  rw [Ring.contents_eq_nil]

end InputBuffer

/-! ### Runs -/

section Run

variable {b : InputBuffer size} {q : List UInt8}

/-- The calls of one driver do what the shared code does. -/
def IsDriver
    (step : QueueOp UInt8 → InputBuffer size → Option (QueueOut UInt8 × InputBuffer size)) : Prop :=
  ∀ b : InputBuffer size,
    (∀ c, step (.push c) b = (bufferPush c b).map fun b' => (.done, b')) ∧
      step .pop b = (bufferPop b).map (fun p => (.item p.1, p.2)) ∧
      step .empty b = some (.flag (bufferEmpty b), b)

theorem isDriver_keyboard : IsDriver keyboardStep := fun _ => ⟨fun _ => rfl, rfl, rfl⟩

theorem isDriver_serial : IsDriver serialStep := fun _ => ⟨fun _ => rfl, rfl, rfl⟩

variable {step : QueueOp UInt8 → InputBuffer size → Option (QueueOut UInt8 × InputBuffer size)}

/-- One call is the step of the queue of capacity `size - 1`. -/
theorem IsDriver.step_fifo (hd : IsDriver step) (h : b.Stores q) (op : QueueOp UInt8) :
    ∃ o b' q', step op b = some (o, b') ∧ fifoStep 0 (size.toNat - 1) op q = some (o, q') ∧
      b'.Stores q' := by
  cases op with
  | push c =>
      obtain ⟨b', hpush, hs⟩ := h.push c
      refine ⟨.done, b', _, ?_, rfl, hs⟩
      rw [(hd b).1, hpush, Option.map_some]
  | pop =>
      obtain ⟨b', hpop, hs⟩ := h.pop
      refine ⟨.item (q.head?.getD 0), b', q.tail, ?_, ?_, hs⟩
      · rw [(hd b).2.1, hpop, Option.map_some]
      · cases q with
        | nil => rfl
        | cons c q => rfl
  | empty =>
      refine ⟨.flag q.isEmpty, b, q, ?_, rfl, h⟩
      rw [(hd b).2.2, h.empty]

/-- **A run of the calls is a run of the queue**, with the same answers. -/
theorem IsDriver.run_fifo (hd : IsDriver step) (ops : List (QueueOp UInt8)) (h : b.Stores q) :
    ∃ outs b' q', run step ops b = some (outs, b') ∧
      run (fifoStep 0 (size.toNat - 1)) ops q = some (outs, q') ∧ b'.Stores q' := by
  induction ops generalizing b q with
  | nil => exact ⟨[], b, q, rfl, rfl, h⟩
  | cons op ops ih =>
      obtain ⟨o, b₁, q₁, hstep, hfifo, hs⟩ := hd.step_fifo h op
      obtain ⟨outs, b', q', hr, hr', hs'⟩ := ih hs
      exact ⟨o :: outs, b', q', run_cons_some.mpr ⟨o, b₁, outs, hstep, hr, rfl⟩,
        run_cons_some.mpr ⟨o, q₁, outs, hfifo, hr', rfl⟩, hs'⟩

/-- What `IsDriver.run_fifo` says of the characters, from an empty buffer. -/
theorem IsDriver.run_empty (hd : IsDriver step) (ops : List (QueueOp UInt8)) (h : b.Stores []) :
    ∃ outs b' q, run step ops b = some (outs, b') ∧
      run (fifoStep 0 (size.toNat - 1)) ops [] = some (outs, q) ∧ b'.Stores q ∧
      accepted (size.toNat - 1) ops [] = served (size.toNat - 1) ops [] ++ q := by
  obtain ⟨outs, b', q, hr, hr', hs⟩ := hd.run_fifo ops h
  exact ⟨outs, b', q, hr, hr', hs, fifo_conserves hr'⟩

end Run

/-- **The input buffers are queues of capacity 255.**  From the empty buffer, any calls in any
order answer what the queue answers, and leave its items in the buffer; the characters that
were accepted are those that were popped and those still stored, in this order. -/
theorem inputBuffers_fifo (ops : List (QueueOp UInt8)) :
    (∀ b, ∃ outs b' q, run keyboardStep ops (keyboardBufferInit b) = some (outs, b') ∧
      run (fifoStep 0 255) ops [] = some (outs, q) ∧ b'.Stores q ∧ q.length ≤ 255 ∧
      accepted 255 ops [] = served 255 ops [] ++ q) ∧
    (∃ outs b' q, run serialStep ops serialBufferStart = some (outs, b') ∧
      run (fifoStep 0 255) ops [] = some (outs, q) ∧ b'.Stores q ∧ q.length ≤ 255 ∧
      accepted 255 ops [] = served 255 ops [] ++ q) := by
  constructor
  · intro b
    have hempty : (keyboardBufferInit b).Stores [] := InputBuffer.stores_nil rfl (Nat.succ_pos 255)
    obtain ⟨outs, b', q, hr, hr', hs, hc⟩ := isDriver_keyboard.run_empty ops hempty
    exact ⟨outs, b', q, hr, hr', hs, Nat.le_of_lt_succ hs.length_lt, hc⟩
  · have hempty : serialBufferStart.Stores [] := InputBuffer.stores_nil rfl (by decide)
    obtain ⟨outs, b', q, hr, hr', hs, hc⟩ := isDriver_serial.run_empty ops hempty
    exact ⟨outs, b', q, hr, hr', hs, Nat.le_of_lt_succ hs.length_lt, hc⟩

end AceOS.Drivers
