import AceOS.Drivers.AtaChannel

/-!
# Transfers (`src/drivers/disk.c`)

The disk driver against the drives: `triple_ataReadSectors`, `triple_ataWriteSectors` and
`triple_ataIdentifyDrive` say what the calls return and leave behind, whatever the drives answer
and however long they are busy.  The first wait of a transfer is for the drive that is selected
before it, which need not be the one the call is about (`triple_waitEmpty`).
-/

namespace AceOS.Drivers

open PortIo

/-- `n` words of `src` from number `i` on, put into `dst` from number `j` on. -/
def copyWords (src : Nat → UInt16) (i j n : Nat) (dst : Nat → UInt16) : Nat → UInt16 :=
  fun x => if j ≤ x ∧ x < j + n then src (i + (x - j)) else dst x

section CopyWords

variable (src dst : Nat → UInt16) (i j m n : Nat)

@[simp] theorem copyWords_zero : copyWords src i j 0 dst = dst := by
  funext x
  unfold copyWords
  exact if_neg (by omega)

theorem copyWords_succ : copyWords src (i + 1) (j + 1) n (Function.update dst j (src i))
    = copyWords src i j (n + 1) dst := by
  funext x
  unfold copyWords
  obtain rfl | hne := eq_or_ne x j
  · rw [if_neg (by omega), if_pos (by omega), Function.update_self, Nat.sub_self, Nat.add_zero]
  · rw [Function.update_of_ne hne]
    by_cases h : j + 1 ≤ x ∧ x < j + 1 + n
    · rw [if_pos h, if_pos (by omega)]
      congr 1
      omega
    · rw [if_neg h, if_neg (by omega)]

theorem copyWords_append : copyWords src (i + m) (j + m) n (copyWords src i j m dst)
    = copyWords src i j (m + n) dst := by
  funext x
  unfold copyWords
  by_cases h : j + m ≤ x ∧ x < j + m + n
  · rw [if_pos h, if_pos (by omega)]
    congr 1
    omega
  · rw [if_neg h]
    by_cases h' : j ≤ x ∧ x < j + m
    · rw [if_pos h', if_pos (by omega)]
    · rw [if_neg h', if_neg (by omega)]

end CopyWords

namespace AtaChannel

variable {ch ch' : AtaChannel} {f g : (Nat → UInt16) → Nat → UInt16}

theorem selected_mapData : (ch.mapData f).selected
    = ch.selected.map fun drive => { drive with data := f drive.data } := Function.update_self ..

theorem mapData_mapData : (ch.mapData f).mapData g = ch.mapData (g ∘ f) := by
  have hdevice : (ch.mapData f).device = ch.device := rfl
  rw [mapData, selected_mapData, hdevice, Option.map_map]
  unfold mapData
  rw [Function.update_idem]
  rfl

theorem mapData_id (hf : ∀ data, f data = data) : ch.mapData f = ch := by
  have hmap : (fun drive : AtaDrive => { drive with data := f drive.data }) = id := by
    funext drive
    rw [hf]
    rfl
  unfold mapData
  rw [hmap, Option.map_id, id, selected, Function.update_eq_self]

/-- The `left` words from `words[next]` on are to be read; the drive may be busy first. -/
def Sending (words : Nat → UInt16) (next left : Nat) (ch ch' : AtaChannel) : Prop :=
  if left = 0 then ch' = { ch with phase := .idle, delay := 0 }
  else ∃ delay < ataTimeout, ch' = { ch with phase := .dataIn words next left, delay := delay }

/-- The `left` words for the sectors from word `next` on are to be written. -/
def Taking (next left : Nat) (ch ch' : AtaChannel) : Prop :=
  ∃ delay < ataTimeout,
    ch' = { ch with phase := if left = 0 then .idle else .dataOut next left, delay := delay }

theorem ReadWord.of_dataIn {words : Nat → UInt16} {next left : Nat} {w : UInt16}
    (h : ReadWord w { ch with phase := .dataIn words next (left + 1), delay := 0 } ch') :
    w = words next ∧ if left = 0 then ch' = { ch with phase := .idle, delay := 0 }
      else ∃ delay, DelayAfter left delay ∧
        ch' = { ch with phase := .dataIn words (next + 1) left, delay := delay } :=
  h rfl

theorem WriteWord.of_dataOut {next left : Nat} {w : UInt16}
    (h : WriteWord w { ch with phase := .dataOut next (left + 1), delay := 0 } ch') :
    ∃ delay, DelayAfter left delay ∧
      ch' = { ch.mapData fun data => Function.update data next w with
        phase := if left = 0 then .idle else .dataOut (next + 1) left
        delay := delay } :=
  h rfl

end AtaChannel

/-- A drive that takes no sectors: for programs that are not reached. -/
instance : Inhabited AtaDrive := ⟨⟨fun _ => 0, 0, fun _ => 0, rfl, by decide⟩⟩

instance : Inhabited AtaChannel := ⟨⟨fun _ => some default, ⟨0, 0, 0, 0, 0⟩, .idle, 0⟩⟩

section Driver

open AtaChannel

/-- The result and the buffer of a read, before its ports. -/
def withBuffer {α β γ : Type} (r : α × β × γ) : (α × β) × γ := ((r.1, r.2.1), r.2.2)

variable {c : Bool} {s₀ : AtaChannels} {ch : AtaChannel} {drive : AtaDrive}

theorem AtaChannel.Ready.settled (hready : ch.Ready) :
    { ch with phase := .idle, delay := 0 } = ch := by
  obtain ⟨hphase, hdelay⟩ := hready
  rw [← hphase, ← hdelay]

theorem onlyOn_self (c : Bool) (s : AtaChannels) : OnlyOn c s (· = s c) s :=
  ⟨s c, rfl, (Function.update_eq_self c s).symm⟩

variable (s₀ ch) in
/-- **A wait for a drive** that is busy for less long than the wait. -/
theorem triple_wait (done : UInt8 → Bool) (hsel : ch.selected = some drive)
    (hbusy : ∀ v, statusHas ataStatusBsy v = true → statusHas ataStatusDrq v = false →
      done v = false)
    (hdone : ∀ v, Says v ch.phase → done v = true) :
    ataDevice.Triple (OnlyOn c s₀ fun ch' => ∃ delay < ataTimeout, ch' = { ch with delay := delay })
      (pollPort (channelBase c + ataRegStatus) done ataTimeout)
      fun ok s => ok = true ∧ OnlyOn c s₀ (· = { ch with delay := 0 }) s := by
  refine (triple_pollPort (I := OnlyOn c s₀ fun ch' => ∃ delay, ch' = { ch with delay := delay })
    (fun s => (s c).delay) ?_ ataTimeout).pre ?_
  · rintro _ v t ⟨ch', ⟨delay, rfl⟩, rfl⟩ ht
    obtain ⟨ch', hstatus, rfl⟩ := inb_status ht
    rw [AtaChannel.Status,
      show AtaChannel.selected { ch with delay := delay } = some drive from hsel]
      at hstatus
    dsimp only at hstatus
    rw [Function.update_self, Function.update_self]
    by_cases hdelay : delay = 0
    · rw [if_neg (not_not.mpr hdelay)] at hstatus
      obtain ⟨hanswer, rfl⟩ := hstatus
      exact Or.inl ⟨hdone v hanswer, _, by rw [hdelay], rfl⟩
    · rw [if_pos hdelay] at hstatus
      obtain ⟨hbsy, hdrq, rfl⟩ := hstatus
      exact Or.inr ⟨hbusy v hbsy hdrq, ⟨_, ⟨_, rfl⟩, rfl⟩, by dsimp only; omega⟩
  · rintro s ⟨ch', ⟨delay, hlt, rfl⟩, rfl⟩
    refine ⟨⟨_, ⟨delay, rfl⟩, rfl⟩, ?_⟩
    rw [Function.update_self]
    exact hlt

variable (s₀ ch) in
/-- The words of a sector are read; the drive may then be busy with the next one. -/
theorem triple_readWords (words : Nat → UInt16) {m left : Nat} (hm : m ≤ 256)
    (hleft : left % 256 = 0) (next i : Nat) (buf : Nat → UInt16) :
    ataDevice.Triple
      (OnlyOn c s₀ fun ch' => if m = 0 then Sending words next left ch ch'
        else ch' = { ch with phase := .dataIn words next (m + left), delay := 0 })
      (readWords (channelBase c) m i buf)
      fun buf' s => buf' = copyWords words next i m buf ∧
        OnlyOn c s₀ (Sending words (next + m) left ch) s := by
  induction m generalizing next i buf with
  | zero =>
      refine triple_pure fun s hs => ⟨(copyWords_zero ..).symm, ?_⟩
      simpa using hs
  | succ m ih =>
      refine Device.Triple.bind (f := inw (channelBase c + ataRegData))
        (g := fun w io => readWords (channelBase c) m (i + 1) (Function.update buf i w) io)
        (R := fun w s => w = words next ∧ OnlyOn c s₀ (fun ch' =>
          if m = 0 then Sending words (next + 1) left ch ch'
          else ch' = { ch with phase := .dataIn words (next + 1) (m + left), delay := 0 }) s)
        (triple_inw_data ?_) ?_
      · intro ch₁ w ch' hch hread
        rw [if_neg (Nat.succ_ne_zero m), Nat.add_right_comm] at hch
        rw [hch] at hread
        obtain ⟨hw, hnext⟩ := hread.of_dataIn
        refine ⟨hw, ch', ?_, rfl⟩
        rcases Nat.eq_zero_or_pos m with rfl | hpos
        · -- the sector ends
          rw [Nat.zero_add] at hnext
          rw [if_pos rfl, Sending]
          split at hnext
          · rw [if_pos ‹left = 0›]
            exact hnext
          · rw [if_neg ‹¬left = 0›]
            obtain ⟨delay, hdelay, hch'⟩ := hnext
            exact ⟨delay, hdelay.1, hch'⟩
        · rw [if_neg (by omega)] at hnext ⊢
          obtain ⟨delay, hdelay, rfl⟩ := hnext
          rw [hdelay.2 (by omega)]
      · intro w
        refine ((ih (by omega) (next + 1) (i + 1) (Function.update buf i w)).frame _).post ?_
        rintro buf' s ⟨rfl, rfl, hs⟩
        rw [copyWords_succ]
        rw [Nat.add_assoc, Nat.add_comm 1] at hs
        exact ⟨rfl, hs⟩

variable (s₀) in
/-- **The read loop** gets its sectors. -/
theorem triple_ataReadLoop (words : Nat → UInt16) (hsel : ch.selected = some drive)
    (n sector next : Nat) (buf : Nat → UInt16) :
    ataDevice.Triple (OnlyOn c s₀ (Sending words next (256 * n) ch))
      (fun io => withBuffer (ataReadLoop (channelBase c) n sector buf io))
      fun r s => r = (true, copyWords words next (sector * 256) (256 * n) buf) ∧
        OnlyOn c s₀ (· = { ch with phase := .idle, delay := 0 }) s := by
  induction n generalizing sector next buf with
  | zero =>
      refine triple_pure (b := (true, buf)) fun s hs => ⟨?_, hs⟩
      rw [Nat.mul_zero, copyWords_zero]
  | succ n ih =>
      have hcode : (fun io => withBuffer (ataReadLoop (channelBase c) (n + 1) sector buf io))
          = fun io =>
          let wait := pollPort (channelBase c + ataRegStatus) (statusHas ataStatusDrq) ataTimeout io
          if !wait.1 then ((false, buf), wait.2)
          else
            let words := readWords (channelBase c) 256 (sector * 256) buf wait.2
            withBuffer (ataReadLoop (channelBase c) n (sector + 1) words.1 words.2) := by
        funext io
        rw [ataReadLoop]
        dsimp only
        split <;> rfl
      rw [hcode]
      refine Device.Triple.afterWait
        (p := fun io =>
          let words := readWords (channelBase c) 256 (sector * 256) buf io
          withBuffer (ataReadLoop (channelBase c) n (sector + 1) words.1 words.2))
        ((triple_wait s₀ { ch with phase := .dataIn words next (256 * (n + 1)) } _ hsel
          (fun v _ hdrq => hdrq) fun v hanswer => hanswer.2.2).pre ?_) ?_
      · rintro s ⟨ch', hch', rfl⟩
        rw [Sending, if_neg (by omega)] at hch'
        obtain ⟨delay, hdelay, rfl⟩ := hch'
        exact ⟨_, ⟨delay, hdelay, rfl⟩, rfl⟩
      · refine Device.Triple.bind (f := readWords (channelBase c) 256 (sector * 256) buf)
          (g := fun words io => withBuffer (ataReadLoop (channelBase c) n (sector + 1) words io))
          ((triple_readWords s₀ ch words (Nat.le_refl 256) (Nat.mul_mod_right 256 n) next
            (sector * 256) buf).pre ?_) ?_
        · rintro s ⟨ch', rfl, rfl⟩
          refine ⟨_, ?_, rfl⟩
          simp [Nat.mul_succ, Nat.add_comm 256]
        · intro buf'
          refine ((ih (sector + 1) (next + 256) buf').frame _).post ?_
          rintro r s ⟨rfl, rfl, hs⟩
          rw [Nat.succ_mul sector 256, copyWords_append, Nat.add_comm 256]
          exact ⟨rfl, hs⟩

variable (s₀ ch) in
theorem triple_writeWords (buf : Nat → UInt16) {m left : Nat} (hm : m ≤ 256)
    (hleft : left % 256 = 0) (next i : Nat) :
    ataDevice.Triple
      (OnlyOn c s₀ fun ch' => if m = 0 then Taking next left ch ch'
        else ch' = { ch with phase := .dataOut next (m + left), delay := 0 })
      (fun io => ((), writeWords (channelBase c) buf m i io))
      fun _ s => OnlyOn c s₀ (Taking (next + m) left (ch.mapData (copyWords buf i next m))) s := by
  induction m generalizing next i ch with
  | zero =>
      refine triple_pure fun s hs => ?_
      rw [mapData_id fun data => copyWords_zero ..]
      simpa using hs
  | succ m ih =>
      refine triple_outw_data
        (p := fun io => ((), writeWords (channelBase c) buf m (i + 1) io)) (T := fun ch' =>
          if m = 0 then
            Taking (next + 1) left (ch.mapData fun data => Function.update data next (buf i)) ch'
          else ch' = { ch.mapData fun data => Function.update data next (buf i) with
            phase := .dataOut (next + 1) (m + left), delay := 0 }) ?_ ?_
      · intro ch₁ ch' hch hwrite
        rw [if_neg (Nat.succ_ne_zero m), Nat.add_right_comm] at hch
        rw [hch] at hwrite
        obtain ⟨delay, hdelay, rfl⟩ := hwrite.of_dataOut
        rcases Nat.eq_zero_or_pos m with rfl | hpos
        · rw [if_pos rfl, Nat.zero_add]
          exact ⟨delay, hdelay.1, rfl⟩
        · rw [if_neg (by omega), if_neg (by omega), hdelay.2 (by omega)]
      · refine (ih (ch.mapData fun data => Function.update data next (buf i)) (by omega)
          (next + 1) (i + 1)).post ?_
        intro _ s hs
        rw [mapData_mapData, Nat.add_assoc, Nat.add_comm 1] at hs
        have hcopy : (copyWords buf (i + 1) (next + 1) m ∘
            fun data => Function.update data next (buf i)) = copyWords buf i next (m + 1) := by
          funext data
          exact copyWords_succ ..
        rw [hcopy] at hs
        exact hs

variable (s₀) in
/-- **The write loop** puts its sectors. -/
theorem triple_ataWriteLoop (buf : Nat → UInt16) (hsel : ch.selected = some drive)
    (n sector next : Nat) :
    ataDevice.Triple (OnlyOn c s₀ (Taking next (256 * n) ch))
      (ataWriteLoop (channelBase c) buf n sector)
      fun ok s => ok = true ∧ OnlyOn c s₀
        (Taking (next + 256 * n) 0
          (ch.mapData (copyWords buf (sector * 256) next (256 * n)))) s := by
  induction n generalizing sector next ch drive with
  | zero =>
      refine triple_pure fun s hs => ⟨rfl, ?_⟩
      rw [mapData_id fun data => copyWords_zero ..]
      exact hs
  | succ n ih =>
      refine Device.Triple.afterWait (b := false)
        (p := fun io => ataWriteLoop (channelBase c) buf n (sector + 1)
          (writeWords (channelBase c) buf 256 (sector * 256) io))
        ((triple_wait s₀ { ch with phase := .dataOut next (256 * (n + 1)) } _ hsel
          (fun v _ hdrq => hdrq) fun v hanswer => hanswer.2.2).pre ?_) ?_
      · rintro s ⟨ch', ⟨delay, hdelay, rfl⟩, rfl⟩
        rw [if_neg (by omega)]
        exact ⟨_, ⟨delay, hdelay, rfl⟩, rfl⟩
      · refine ((triple_writeWords s₀ ch buf (Nat.le_refl 256) (Nat.mul_mod_right 256 n) next
          (sector * 256)).pre ?_).seq ?_
        · rintro s ⟨ch', rfl, rfl⟩
          refine ⟨_, ?_, rfl⟩
          simp [Nat.mul_succ, Nat.add_comm 256]
        · have hsel' : (ch.mapData (copyWords buf (sector * 256) next 256)).selected
              = some { drive with data := copyWords buf (sector * 256) next 256 drive.data } := by
            rw [selected_mapData, hsel]
            rfl
          refine (ih hsel' (sector + 1) (next + 256)).post ?_
          rintro ok s ⟨rfl, hs⟩
          have hcopy : (copyWords buf ((sector + 1) * 256) (next + 256) (256 * n) ∘
              copyWords buf (sector * 256) next 256)
              = copyWords buf (sector * 256) next (256 * (n + 1)) := by
            funext data
            rw [Nat.succ_mul sector 256, Nat.mul_succ 256 n, Nat.add_comm (256 * n)]
            exact copyWords_append ..
          rw [mapData_mapData, hcopy, Nat.add_assoc, Nat.add_comm 256, ← Nat.mul_succ 256 n] at hs
          exact ⟨rfl, hs⟩

variable (s₀ ch) in
theorem triple_outb_file {α : Type} {p : Io → α × Io} {Q : α → AtaChannels → Prop}
    (reg : UInt16) {value : UInt8} (hport : ∀ c, portChannel (channelBase c + reg) = some c ∧
      channelBase c + reg ≠ channelBase c + ataRegCommand) (hready : ch.Ready)
    (hp : ataDevice.Triple (OnlyOn c s₀
      (· = ch.withFile (ch.taskFile.write (channelBase c) (channelBase c + reg) value))) p Q) :
    ataDevice.Triple (OnlyOn c s₀ (· = ch)) (fun io => p (outb (channelBase c + reg) value io))
      Q := by
  refine triple_outb_register (hport c).1 hready ?_ hp
  intro ch' h
  rw [if_neg (hport c).2] at h
  exact h

/-- Bytes for registers of a channel. -/
def outbAll (base : UInt16) (writes : List (UInt16 × UInt8)) (io : Io) : Io :=
  writes.foldl (fun io w => outb (base + w.1) w.2 io) io

variable (s₀ ch) in
theorem triple_outbAll {writes : List (UInt16 × UInt8)} (hready : ch.Ready)
    (hport : ∀ w ∈ writes, ∀ c, portChannel (channelBase c + w.1) = some c ∧
      channelBase c + w.1 ≠ channelBase c + ataRegCommand) :
    ataDevice.Triple (OnlyOn c s₀ (· = ch)) (fun io => ((), outbAll (channelBase c) writes io))
      fun _ => OnlyOn c s₀ (· = ch.withFile (writes.foldl
        (fun tf w => tf.write (channelBase c) (channelBase c + w.1) w.2) ch.taskFile)) := by
  induction writes generalizing ch with
  | nil => exact triple_pure fun s hs => hs
  | cons w writes ih =>
      refine triple_outb_file s₀ ch (p := fun io => ((), outbAll (channelBase c) writes io)) w.1
        (hport w (List.mem_cons_self ..)) hready ?_
      exact ih (ch.withFile (ch.taskFile.write (channelBase c) (channelBase c + w.1) w.2))
        hready fun w' hw' => hport w' (List.mem_cons_of_mem w hw')

variable (s₀) in
theorem triple_outb_command (value : UInt8) (hready : ch.Ready) :
    ataDevice.Triple (OnlyOn c s₀ (· = ch))
      (fun io => ((), outb (channelBase c + ataRegCommand) value io))
      fun _ => OnlyOn c s₀ (ch.Command value) := by
  refine triple_outb_register (p := fun io => ((), io)) (T := ch.Command value)
    (portChannel_status c) hready ?_ (triple_pure fun s hs => hs)
  intro ch' h
  rw [if_pos rfl] at h
  exact h

theorem triple_waitReady (hready : ch.Ready) (hsel : ch.selected = some drive) :
    ataDevice.Triple (OnlyOn c s₀ (· = ch))
      (pollPort (channelBase c + ataRegStatus) (statusHas ataStatusRdy) ataTimeout)
      fun ok s => ok = true ∧ OnlyOn c s₀ (· = ch) s := by
  refine (triple_pollPort (I := OnlyOn c s₀ (· = ch)) (fun _ => 0) ?_ ataTimeout).pre
    fun s hs => ⟨hs, by decide⟩
  rintro _ v t ⟨_, rfl, rfl⟩ ht
  obtain ⟨ch', hstatus, rfl⟩ := inb_status ht
  rw [AtaChannel.Status, hsel] at hstatus
  dsimp only at hstatus
  rw [hready.2, if_neg (not_not.mpr rfl), hready.1] at hstatus
  exact Or.inl ⟨hstatus.1.2.1, ch', hstatus.2, rfl⟩

variable (s₀) in
theorem triple_waitEmpty (hsel : ch.selected = none) :
    ataDevice.Triple (OnlyOn c s₀ (· = ch))
      (pollPort (channelBase c + ataRegStatus) (statusHas ataStatusRdy) ataTimeout)
      fun ok s => ok = false ∧ OnlyOn c s₀ (· = ch) s := by
  refine triple_pollPort_never (I := OnlyOn c s₀ (· = ch)) ?_ ataTimeout
  rintro _ v t ⟨_, rfl, rfl⟩ ht
  obtain ⟨ch', hstatus, rfl⟩ := inb_status ht
  rw [AtaChannel.Status, hsel] at hstatus
  obtain ⟨rfl, rfl⟩ := hstatus
  exact ⟨rfl, ch', rfl, rfl⟩

/-- The registers of a command before the command itself. -/
def fileWrites (drv : UInt8) (lba : UInt32) (count : UInt16) : List (UInt16 × UInt8) :=
  [(ataRegDriveHead, driveSelect drv lba), (ataRegSectorCount, count.toUInt8),
    (ataRegLbaLow, (lba &&& 0xFF).toUInt8), (ataRegLbaMid, (lba >>> 8 &&& 0xFF).toUInt8),
    (ataRegLbaHigh, (lba >>> 16 &&& 0xFF).toUInt8)]

theorem fileWrites_registers (drv : UInt8) (lba : UInt32) (count : UInt16) :
    ∀ w ∈ fileWrites drv lba count, ∀ c, portChannel (channelBase c + w.1) = some c ∧
      channelBase c + w.1 ≠ channelBase c + ataRegCommand := by
  have hregs : ∀ reg ∈ [ataRegDriveHead, ataRegSectorCount, ataRegLbaLow, ataRegLbaMid,
      ataRegLbaHigh], ∀ c, portChannel (channelBase c + reg) = some c ∧
        channelBase c + reg ≠ channelBase c + ataRegCommand := by
    intro reg hreg c
    simp only [List.mem_cons, List.not_mem_nil, or_false] at hreg
    rcases hreg with rfl | rfl | rfl | rfl | rfl <;> cases c <;> decide
  exact fun w hw => hregs w.1 (List.mem_map_of_mem (f := Prod.fst) hw)

theorem fileWrites_taskFile (drv : UInt8) (lba : UInt32) (count : UInt16) (c : Bool)
    (tf : TaskFile) : (fileWrites drv lba count).foldl
      (fun tf w => tf.write (channelBase c) (channelBase c + w.1) w.2) tf
        = commandTaskFile drv lba count := by
  cases c <;> rfl

/-- The writes of a command. -/
def sendRest (command drv : UInt8) (lba : UInt32) (count : UInt16) (io : Io) : Bool × Io :=
  (true, outb (channelBase (channelOf drv) + ataRegCommand) command
    (outbAll (channelBase (channelOf drv)) (fileWrites drv lba count) io))

theorem ataSendCommand_eq (command drv : UInt8) (lba : UInt32) (count : UInt16) :
    ataSendCommand command drv lba count = fun io =>
      let wait := pollPort (channelBase (channelOf drv) + ataRegStatus) (statusHas ataStatusRdy)
        ataTimeout io
      if !wait.1 then (false, wait.2) else sendRest command drv lba count wait.2 := by
  funext io
  rw [ataSendCommand, ataBase_eq]
  rfl

variable (s₀ ch) in
theorem triple_sendRest (command drv : UInt8) (lba : UInt32) (count : UInt16)
    (hready : ch.Ready) :
    ataDevice.Triple (OnlyOn (channelOf drv) s₀ (· = ch)) (sendRest command drv lba count)
      fun ok s => ok = true ∧ OnlyOn (channelOf drv) s₀
        ((ch.withFile (commandTaskFile drv lba count)).Command command) s := by
  have hfile := triple_outbAll (c := channelOf drv) s₀ ch hready
    (fileWrites_registers drv lba count)
  rw [fileWrites_taskFile] at hfile
  have hcommand := triple_outb_command (c := channelOf drv) s₀ command
    (hready.withFile (commandTaskFile drv lba count))
  exact hfile.seq (hcommand.seq (p := fun io => (true, io)) (triple_pure fun s hs => ⟨rfl, hs⟩))

variable (s₀) in
/-- **A command is sent** as soon as the drive that is selected before it is ready. -/
theorem triple_ataSendCommand (command drv : UInt8) (lba : UInt32) (count : UInt16)
    (hready : ch.Ready) (hsel : ch.selected = some drive) :
    ataDevice.Triple (OnlyOn (channelOf drv) s₀ (· = ch)) (ataSendCommand command drv lba count)
      fun ok s => ok = true ∧ OnlyOn (channelOf drv) s₀
        ((ch.withFile (commandTaskFile drv lba count)).Command command) s := by
  rw [ataSendCommand_eq]
  exact (triple_waitReady hready hsel).afterWait
    (triple_sendRest s₀ ch command drv lba count hready)

theorem triple_ataSendCommand_empty {s : AtaChannels} {drv : UInt8} (command : UInt8)
    (lba : UInt32) (count : UInt16) (hsel : (s (channelOf drv)).selected = none) :
    ataDevice.Triple (· = s) (ataSendCommand command drv lba count)
      fun ok s' => ok = false ∧ s' = s := by
  rw [ataSendCommand_eq]
  have hwait := triple_waitEmpty (c := channelOf drv) s hsel
  refine (hwait.pre ?_).afterTimeout
    (triple_sendRest default default command drv lba count ⟨rfl, rfl⟩).interacts ?_
  · rintro _ rfl
    exact onlyOn_self ..
  · rintro s' ⟨ch', rfl, rfl⟩
    exact ⟨rfl, Function.update_eq_self ..⟩

/-- The high nibble selects the drive and asks for the number of the sector. -/
theorem driveSelect_bits (drv : UInt8) (lba : UInt32) :
    decide (driveSelect drv lba &&& 0x10 ≠ 0) = isSecond drv ∧
      driveSelect drv lba &&& 0x40 ≠ 0 := by
  have hnibble : (lba >>> 24 &&& 0x0F).toNat < 16 := by
    rw [UInt32.toNat_and]
    exact Nat.lt_succ_of_le Nat.and_le_right
  have hand : ∀ bit : UInt8, (driveSelect drv lba &&& bit).toNat
      = ((if drv % 2 ≠ 0 then 0xF0 else 0xE0) ||| (lba >>> 24 &&& 0x0F).toNat) % 256
        &&& bit.toNat := by
    intro bit
    rw [driveSelect, UInt8.toNat_and, UInt32.toNat_toUInt8, UInt32.toNat_or]
    split <;> rfl
  have hzero : ∀ bit : UInt8, driveSelect drv lba &&& bit = 0 ↔
      ((if drv % 2 ≠ 0 then 0xF0 else 0xE0) ||| (lba >>> 24 &&& 0x0F).toNat) % 256
        &&& bit.toNat = 0 := by
    intro bit
    rw [← hand, ← UInt8.toNat_inj]
    rfl
  have hodd : ∀ n < 16, (0xF0 ||| n) % 256 &&& 16 ≠ 0 ∧ (0xF0 ||| n) % 256 &&& 64 ≠ 0 := by decide
  have heven : ∀ n < 16, (0xE0 ||| n) % 256 &&& 16 = 0 ∧ (0xE0 ||| n) % 256 &&& 64 ≠ 0 := by decide
  unfold isSecond
  rw [decide_eq_decide, ne_eq, ne_eq, ne_eq, hzero, hzero]
  by_cases h : drv % 2 ≠ 0
  · rw [if_pos h]
    exact ⟨iff_of_true (hodd _ hnibble).1 h, (hodd _ hnibble).2⟩
  · rw [if_neg h]
    exact ⟨iff_of_false (not_not.mpr (heven _ hnibble).1) h, (heven _ hnibble).2⟩

/-- The sectors asked for lie on the drive. -/
def AtaDrive.Fits (drive : AtaDrive) (lba : UInt32) (count : UInt16) : Prop :=
  1 ≤ count.toNat ∧ count.toNat ≤ 256 ∧ lba.toNat + count.toNat ≤ drive.sectors

theorem commandTaskFile_device (ch : AtaChannel) (drv : UInt8) (lba : UInt32) (count : UInt16) :
    (ch.withFile (commandTaskFile drv lba count)).selected = ch.drives (isSecond drv) := by
  rw [← (driveSelect_bits drv lba).1]
  rfl

theorem AtaDrive.Fits.inRange {lba : UInt32} {count : UInt16} (h : drive.Fits lba count)
    (drv : UInt8) :
    InRange (commandTaskFile drv lba count) drive ∧
      (commandTaskFile drv lba count).lba = lba.toNat ∧
      (commandTaskFile drv lba count).count = count.toNat := by
  obtain ⟨hpos, hle, hend⟩ := h
  have hsectors := drive.sectors_le
  have hlba : (commandTaskFile drv lba count).lba = lba.toNat := by
    rw [commandTaskFile_lba, Nat.mod_eq_of_lt (by omega)]
  have hcount := commandTaskFile_count drv lba hpos hle
  refine ⟨⟨(driveSelect_bits drv lba).2, ?_⟩, hlba, hcount⟩
  rw [hlba, hcount]
  exact hend

variable {s : AtaChannels} {drive' : AtaDrive} {drv : UInt8} {lba : UInt32} {count : UInt16}

theorem interacts_ataSendCommand (command drv : UInt8) (lba : UInt32) (count : UInt16) :
    Interacts (ataSendCommand command drv lba count) :=
  (triple_ataSendCommand default command drv lba count
    (show (default : AtaChannel).Ready from ⟨rfl, rfl⟩) rfl).interacts

/-- `ata_read_sectors` after the command, if that has been sent. -/
def readRest (drv : UInt8) (count : UInt16) (buf : Nat → UInt16) (sent : Bool) (io : Io) :
    (Int × (Nat → UInt16)) × Io :=
  if !sent then ((-1, buf), io)
  else
    let done := withBuffer (ataReadLoop (channelBase (channelOf drv)) count.toNat 0 buf io)
    ((if done.1.1 then 0 else -1, done.1.2), done.2)

theorem ataReadSectors_eq (drv : UInt8) (lba : UInt32) (count : UInt16) (buf : Nat → UInt16) :
    (fun io => withBuffer (ataReadSectors drv lba count buf io)) = fun io =>
      readRest drv count buf (ataSendCommand ataCmdReadSectors drv lba count io).1
        (ataSendCommand ataCmdReadSectors drv lba count io).2 := by
  funext io
  rw [ataReadSectors, ataBase_eq]
  unfold readRest
  dsimp only
  split <;> rfl

theorem interacts_readRest (drv : UInt8) (count : UInt16) (buf : Nat → UInt16) (sent : Bool) :
    Interacts (readRest drv count buf sent) := by
  cases sent with
  | false => exact Interacts.pure _
  | true =>
      exact (triple_ataReadLoop default (fun _ => 0)
          (show (default : AtaChannel).selected = some _ from rfl)
          count.toNat 0 0 buf).interacts.bind
        (g := fun done io => ((if done.1 then 0 else -1, done.2), io))
        fun done => Interacts.pure ((if done.1 then 0 else -1 : Int), done.2)

/-- **A read** of sectors of a drive that is there, on a channel whose selected drive is there. -/
theorem triple_ataReadSectors (buf : Nat → UInt16) (hready : (s (channelOf drv)).Ready)
    (hsel : (s (channelOf drv)).selected = some drive') (hdrive : driveAt s drv = some drive)
    (hfits : drive.Fits lba count) :
    ataDevice.Triple (· = s) (fun io => withBuffer (ataReadSectors drv lba count buf io))
      fun r s' => r = (0, copyWords drive.data (256 * lba.toNat) 0 (256 * count.toNat) buf) ∧
        s' = Function.update s (channelOf drv)
          ((s (channelOf drv)).withFile (commandTaskFile drv lba count)) := by
  obtain ⟨hrange, hlba, hcount⟩ := hfits.inRange drv
  have hsel' : ((s (channelOf drv)).withFile (commandTaskFile drv lba count)).selected
      = some drive := (commandTaskFile_device ..).trans hdrive
  rw [ataReadSectors_eq]
  refine Device.Triple.bind (g := readRest drv count buf)
    ((triple_ataSendCommand s ataCmdReadSectors drv lba count hready hsel).pre ?_) ?_
  · rintro _ rfl
    exact onlyOn_self ..
  intro ok
  cases ok with
  | false => exact triple_pure fun s hs => absurd hs.1 Bool.false_ne_true
  | true =>
      refine Device.Triple.bind
        (f := fun io => withBuffer (ataReadLoop (channelBase (channelOf drv)) count.toNat 0 buf io))
        (g := fun done io => ((if done.1 then 0 else -1, done.2), io))
        ((triple_ataReadLoop s drive.data hsel' count.toNat 0 (256 * lba.toNat) buf).pre ?_) ?_
      · rintro _ ⟨-, ch', hcommand, rfl⟩
        rw [AtaChannel.Command, hsel'] at hcommand
        obtain ⟨delay, hdelay, rfl⟩ := hcommand.2.1 rfl hrange
        refine ⟨_, ?_, rfl⟩
        have hpos : ¬256 * count.toNat = 0 := by have := hfits.1; omega
        rw [Sending, if_neg hpos]
        refine ⟨delay, hdelay, ?_⟩
        rw [← hlba, ← hcount]
        rfl
      · intro done
        refine triple_pure ?_
        rintro _ ⟨rfl, ch', rfl, rfl⟩
        refine ⟨?_, ?_⟩
        · rw [Nat.zero_mul]
          rfl
        · exact congrArg _ (hready.withFile (commandTaskFile drv lba count)).settled

/-- **A read on a channel whose selected place is empty** gives up. -/
theorem triple_ataReadSectors_empty (lba : UInt32) (count : UInt16) (buf : Nat → UInt16)
    (hsel : (s (channelOf drv)).selected = none) :
    ataDevice.Triple (· = s) (fun io => withBuffer (ataReadSectors drv lba count buf io))
      fun r s' => r = (-1, buf) ∧ s' = s := by
  rw [ataReadSectors_eq]
  refine (triple_ataSendCommand_empty ataCmdReadSectors lba count hsel).bind
    (g := readRest drv count buf) ?_
  intro ok
  cases ok with
  | false => exact triple_pure fun s hs => ⟨rfl, hs.2⟩
  | true =>
      exact ⟨interacts_readRest drv count buf true,
        fun _ _ _ _ hs => absurd hs.1.symm Bool.false_ne_true⟩

/-- `ata_write_sectors` after the command, if that has been sent. -/
def writeRest (drv : UInt8) (count : UInt16) (buf : Nat → UInt16) (sent : Bool) (io : Io) :
    Int × Io :=
  if !sent then (-1, io)
  else
    let done := ataWriteLoop (channelBase (channelOf drv)) buf count.toNat 0 io
    if !done.1 then (-1, done.2)
    else
      let completed := pollPort (channelBase (channelOf drv) + ataRegStatus)
        (fun s => !statusHas ataStatusBsy s) ataTimeout done.2
      (if completed.1 then 0 else -1, completed.2)

theorem ataWriteSectors_eq (drv : UInt8) (lba : UInt32) (count : UInt16) (buf : Nat → UInt16) :
    ataWriteSectors drv lba count buf = fun io =>
      writeRest drv count buf (ataSendCommand ataCmdWriteSectors drv lba count io).1
        (ataSendCommand ataCmdWriteSectors drv lba count io).2 := by
  funext io
  rw [ataWriteSectors, ataBase_eq]
  rfl

/-- **A write** likewise. -/
theorem triple_ataWriteSectors (buf : Nat → UInt16) (hready : (s (channelOf drv)).Ready)
    (hsel : (s (channelOf drv)).selected = some drive') (hdrive : driveAt s drv = some drive)
    (hfits : drive.Fits lba count) :
    ataDevice.Triple (· = s) (ataWriteSectors drv lba count buf)
      fun r s' => r = 0 ∧ s' = Function.update s (channelOf drv)
        (((s (channelOf drv)).withFile (commandTaskFile drv lba count)).mapData
          (copyWords buf 0 (256 * lba.toNat) (256 * count.toNat))) := by
  obtain ⟨hrange, hlba, hcount⟩ := hfits.inRange drv
  have hsel' : ((s (channelOf drv)).withFile (commandTaskFile drv lba count)).selected
      = some drive := (commandTaskFile_device ..).trans hdrive
  rw [ataWriteSectors_eq]
  refine Device.Triple.bind (g := writeRest drv count buf)
    ((triple_ataSendCommand s ataCmdWriteSectors drv lba count hready hsel).pre ?_) ?_
  · rintro _ rfl
    exact onlyOn_self ..
  intro ok
  cases ok with
  | false => exact triple_pure fun s hs => absurd hs.1 Bool.false_ne_true
  | true =>
      refine Device.Triple.bind
        (f := ataWriteLoop (channelBase (channelOf drv)) buf count.toNat 0)
        (g := fun done io => if !done then (-1, io)
          else
            let completed := pollPort (channelBase (channelOf drv) + ataRegStatus)
              (fun s => !statusHas ataStatusBsy s) ataTimeout io
            (if completed.1 then 0 else -1, completed.2))
        ((triple_ataWriteLoop s buf hsel' count.toNat 0 (256 * lba.toNat)).pre ?_) ?_
      · rintro _ ⟨-, ch', hcommand, rfl⟩
        rw [AtaChannel.Command, hsel'] at hcommand
        obtain ⟨delay, hdelay, rfl⟩ := hcommand.2.2 rfl hrange
        refine ⟨_, ⟨delay, hdelay, ?_⟩, rfl⟩
        have hpos : ¬256 * count.toNat = 0 := by have := hfits.1; omega
        rw [if_neg hpos]
        rw [← hlba, ← hcount]
        rfl
      · intro done
        cases done with
        | false => exact triple_pure fun s hs => absurd hs.1 Bool.false_ne_true
        | true =>
            -- the drive may still be busy with the last sector
            refine Device.Triple.bind
              (f := pollPort (channelBase (channelOf drv) + ataRegStatus)
                (fun s => !statusHas ataStatusBsy s) ataTimeout)
              (g := fun ok io => (if ok then 0 else -1, io))
              ((triple_wait s { ((s (channelOf drv)).withFile
                (commandTaskFile drv lba count)).mapData (copyWords buf (0 * 256)
                  (256 * lba.toNat) (256 * count.toNat)) with phase := .idle } _
                (selected_mapData.trans (congrArg _ hsel')) (fun v hbsy _ => by rw [hbsy]; rfl)
                fun v hanswer => by rw [hanswer.1]; rfl).pre ?_) ?_
            · rintro _ ⟨-, ch', ⟨delay, hdelay, rfl⟩, rfl⟩
              exact ⟨_, ⟨delay, hdelay, rfl⟩, rfl⟩
            · intro ok
              refine triple_pure ?_
              rintro _ ⟨rfl, ch', rfl, rfl⟩
              refine ⟨rfl, ?_⟩
              rw [Nat.zero_mul]
              exact congrArg _ ((hready.withFile (commandTaskFile drv lba count)).mapData _).settled

theorem interacts_writeRest (drv : UInt8) (count : UInt16) (buf : Nat → UInt16) (sent : Bool) :
    Interacts (writeRest drv count buf sent) := by
  cases sent with
  | false => exact Interacts.pure _
  | true =>
      refine (triple_ataWriteLoop default buf
          (show (default : AtaChannel).selected = some _ from rfl) count.toNat 0 0).interacts.bind
        (g := fun done io => if !done then (-1, io)
          else
            let completed := pollPort (channelBase (channelOf drv) + ataRegStatus)
              (fun s => !statusHas ataStatusBsy s) ataTimeout io
            (if completed.1 then 0 else -1, completed.2)) ?_
      intro done
      cases done with
      | false => exact Interacts.pure _
      | true =>
          exact (triple_pollPort_never (D := ataDevice) (I := fun _ => False)
            (fun _ _ _ h _ => h.elim) ataTimeout).interacts.bind
            (g := fun ok io => (if ok then 0 else -1, io))
            fun ok => Interacts.pure (if ok then 0 else -1 : Int)

theorem triple_ataWriteSectors_empty (lba : UInt32) (count : UInt16) (buf : Nat → UInt16)
    (hsel : (s (channelOf drv)).selected = none) :
    ataDevice.Triple (· = s) (ataWriteSectors drv lba count buf) fun r s' => r = -1 ∧ s' = s := by
  rw [ataWriteSectors_eq]
  refine (triple_ataSendCommand_empty ataCmdWriteSectors lba count hsel).bind
    (g := writeRest drv count buf) ?_
  intro ok
  cases ok with
  | false => exact triple_pure fun s hs => ⟨rfl, hs.2⟩
  | true =>
      exact ⟨interacts_writeRest drv count buf true,
        fun _ _ _ _ hs => absurd hs.1.symm Bool.false_ne_true⟩

/-! ### Identification -/

/-- `ata_identify_drive` between the selection and the command. -/
def identifyDelay (base : UInt16) (io : Io) : Io :=
  let io := (inb (base + ataRegStatus) io).2
  let io := (inb (base + ataRegStatus) io).2
  let io := (inb (base + ataRegStatus) io).2
  (inb (base + ataRegStatus) io).2

/-- `ata_identify_drive` from the error check on. -/
def identifyRead (base : UInt16) (io : Io) : Option DiskInfo × Io :=
  let status := inb (base + ataRegStatus) io
  if statusHas ataStatusErr status.1 then (none, status.2)
  else
    let drq := pollPort (base + ataRegStatus) (statusHas ataStatusDrq) ataTimeout status.2
    if !drq.1 then (none, drq.2)
    else
      let identifyData := readWords base 256 0 (fun _ => 0) drq.2
      (some (ataDiskInfo identifyData.1), identifyData.2)

/-- `ata_identify_drive` from the wait for the drive on. -/
def identifyWait (base : UInt16) (io : Io) : Option DiskInfo × Io :=
  let ready := pollPort (base + ataRegStatus) (fun s => !statusHas ataStatusBsy s) ataTimeout io
  if !ready.1 then (none, ready.2) else identifyRead base ready.2

theorem ataIdentifyDrive_eq (drv : UInt8) (io : Io) : ataIdentifyDrive drv io =
    let base := channelBase (channelOf drv)
    let io := outb (base + ataRegDriveHead) (if isSecond drv then 0xB0 else 0xA0) io
    let status := inb (base + ataRegStatus)
      (outb (base + ataRegCommand) ataCmdIdentify (identifyDelay base io))
    if status.1 = 0 then (none, status.2) else identifyWait base status.2 := by
  rw [ataIdentifyDrive, ataBase_eq]
  unfold isSecond
  simp only [decide_eq_true_eq]
  rfl

theorem triple_identifyDelay (hready : ch.Ready) :
    ataDevice.Triple (OnlyOn c s₀ (· = ch)) (fun io => ((), identifyDelay (channelBase c) io))
      fun _ => OnlyOn c s₀ (· = ch) := by
  have hread : ataDevice.Triple (OnlyOn c s₀ (· = ch))
      (fun io => ((), (inb (channelBase c + ataRegStatus) io).2))
      fun _ => OnlyOn c s₀ (· = ch) := by
    refine Device.Triple.bind (f := inb (channelBase c + ataRegStatus)) (g := fun _ io => ((), io))
      (R := fun _ => OnlyOn c s₀ (· = ch)) (triple_inb ?_) fun _ => triple_pure fun s hs => hs
    rintro _ v t ⟨_, rfl, rfl⟩ ht
    obtain ⟨ch', hstatus, rfl⟩ := inb_status ht
    refine ⟨ch', ?_, rfl⟩
    rw [AtaChannel.Status] at hstatus
    split at hstatus
    · exact hstatus.2
    · rw [if_neg (not_not.mpr hready.2)] at hstatus
      exact hstatus.2
  exact hread.seq (hread.seq (hread.seq hread))

variable (s₀ ch) in
theorem triple_identifyWait (hsel : ch.selected = some drive) :
    ataDevice.Triple
      (OnlyOn c s₀ fun ch' => ∃ delay < ataTimeout,
        ch' = { ch with phase := .dataIn drive.identify 0 256, delay := delay })
      (identifyWait (channelBase c))
      fun r s => r = some (ataDiskInfo drive.identify) ∧
        OnlyOn c s₀ (· = { ch with phase := .idle, delay := 0 }) s := by
  have hwait := triple_wait s₀ { ch with phase := .dataIn drive.identify 0 256 } (c := c)
    (fun s => !statusHas ataStatusBsy s) hsel (fun v hbsy _ => by rw [hbsy]; rfl)
    fun v hanswer => by rw [hanswer.1]; rfl
  refine hwait.afterWait (p := identifyRead (channelBase c)) ?_
  refine Device.Triple.bind (f := inb (channelBase c + ataRegStatus))
    (g := fun v io => if statusHas ataStatusErr v then (none, io)
      else
        let drq := pollPort (channelBase c + ataRegStatus) (statusHas ataStatusDrq) ataTimeout io
        if !drq.1 then (none, drq.2)
        else
          let identifyData := readWords (channelBase c) 256 0 (fun _ => 0) drq.2
          (some (ataDiskInfo identifyData.1), identifyData.2))
    (R := fun v s => statusHas ataStatusErr v = false ∧
      OnlyOn c s₀ (· = { ch with phase := .dataIn drive.identify 0 256, delay := 0 }) s)
    (triple_inb ?_) ?_
  · rintro _ v t ⟨_, rfl, rfl⟩ ht
    obtain ⟨ch', hstatus, rfl⟩ := inb_status ht
    rw [AtaChannel.Status, show AtaChannel.selected { ch with phase := _, delay := 0 } = some drive
      from hsel] at hstatus
    exact ⟨hstatus.1.2.1, ch', hstatus.2, rfl⟩
  intro v
  by_cases herr : statusHas ataStatusErr v = true
  · simp only [if_pos herr]
    exact triple_pure fun s hs => absurd (hs.1.symm.trans herr) Bool.false_ne_true
  · simp only [if_neg herr]
    have hdrq := triple_wait s₀ { ch with phase := .dataIn drive.identify 0 256 } (c := c)
      (statusHas ataStatusDrq) hsel (fun v _ hdrq => hdrq) fun v hanswer => hanswer.2.2
    refine (hdrq.pre ?_).afterWait (p := fun io =>
      let identifyData := readWords (channelBase c) 256 0 (fun _ => 0) io
      (some (ataDiskInfo identifyData.1), identifyData.2)) ?_
    · rintro s ⟨-, ch', rfl, rfl⟩
      exact ⟨_, ⟨0, by decide, rfl⟩, rfl⟩
    · refine Device.Triple.bind (f := readWords (channelBase c) 256 0 fun _ => 0)
        (g := fun identifyData io => (some (ataDiskInfo identifyData), io))
        ((triple_readWords s₀ ch drive.identify (Nat.le_refl 256) (Nat.zero_mod 256) 0 0 _).pre ?_)
        ?_
      · rintro s ⟨ch', rfl, rfl⟩
        exact ⟨_, rfl, rfl⟩
      · intro identifyData
        refine triple_pure ?_
        rintro s ⟨rfl, hs⟩
        exact ⟨rfl, hs⟩

/-- **The identification of a drive**, which selects it. -/
def identified (s : AtaChannels) (drv : UInt8) : AtaChannels :=
  Function.update s (channelOf drv) ((s (channelOf drv)).withFile
    { (s (channelOf drv)).taskFile with driveHead := if isSecond drv then 0xB0 else 0xA0 })

theorem identified_selected (s : AtaChannels) (drv : UInt8) :
    (identified s drv (channelOf drv)).selected = driveAt s drv := by
  have hbit : ∀ second : Bool,
      decide ((if second then (0xB0 : UInt8) else 0xA0) &&& 0x10 ≠ 0) = second := by decide
  rw [identified, Function.update_self]
  exact congrArg (s (channelOf drv)).drives (hbit (isSecond drv))

variable (s₀) in
theorem triple_identifyStatus (hready : ch.Ready) :
    ataDevice.Triple (OnlyOn c s₀ (ch.Command ataCmdIdentify))
      (fun io =>
        let status := inb (channelBase c + ataRegStatus) io
        if status.1 = 0 then (none, status.2) else identifyWait (channelBase c) status.2)
      fun r s' => r = ch.selected.map (fun drive => ataDiskInfo drive.identify) ∧
        OnlyOn c s₀ (· = ch) s' := by
  cases hsel : ch.selected with
  | none =>
      refine Device.Triple.bind (f := inb (channelBase c + ataRegStatus))
        (g := fun v io => if v = 0 then (none, io) else identifyWait (channelBase c) io)
        (R := fun v s => v = 0 ∧ OnlyOn c s₀ (· = ch) s) (triple_inb ?_) ?_
      · rintro _ v t ⟨ch₁, hcommand, rfl⟩ ht
        rw [AtaChannel.Command, hsel] at hcommand
        obtain ⟨ch', hstatus, rfl⟩ := inb_status ht
        rw [AtaChannel.Status, hcommand, hsel] at hstatus
        exact ⟨hstatus.1, ch', hstatus.2, rfl⟩
      · intro v
        by_cases hv : v = 0
        · simp only [if_pos hv]
          exact triple_pure fun s hs => ⟨rfl, hs.2⟩
        · simp only [if_neg hv]
          exact ⟨(triple_identifyWait s₀ default rfl).interacts,
            fun _ _ _ _ hs => absurd hs.1 hv⟩
  | some drive =>
      refine Device.Triple.bind (f := inb (channelBase c + ataRegStatus))
        (g := fun v io => if v = 0 then (none, io) else identifyWait (channelBase c) io)
        (R := fun v s => v ≠ 0 ∧ OnlyOn c s₀ (fun ch' => ∃ delay < ataTimeout,
          ch' = { ch with phase := .dataIn drive.identify 0 256, delay := delay }) s)
        (triple_inb ?_) ?_
      · rintro _ v t ⟨ch₁, hcommand, rfl⟩ ht
        rw [AtaChannel.Command, hsel] at hcommand
        obtain ⟨delay, hdelay, rfl⟩ := hcommand.1 rfl
        obtain ⟨ch', hstatus, rfl⟩ := inb_status ht
        rw [AtaChannel.Status, show AtaChannel.selected { ch with phase := _, delay := delay }
          = some drive from hsel] at hstatus
        dsimp only at hstatus
        split at hstatus
        · obtain ⟨hbsy, -, rfl⟩ := hstatus
          refine ⟨?_, _, ⟨delay - 1, by omega, rfl⟩, rfl⟩
          rintro rfl
          exact absurd hbsy (by decide)
        · obtain ⟨hanswer, rfl⟩ := hstatus
          refine ⟨?_, _, ⟨delay, hdelay, rfl⟩, rfl⟩
          rintro rfl
          exact absurd hanswer.2.2 (by decide)
      · intro v
        by_cases hv : v = 0
        · simp only [if_pos hv]
          exact triple_pure fun s hs => absurd hv hs.1
        · simp only [if_neg hv]
          refine ((triple_identifyWait s₀ ch hsel).pre fun s hs => hs.2).post ?_
          rintro r s ⟨rfl, hs⟩
          rw [hready.settled] at hs
          exact ⟨rfl, hs⟩

/-- **`ata_identify_drive` finds the drive that is there** and leaves it selected. -/
theorem triple_ataIdentifyDrive (hready : (s (channelOf drv)).Ready) :
    ataDevice.Triple (· = s) (ataIdentifyDrive drv)
      fun r s' => r = (driveAt s drv).map (fun drive => ataDiskInfo drive.identify) ∧
        s' = identified s drv := by
  have hsel := identified_selected s drv
  have hselect : ataDevice.Triple (· = s)
      (fun io => ((), outb (channelBase (channelOf drv) + ataRegDriveHead)
        (if isSecond drv then 0xB0 else 0xA0) io))
      fun _ => OnlyOn (channelOf drv) s (· = identified s drv (channelOf drv)) := by
    refine (triple_outb_file s (s (channelOf drv)) (p := fun io => ((), io)) ataRegDriveHead
      (by decide) hready (triple_pure fun s hs => ?_)).pre ?_
    · have hwrite : ∀ c, ∀ tf : TaskFile, ∀ v, tf.write (channelBase c)
          (channelBase c + ataRegDriveHead) v = { tf with driveHead := v } := by
        intro c tf v
        cases c <;> rfl
      rw [hwrite] at hs
      rw [identified, Function.update_self]
      exact hs
    · rintro _ rfl
      exact onlyOn_self ..
  have hready' : (identified s drv (channelOf drv)).Ready := by
    rw [identified, Function.update_self]
    exact hready
  have hcode : ataIdentifyDrive drv = fun io =>
      let base := channelBase (channelOf drv)
      let io := outb (base + ataRegDriveHead) (if isSecond drv then 0xB0 else 0xA0) io
      let status := inb (base + ataRegStatus)
        (outb (base + ataRegCommand) ataCmdIdentify (identifyDelay base io))
      if status.1 = 0 then (none, status.2) else identifyWait base status.2 :=
    funext (ataIdentifyDrive_eq drv)
  rw [hcode]
  refine (hselect.seq ((triple_identifyDelay hready').seq
    ((triple_outb_command s ataCmdIdentify hready').seq
    (triple_identifyStatus s hready')))).post ?_
  rintro r s' ⟨rfl, ch', rfl, rfl⟩
  refine ⟨congrArg _ hsel, ?_⟩
  rw [identified, Function.update_self]

end Driver

end AceOS.Drivers
