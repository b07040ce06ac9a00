import AceOS.Drivers.Disk
import AceOS.Lib.PortDevice

/-!
# The drives behind the ports

What the disk driver talks to: two ATA channels with two places for a drive each.  The two
drives of a channel share its task file, and the one it selects answers.  An empty place
answers 0.

A drive is busy for a while after a command and after each sector, as long as it likes but for
fewer reads of its status than the driver waits.  While it is busy it does not ask for data.
What a drive does with an access while it is busy or in a transfer, with a request beyond its
end and with a command the driver does not use is left open.
-/

namespace AceOS.Drivers

open PortIo

/-- A drive: the words it identifies itself with and those of its sectors, one sector after the
other. -/
structure AtaDrive where
  identify : Nat → UInt16
  sectors : Nat
  data : Nat → UInt16
  sectors_eq : sectors = (identify 60).toNat + 65536 * (identify 61).toNat
  sectors_le : sectors ≤ 2 ^ 28

/-- A transfer has `left` words to go, the first of which is number `next`. -/
inductive AtaPhase
  | idle
  | dataIn (words : Nat → UInt16) (next left : Nat)
  | dataOut (next left : Nat)

/-- `delay` is the number of reads of the status that still find the drive busy. -/
structure AtaChannel where
  drives : Bool → Option AtaDrive
  taskFile : TaskFile
  phase : AtaPhase
  delay : Nat

namespace AtaChannel

/-- Bit 4 selects the second drive. -/
def device (ch : AtaChannel) : Bool := ch.taskFile.driveHead &&& 0x10 ≠ 0

def selected (ch : AtaChannel) : Option AtaDrive := ch.drives ch.device

/-- Neither busy nor in a transfer. -/
def Ready (ch : AtaChannel) : Prop := ch.phase = .idle ∧ ch.delay = 0

def withFile (tf : TaskFile) (ch : AtaChannel) : AtaChannel := { ch with taskFile := tf }

/-- A change of the sectors of the selected drive. -/
def mapData (f : (Nat → UInt16) → Nat → UInt16) (ch : AtaChannel) : AtaChannel :=
  { ch with
    drives := Function.update ch.drives ch.device
      (ch.selected.map fun drive => { drive with data := f drive.data }) }

theorem Ready.withFile {ch : AtaChannel} (h : ch.Ready) (tf : TaskFile) : (ch.withFile tf).Ready :=
  h

theorem Ready.mapData {ch : AtaChannel} (h : ch.Ready) (f : (Nat → UInt16) → Nat → UInt16) :
    (ch.mapData f).Ready := h

/-- What the status `v` of a drive says that is not busy. -/
def Says (v : UInt8) (phase : AtaPhase) : Prop :=
  statusHas ataStatusBsy v = false ∧
    match phase with
    | .idle => statusHas ataStatusRdy v = true ∧ statusHas ataStatusDrq v = false
    | _ => statusHas ataStatusErr v = false ∧ statusHas ataStatusDrq v = true

/-- The status is read as `v`. -/
def Status (v : UInt8) (ch ch' : AtaChannel) : Prop :=
  match ch.selected with
  | none => v = 0 ∧ ch' = ch
  | some _ =>
      if ch.delay ≠ 0 then
        statusHas ataStatusBsy v = true ∧ statusHas ataStatusDrq v = false ∧
          ch' = { ch with delay := ch.delay - 1 }
      else Says v ch.phase ∧ ch' = ch

/-- After a word, with `left` to go: busy only where a sector ends. -/
def DelayAfter (left delay : Nat) : Prop := delay < ataTimeout ∧ (left % 256 ≠ 0 → delay = 0)

/-- A word is read as `w`; after the last one the drive is ready. -/
def ReadWord (w : UInt16) (ch ch' : AtaChannel) : Prop :=
  match ch.phase with
  | .dataIn words next (left + 1) => ch.delay = 0 → w = words next ∧
      if left = 0 then ch' = { ch with phase := .idle, delay := 0 }
      else ∃ delay, DelayAfter left delay ∧
        ch' = { ch with phase := .dataIn words (next + 1) left, delay := delay }
  | _ => True

/-- The word `w` is written; after the last one the drive is busy with it. -/
def WriteWord (w : UInt16) (ch ch' : AtaChannel) : Prop :=
  match ch.phase with
  | .dataOut next (left + 1) => ch.delay = 0 → ∃ delay, DelayAfter left delay ∧
      ch' = { ch.mapData fun data => Function.update data next w with
        phase := if left = 0 then .idle else .dataOut (next + 1) left
        delay := delay }
  | _ => True

/-- The task file is that of sectors of the drive, addressed by their number. -/
def InRange (tf : TaskFile) (drive : AtaDrive) : Prop :=
  tf.driveHead &&& 0x40 ≠ 0 ∧ tf.lba + tf.count ≤ drive.sectors

/-- The command is given to the drive that is selected. -/
def Command (command : UInt8) (ch ch' : AtaChannel) : Prop :=
  match ch.selected with
  | none => ch' = ch
  | some drive =>
      (command = ataCmdIdentify → ∃ delay < ataTimeout,
        ch' = { ch with phase := .dataIn drive.identify 0 256, delay := delay }) ∧
      (command = ataCmdReadSectors → InRange ch.taskFile drive → ∃ delay < ataTimeout,
        ch' = { ch with
          phase := .dataIn drive.data (256 * ch.taskFile.lba) (256 * ch.taskFile.count)
          delay := delay }) ∧
      (command = ataCmdWriteSectors → InRange ch.taskFile drive → ∃ delay < ataTimeout,
        ch' = { ch with
          phase := .dataOut (256 * ch.taskFile.lba) (256 * ch.taskFile.count)
          delay := delay })

/-- A byte for a register of the channel at `base`. -/
def Outb (base port : UInt16) (value : UInt8) (ch ch' : AtaChannel) : Prop :=
  ch.Ready → if port = base + ataRegCommand then ch.Command value ch'
    else ch' = ch.withFile (ch.taskFile.write base port value)

end AtaChannel

/-! ### The two channels -/

/-- The primary channel is `false`. -/
abbrev AtaChannels := Bool → AtaChannel

def channelBase (c : Bool) : UInt16 := if c then ataSecondaryBase else ataPrimaryBase

def portChannel (port : UInt16) : Option Bool :=
  if ataPrimaryBase ≤ port ∧ port ≤ ataPrimaryBase + 7 then some false
  else if ataSecondaryBase ≤ port ∧ port ≤ ataSecondaryBase + 7 then some true
  else none

/-- The channel of the port takes a step. -/
def OnChannel (port : UInt16) (R : Bool → AtaChannel → AtaChannel → Prop) (s s' : AtaChannels) :
    Prop :=
  match portChannel port with
  | none => s' = s
  | some c => ∃ ch, R c (s c) ch ∧ s' = Function.update s c ch

def ataDevice : Device AtaChannels where
  outb port value := OnChannel port fun c ch => ch.Outb (channelBase c) port value
  outw port value := OnChannel port fun c ch ch' =>
    if port = channelBase c + ataRegData then ch.WriteWord value ch' else ch' = ch
  inb port v := OnChannel port fun c ch ch' =>
    if port = channelBase c + ataRegStatus then ch.Status v ch' else ch' = ch
  inw port w := OnChannel port fun c ch ch' =>
    if port = channelBase c + ataRegData then ch.ReadWord w ch' else ch' = ch

def channelOf (drive : UInt8) : Bool := ¬drive < 2

def isSecond (drive : UInt8) : Bool := drive % 2 ≠ 0

def driveAt (s : AtaChannels) (drive : UInt8) : Option AtaDrive :=
  (s (channelOf drive)).drives (isSecond drive)

theorem ataBase_eq (drive : UInt8) : ataBase drive = channelBase (channelOf drive) := by
  unfold ataBase channelBase channelOf
  by_cases h : drive < 2 <;> simp [h]

/-- Only channel `c` differs from `s₀`, in which it is as `R` says. -/
def OnlyOn (c : Bool) (s₀ : AtaChannels) (R : AtaChannel → Prop) (s : AtaChannels) : Prop :=
  ∃ ch, R ch ∧ s = Function.update s₀ c ch

section Access

variable {α : Type} {c : Bool} {s₀ : AtaChannels} {R T : AtaChannel → Prop}

theorem OnlyOn.step {S : Bool → AtaChannel → AtaChannel → Prop} {port : UInt16}
    {s s' : AtaChannels} (h : OnlyOn c s₀ R s) (hport : portChannel port = some c)
    (hs : OnChannel port S s s') : ∃ ch ch', R ch ∧ S c ch ch' ∧ s' = Function.update s₀ c ch' := by
  obtain ⟨ch, hch, rfl⟩ := h
  unfold OnChannel at hs
  rw [hport] at hs
  obtain ⟨ch', hch', rfl⟩ := hs
  rw [Function.update_self] at hch'
  exact ⟨ch, ch', hch, hch', Function.update_idem ..⟩

variable {port value : UInt16} {v : UInt8} {w : UInt16} {s s' : AtaChannels}

theorem ataDevice_outb : ataDevice.outb port v s s' = OnChannel port (fun c ch =>
    ch.Outb (channelBase c) port v) s s' := rfl

theorem ataDevice_outw : ataDevice.outw port value s s' = OnChannel port (fun c ch ch' =>
    if port = channelBase c + ataRegData then ch.WriteWord value ch' else ch' = ch) s s' := rfl

theorem ataDevice_inb : ataDevice.inb port v s s' = OnChannel port (fun c ch ch' =>
    if port = channelBase c + ataRegStatus then ch.Status v ch' else ch' = ch) s s' := rfl

theorem ataDevice_inw : ataDevice.inw port w s s' = OnChannel port (fun c ch ch' =>
    if port = channelBase c + ataRegData then ch.ReadWord w ch' else ch' = ch) s s' := rfl

theorem portChannel_status (c : Bool) : portChannel (channelBase c + ataRegStatus) = some c := by
  cases c <;> rfl

theorem portChannel_data (c : Bool) : portChannel (channelBase c + ataRegData) = some c := by
  cases c <;> rfl

theorem inb_status {ch : AtaChannel}
    (hs : ataDevice.inb (channelBase c + ataRegStatus) v (Function.update s₀ c ch) s') :
    ∃ ch', ch.Status v ch' ∧ s' = Function.update s₀ c ch' := by
  rw [ataDevice_inb] at hs
  have hch : OnlyOn c s₀ (· = ch) (Function.update s₀ c ch) := ⟨ch, rfl, rfl⟩
  obtain ⟨_, ch', rfl, hch', hs'⟩ := hch.step (portChannel_status c) hs
  rw [if_pos rfl] at hch'
  exact ⟨ch', hch', hs'⟩

theorem triple_inw_data {Q : UInt16 → AtaChannels → Prop}
    (h : ∀ ch w ch', R ch → ch.ReadWord w ch' → Q w (Function.update s₀ c ch')) :
    ataDevice.Triple (OnlyOn c s₀ R) (inw (channelBase c + ataRegData)) Q := by
  refine triple_inw ?_
  intro s w s' hR hs
  rw [ataDevice_inw] at hs
  obtain ⟨ch, ch', hch, hch', rfl⟩ := hR.step (portChannel_data c) hs
  rw [if_pos rfl] at hch'
  exact h ch w ch' hch hch'

theorem triple_outw_data {value : UInt16} {p : Io → α × Io} {Q : α → AtaChannels → Prop}
    (h : ∀ ch ch', R ch → ch.WriteWord value ch' → T ch')
    (hp : ataDevice.Triple (OnlyOn c s₀ T) p Q) :
    ataDevice.Triple (OnlyOn c s₀ R)
      (fun io => p (outw (channelBase c + ataRegData) value io)) Q := by
  refine triple_outw ?_ hp
  intro s s' hR hs
  rw [ataDevice_outw] at hs
  obtain ⟨ch, ch', hch, hch', rfl⟩ := hR.step (portChannel_data c) hs
  rw [if_pos rfl] at hch'
  exact ⟨ch', h ch ch' hch hch', rfl⟩

theorem triple_outb_register {port : UInt16} {value : UInt8} {ch : AtaChannel}
    {p : Io → α × Io} {Q : α → AtaChannels → Prop} (hport : portChannel port = some c)
    (hready : ch.Ready)
    (h : ∀ ch', (if port = channelBase c + ataRegCommand then ch.Command value ch'
      else ch' = ch.withFile (ch.taskFile.write (channelBase c) port value)) → T ch')
    (hp : ataDevice.Triple (OnlyOn c s₀ T) p Q) :
    ataDevice.Triple (OnlyOn c s₀ (· = ch)) (fun io => p (outb port value io)) Q := by
  refine triple_outb ?_ hp
  intro s s' hR hs
  rw [ataDevice_outb] at hs
  obtain ⟨ch₁, ch', rfl, hch', rfl⟩ := hR.step hport hs
  exact ⟨ch', h ch' (hch' hready), rfl⟩

end Access

/-! ### Every access has an answer -/

section Total

theorem onChannel_total {R : Bool → AtaChannel → AtaChannel → Prop} (h : ∀ c ch, ∃ ch', R c ch ch')
    (port : UInt16) (s : AtaChannels) : ∃ t, OnChannel port R s t := by
  unfold OnChannel
  cases portChannel port with
  | none => exact ⟨s, rfl⟩
  | some c =>
      obtain ⟨ch, hch⟩ := h c (s c)
      exact ⟨_, ch, hch, rfl⟩

theorem onChannel_total_read {α : Type} [Inhabited α]
    {R : α → Bool → AtaChannel → AtaChannel → Prop} (h : ∀ c ch, ∃ v ch', R v c ch ch')
    (port : UInt16) (s : AtaChannels) :
    ∃ v t, OnChannel port (R v) s t := by
  unfold OnChannel
  cases portChannel port with
  | none => exact ⟨default, s, rfl⟩
  | some c =>
      obtain ⟨v, ch, hch⟩ := h c (s c)
      exact ⟨v, _, ch, hch, rfl⟩

namespace AtaChannel

theorem exists_status (ch : AtaChannel) : ∃ v ch', ch.Status v ch' := by
  unfold Status
  cases ch.selected with
  | none => exact ⟨0, ch, rfl, rfl⟩
  | some drive =>
      dsimp only
      by_cases hbusy : ch.delay ≠ 0
      · simp only [if_pos hbusy]
        exact ⟨0x80, _, by decide, by decide, rfl⟩
      · simp only [if_neg hbusy]
        unfold Says
        cases ch.phase with
        | idle => exact ⟨0x40, ch, by decide, rfl⟩
        | dataIn | dataOut => exact ⟨0x08, ch, ⟨by decide, by decide, by decide⟩, rfl⟩

theorem exists_readWord (ch : AtaChannel) : ∃ w ch', ch.ReadWord w ch' := by
  unfold ReadWord
  cases ch.phase with
  | idle | dataOut => exact ⟨0, ch, trivial⟩
  | dataIn words next left =>
      cases left with
      | zero => exact ⟨0, ch, trivial⟩
      | succ left =>
          by_cases hlast : left = 0
          · simp only [if_pos hlast]
            exact ⟨words next, _, fun _ => ⟨rfl, rfl⟩⟩
          · simp only [if_neg hlast]
            exact ⟨words next, _, fun _ => ⟨rfl, 0, ⟨by decide, fun _ => rfl⟩, rfl⟩⟩

theorem exists_writeWord (w : UInt16) (ch : AtaChannel) : ∃ ch', ch.WriteWord w ch' := by
  unfold WriteWord
  cases ch.phase with
  | idle | dataIn => exact ⟨ch, trivial⟩
  | dataOut next left =>
      cases left with
      | zero => exact ⟨ch, trivial⟩
      | succ left => exact ⟨_, fun _ => ⟨0, ⟨by decide, fun _ => rfl⟩, rfl⟩⟩

theorem exists_command (command : UInt8) (ch : AtaChannel) : ∃ ch', ch.Command command ch' := by
  unfold Command
  cases ch.selected with
  | none => exact ⟨ch, rfl⟩
  | some drive =>
      dsimp only
      -- it is one of the three commands at most
      by_cases hidentify : command = ataCmdIdentify
      · subst hidentify
        exact ⟨_, fun _ => ⟨0, by decide, rfl⟩, fun h => absurd h (by decide),
          fun h => absurd h (by decide)⟩
      by_cases hread : command = ataCmdReadSectors
      · subst hread
        exact ⟨_, fun h => absurd h (by decide), fun _ _ => ⟨0, by decide, rfl⟩,
          fun h => absurd h (by decide)⟩
      exact ⟨_, fun h => absurd h hidentify, fun h => absurd h hread,
        fun _ _ => ⟨0, by decide, rfl⟩⟩

theorem exists_outb (base port : UInt16) (value : UInt8) (ch : AtaChannel) :
    ∃ ch', ch.Outb base port value ch' := by
  unfold Outb
  by_cases hport : port = base + ataRegCommand
  · simp only [if_pos hport]
    obtain ⟨ch', h⟩ := ch.exists_command value
    exact ⟨ch', fun _ => h⟩
  · simp only [if_neg hport]
    exact ⟨_, fun _ => rfl⟩

end AtaChannel

/-- **The drives answer everything.** -/
theorem ataDevice_total : ataDevice.Total where
  outb port value s := by
    simp only [ataDevice_outb]
    exact onChannel_total (fun c ch => ch.exists_outb (channelBase c) port value) port s
  outw port value s := by
    simp only [ataDevice_outw]
    refine onChannel_total (fun c ch => ?_) port s
    by_cases hdata : port = channelBase c + ataRegData
    · simp only [if_pos hdata]
      exact ch.exists_writeWord value
    · simp only [if_neg hdata]
      exact ⟨ch, rfl⟩
  inb port s := by
    simp only [ataDevice_inb]
    refine onChannel_total_read (fun c ch => ?_) port s
    by_cases hstatus : port = channelBase c + ataRegStatus
    · simp only [if_pos hstatus]
      exact ch.exists_status
    · simp only [if_neg hstatus]
      exact ⟨0, ch, rfl⟩
  inw port s := by
    simp only [ataDevice_inw]
    refine onChannel_total_read (fun c ch => ?_) port s
    by_cases hdata : port = channelBase c + ataRegData
    · simp only [if_pos hdata]
      exact ch.exists_readWord
    · simp only [if_neg hdata]
      exact ⟨0, ch, rfl⟩

end Total

end AceOS.Drivers
