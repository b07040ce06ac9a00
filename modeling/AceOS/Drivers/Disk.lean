import Mathlib.Algebra.Ring.Nat
import AceOS.Lib.PortIo

/-!
# The disks (`src/drivers/disk.c`, `src/include/disk.h`)

`ata_read_sectors` and `ata_write_sectors` put a 32-bit address and a 16-bit count into the 28
and 8 bits of the task file without a check.  A drive decodes a command by the rules of
`TaskFile`, so that a request which no task file stands for is not refused but changed
(`ata_sectors_iff`).  `lba_to_chs` narrows the cylinder to 16 bits (`chs_lba_iff`).

The buffer of a transfer is its words.  The names a drive gives itself are left out.
-/

namespace AceOS.Drivers

open PortIo

/-! ### The code -/

abbrev diskTypeAta : UInt8 := 2

abbrev ataPrimaryBase : UInt16 := 0x1F0
abbrev ataSecondaryBase : UInt16 := 0x170

abbrev ataRegData : UInt16 := 0
abbrev ataRegSectorCount : UInt16 := 2
abbrev ataRegLbaLow : UInt16 := 3
abbrev ataRegLbaMid : UInt16 := 4
abbrev ataRegLbaHigh : UInt16 := 5
abbrev ataRegDriveHead : UInt16 := 6
abbrev ataRegStatus : UInt16 := 7
abbrev ataRegCommand : UInt16 := 7

abbrev ataStatusBsy : UInt8 := 0x80
abbrev ataStatusRdy : UInt8 := 0x40
abbrev ataStatusDrq : UInt8 := 0x08
abbrev ataStatusErr : UInt8 := 0x01

abbrev ataCmdReadSectors : UInt8 := 0x20
abbrev ataCmdWriteSectors : UInt8 := 0x30
abbrev ataCmdIdentify : UInt8 := 0xEC

abbrev maxDrives : UInt8 := 4

/-- The bound of the waits. -/
abbrev ataTimeout : Nat := 1000000

structure DiskGeometry where
  cylinders : UInt32
  heads : UInt32
  sectorsPerTrack : UInt32
  sectorSize : UInt32
  totalSectors : UInt32
  deriving DecidableEq

structure DiskInfo where
  driveNumber : UInt8
  diskType : UInt8
  totalSectors : UInt32
  sectorSize : UInt32
  geometry : DiskGeometry
  present : Bool
  deriving DecidableEq

def ataBase (drive : UInt8) : UInt16 := if drive < 2 then ataPrimaryBase else ataSecondaryBase

def statusHas (bit status : UInt8) : Bool := status &&& bit ≠ 0

/-- `n` words from the data port into `buf[i]` and the words after it. -/
def readWords (base : UInt16) : (n i : Nat) → (Nat → UInt16) → Io → (Nat → UInt16) × Io
  | 0, _, buf, io => (buf, io)
  | n + 1, i, buf, io =>
      let (word, io) := inw (base + ataRegData) io
      readWords base n (i + 1) (Function.update buf i word) io

/-- `n` words from `buf[i]` on to the data port. -/
def writeWords (base : UInt16) (buf : Nat → UInt16) : (n i : Nat) → Io → Io
  | 0, _, io => io
  | n + 1, i, io => writeWords base buf n (i + 1) (outw (base + ataRegData) (buf i) io)

/-- What `ata_identify_drive` makes of the words 60 and 61. -/
def ataDiskInfo (identifyData : Nat → UInt16) : DiskInfo :=
  let totalSectors := (identifyData 60).toUInt32 ||| (identifyData 61).toUInt32 <<< 16
  { driveNumber := 0
    diskType := 0
    totalSectors := totalSectors
    sectorSize := 512
    geometry :=
      { cylinders := totalSectors / (63 * 16)
        heads := 16
        sectorsPerTrack := 63
        sectorSize := 512
        totalSectors := totalSectors }
    present := false }

def ataIdentifyDrive (drive : UInt8) (io : Io) : Option DiskInfo × Io :=
  let base := ataBase drive
  let io := outb (base + ataRegDriveHead) (if drive % 2 ≠ 0 then 0xB0 else 0xA0) io
  let io := (inb (base + ataRegStatus) io).2
  let io := (inb (base + ataRegStatus) io).2
  let io := (inb (base + ataRegStatus) io).2
  let io := (inb (base + ataRegStatus) io).2
  let io := outb (base + ataRegCommand) ataCmdIdentify io
  let status := inb (base + ataRegStatus) io
  if status.1 = 0 then (none, status.2)
  else
    let ready := pollPort (base + ataRegStatus) (fun s => !statusHas ataStatusBsy s) ataTimeout
      status.2
    if !ready.1 then (none, ready.2)
    else
      let status := inb (base + ataRegStatus) ready.2
      if statusHas ataStatusErr status.1 then (none, status.2)
      else
        let drq := pollPort (base + ataRegStatus) (statusHas ataStatusDrq) ataTimeout status.2
        if !drq.1 then (none, drq.2)
        else
          let identifyData := readWords base 256 0 (fun _ => 0) drq.2
          (some (ataDiskInfo identifyData.1), identifyData.2)

/-- The drives `i` of the list in turn. -/
def diskDetectDrives : List UInt8 → Io → List DiskInfo × Io
  | [], io => ([], io)
  | i :: is, io =>
      let found := ataIdentifyDrive i io
      let rest := diskDetectDrives is found.2
      match found.1 with
      | some info => ({ info with driveNumber := i, diskType := diskTypeAta, present := true } ::
          rest.1, rest.2)
      | none => rest

/-- `disk_init`: the drives found. -/
def diskInit (io : Io) : List DiskInfo × Io := diskDetectDrives [0, 1, 2, 3] io

def diskGetInfo (drives : List DiskInfo) (drive : UInt8) : Option DiskInfo :=
  if maxDrives ≤ drive then none
  else drives.find? fun info => info.driveNumber = drive ∧ info.present = true

/-- `((drive % 2) ? 0xF0 : 0xE0) | ((lba >> 24) & 0x0F)`. -/
def driveSelect (drive : UInt8) (lba : UInt32) : UInt8 :=
  let select : UInt32 := if drive % 2 ≠ 0 then 0xF0 else 0xE0
  (select ||| (lba >>> 24 &&& 0x0F)).toUInt8

/-- What reads and writes begin with: the wait for the drive and the task file.  The result
tells whether the command has been sent. -/
def ataSendCommand (command drive : UInt8) (lba : UInt32) (count : UInt16) (io : Io) : Bool × Io :=
  let base := ataBase drive
  let ready := pollPort (base + ataRegStatus) (statusHas ataStatusRdy) ataTimeout io
  if !ready.1 then (false, ready.2)
  else
    let io := outb (base + ataRegDriveHead) (driveSelect drive lba) ready.2
    let io := outb (base + ataRegSectorCount) count.toUInt8 io
    let io := outb (base + ataRegLbaLow) (lba &&& 0xFF).toUInt8 io
    let io := outb (base + ataRegLbaMid) (lba >>> 8 &&& 0xFF).toUInt8 io
    let io := outb (base + ataRegLbaHigh) (lba >>> 16 &&& 0xFF).toUInt8 io
    (true, outb (base + ataRegCommand) command io)

/-- The loop over the sectors of a read, with `n` sectors to go. -/
def ataReadLoop (base : UInt16) : (n sector : Nat) → (Nat → UInt16) → Io →
    Bool × (Nat → UInt16) × Io
  | 0, _, buf, io => (true, buf, io)
  | n + 1, sector, buf, io =>
      let drq := pollPort (base + ataRegStatus) (statusHas ataStatusDrq) ataTimeout io
      if !drq.1 then (false, buf, drq.2)
      else
        let words := readWords base 256 (sector * 256) buf drq.2
        ataReadLoop base n (sector + 1) words.1 words.2

/-- The loop over the sectors of a write. -/
def ataWriteLoop (base : UInt16) (buf : Nat → UInt16) : (n sector : Nat) → Io → Bool × Io
  | 0, _, io => (true, io)
  | n + 1, sector, io =>
      let drq := pollPort (base + ataRegStatus) (statusHas ataStatusDrq) ataTimeout io
      if !drq.1 then (false, drq.2)
      else ataWriteLoop base buf n (sector + 1) (writeWords base buf 256 (sector * 256) drq.2)

def ataReadSectors (drive : UInt8) (lba : UInt32) (count : UInt16) (buf : Nat → UInt16) (io : Io) :
    Int × (Nat → UInt16) × Io :=
  let sent := ataSendCommand ataCmdReadSectors drive lba count io
  if !sent.1 then (-1, buf, sent.2)
  else
    let done := ataReadLoop (ataBase drive) count.toNat 0 buf sent.2
    (if done.1 then 0 else -1, done.2)

def ataWriteSectors (drive : UInt8) (lba : UInt32) (count : UInt16) (buf : Nat → UInt16)
    (io : Io) : Int × Io :=
  let sent := ataSendCommand ataCmdWriteSectors drive lba count io
  if !sent.1 then (-1, sent.2)
  else
    let done := ataWriteLoop (ataBase drive) buf count.toNat 0 sent.2
    if !done.1 then (-1, done.2)
    else
      let completed := pollPort (ataBase drive + ataRegStatus)
        (fun s => !statusHas ataStatusBsy s) ataTimeout done.2
      (if completed.1 then 0 else -1, completed.2)

/-- `floppy_read_sectors` and the unknown types return -1 as well. -/
def diskReadSectors (drives : List DiskInfo) (drive : UInt8) (lba : UInt32) (count : UInt16)
    (buf : Nat → UInt16) (io : Io) : Int × (Nat → UInt16) × Io :=
  match diskGetInfo drives drive with
  | none => (-1, buf, io)
  | some info =>
      if info.diskType = diskTypeAta then ataReadSectors drive lba count buf io else (-1, buf, io)

def diskWriteSectors (drives : List DiskInfo) (drive : UInt8) (lba : UInt32) (count : UInt16)
    (buf : Nat → UInt16) (io : Io) : Int × Io :=
  match diskGetInfo drives drive with
  | none => (-1, io)
  | some info =>
      if info.diskType = diskTypeAta then ataWriteSectors drive lba count buf io else (-1, io)

def chsToLba (cylinder : UInt16) (head sector : UInt8) (geom : DiskGeometry) : UInt32 :=
  (cylinder.toUInt32 * geom.heads + head.toUInt32) * geom.sectorsPerTrack + (sector.toUInt32 - 1)

/-- `*cylinder`, `*head` and `*sector`. -/
def lbaToChs (lba : UInt32) (geom : DiskGeometry) : UInt16 × UInt8 × UInt8 :=
  ((lba / (geom.sectorsPerTrack * geom.heads)).toUInt16,
    (lba / geom.sectorsPerTrack % geom.heads).toUInt8,
    (lba % geom.sectorsPerTrack + 1).toUInt8)

/-! ### The task file -/

structure TaskFile where
  sectorCount : UInt8
  lbaLow : UInt8
  lbaMid : UInt8
  lbaHigh : UInt8
  driveHead : UInt8

namespace TaskFile

def lba (tf : TaskFile) : Nat :=
  (tf.driveHead &&& 0x0F).toNat * 2 ^ 24 + tf.lbaHigh.toNat * 2 ^ 16 + tf.lbaMid.toNat * 2 ^ 8 +
    tf.lbaLow.toNat

def count (tf : TaskFile) : Nat := if tf.sectorCount = 0 then 256 else tf.sectorCount.toNat

def write (base port : UInt16) (value : UInt8) (tf : TaskFile) : TaskFile :=
  if port = base + ataRegSectorCount then { tf with sectorCount := value }
  else if port = base + ataRegLbaLow then { tf with lbaLow := value }
  else if port = base + ataRegLbaMid then { tf with lbaMid := value }
  else if port = base + ataRegLbaHigh then { tf with lbaHigh := value }
  else if port = base + ataRegDriveHead then { tf with driveHead := value }
  else tf

end TaskFile

/-- The commands in a log, each with the task file it is decoded from. -/
def commands (base : UInt16) (tf : TaskFile) : List PortEvent → List (UInt8 × TaskFile)
  | [] => []
  | .outb port value :: es =>
      if port = base + ataRegCommand then (value, tf) :: commands base tf es
      else commands base (tf.write base port value) es
  | _ :: es => commands base tf es

def isData (base : UInt16) : PortEvent → Bool
  | .inw port => port = base + ataRegData
  | .outw port _ => port = base + ataRegData
  | _ => false

/-- The sectors of 256 words that are transferred. -/
def sectorsMoved (base : UInt16) (log : List PortEvent) : Nat := log.countP (isData base) / 256

/-- Some task file stands for the request. -/
def Encodable (lba count : Nat) : Prop := ∃ tf : TaskFile, tf.lba = lba ∧ tf.count = count

/-- A command is decoded to the sectors asked for and moves as many as it is decoded to, or
fewer where it fails on the way; what has no task file is refused before any command. -/
structure AddressesSectors (base : UInt16) (tf : TaskFile) (lba : UInt32) (count : UInt16)
    (result : Int) (log : List PortEvent) : Prop where
  decodes : ∀ c tf', (c, tf') ∈ commands base tf log → tf'.lba = lba.toNat ∧
    (sectorsMoved base log = tf'.count ∨ result = -1 ∧ sectorsMoved base log < tf'.count)
  refuses : ¬Encodable lba.toNat count.toNat → result = -1 ∧ commands base tf log = []

theorem TaskFile.lba_eq {tf : TaskFile} {n : Nat} (hlow : tf.lbaLow.toNat = n % 256)
    (hmid : tf.lbaMid.toNat = n / 2 ^ 8 % 256) (hhigh : tf.lbaHigh.toNat = n / 2 ^ 16 % 256)
    (hhead : (tf.driveHead &&& 0x0F).toNat = n / 2 ^ 24 % 16) : tf.lba = n % 2 ^ 28 := by
  rw [TaskFile.lba, hlow, hmid, hhigh, hhead]
  omega

theorem TaskFile.count_eq {tf : TaskFile} {n : Nat} (h : tf.sectorCount.toNat = n % 256)
    (hpos : 1 ≤ n) (hle : n ≤ 256) : tf.count = n := by
  have hzero : tf.sectorCount = 0 ↔ n % 256 = 0 := by
    rw [← UInt8.toNat_inj, h]
    exact Iff.rfl
  rw [TaskFile.count]
  split
  · rename_i h0
    have := hzero.mp h0
    omega
  · rename_i h0
    have := mt hzero.mpr h0
    omega

theorem encodable_iff (lba count : Nat) : Encodable lba count ↔
    lba < 2 ^ 28 ∧ 1 ≤ count ∧ count ≤ 256 := by
  constructor
  · rintro ⟨tf, rfl, rfl⟩
    have h₁ := tf.lbaLow.toNat_lt
    have h₂ := tf.lbaMid.toNat_lt
    have h₃ := tf.lbaHigh.toNat_lt
    have h₄ : (tf.driveHead &&& 0x0F).toNat < 16 := by
      rw [UInt8.toNat_and]
      exact Nat.lt_succ_of_le Nat.and_le_right
    refine ⟨?_, ?_, ?_⟩
    · rw [TaskFile.lba]
      omega
    · rw [TaskFile.count]
      split
      · decide
      · rename_i h0
        rw [← UInt8.toNat_inj] at h0
        exact Nat.pos_of_ne_zero h0
    · have hlt := tf.sectorCount.toNat_lt
      rw [TaskFile.count]
      split <;> omega
  · rintro ⟨hlba, hpos, hle⟩
    refine ⟨⟨UInt8.ofNat count, UInt8.ofNat lba, UInt8.ofNat (lba / 2 ^ 8),
      UInt8.ofNat (lba / 2 ^ 16), UInt8.ofNat (lba / 2 ^ 24)⟩, ?_, ?_⟩
    · have hnibble : lba / 2 ^ 24 < 2 ^ 4 := by omega
      rw [TaskFile.lba_eq UInt8.toNat_ofNat' UInt8.toNat_ofNat' UInt8.toNat_ofNat' ?_,
        Nat.mod_eq_of_lt hlba]
      rw [UInt8.toNat_and, UInt8.toNat_ofNat', Nat.mod_eq_of_lt (by omega)]
      exact (Nat.and_two_pow_sub_one_of_lt_two_pow hnibble).trans (Nat.mod_eq_of_lt hnibble).symm
    · exact TaskFile.count_eq UInt8.toNat_ofNat' hpos hle

/-! ### What a transfer accesses -/

/-- The accesses that send a command. -/
def commandEvents (command drive : UInt8) (lba : UInt32) (count : UInt16) : List PortEvent :=
  let base := ataBase drive
  [.outb (base + ataRegDriveHead) (driveSelect drive lba),
    .outb (base + ataRegSectorCount) count.toUInt8,
    .outb (base + ataRegLbaLow) (lba &&& 0xFF).toUInt8,
    .outb (base + ataRegLbaMid) (lba >>> 8 &&& 0xFF).toUInt8,
    .outb (base + ataRegLbaHigh) (lba >>> 16 &&& 0xFF).toUInt8,
    .outb (base + ataRegCommand) command]

/-- The task file they leave. -/
def commandTaskFile (drive : UInt8) (lba : UInt32) (count : UInt16) : TaskFile where
  sectorCount := count.toUInt8
  lbaLow := (lba &&& 0xFF).toUInt8
  lbaMid := (lba >>> 8 &&& 0xFF).toUInt8
  lbaHigh := (lba >>> 16 &&& 0xFF).toUInt8
  driveHead := driveSelect drive lba

/-- The accesses of a transfer of `n` sectors: as many sectors, or fewer if it is cut short. -/
def Transfers (base : UInt16) (n : Nat) (ok : Bool) (es : List PortEvent) : Prop :=
  Quiet es ∧ ∃ moved, es.countP (isData base) = 256 * moved ∧
    (ok = true → moved = n) ∧ (ok = false → moved < n)

section Commands

variable {base : UInt16} {tf : TaskFile} {es : List PortEvent}

theorem commands_quiet (h : Quiet es) (rest : List PortEvent) :
    commands base tf (es ++ rest) = commands base tf rest := by
  induction es with
  | nil => rfl
  | cons e es ih =>
      have hes : Quiet es := fun port value hmem => h port value (List.mem_cons_of_mem e hmem)
      cases e with
      | outb port value => exact absurd (List.mem_cons_self ..) (h port value)
      | outw port value => exact ih hes
      | inb port => exact ih hes
      | inw port => exact ih hes

theorem commands_commandEvents (command drive : UInt8) (lba : UInt32) (count : UInt16)
    (h : Quiet es) : commands (ataBase drive) tf (commandEvents command drive lba count ++ es)
      = [(command, commandTaskFile drive lba count)] := by
  have hes : commands (ataBase drive) (commandTaskFile drive lba count) (es ++ []) = [] :=
    commands_quiet h []
  rw [List.append_nil] at hes
  have hbase : ataBase drive = ataPrimaryBase ∨ ataBase drive = ataSecondaryBase := by
    rw [ataBase]
    split
    · exact Or.inl rfl
    · exact Or.inr rfl
  have hcons : commands (ataBase drive) tf (commandEvents command drive lba count ++ es)
      = (command, commandTaskFile drive lba count) ::
        commands (ataBase drive) (commandTaskFile drive lba count) es := by
    rw [commandEvents]
    rcases hbase with hb | hb <;> rw [hb] <;> rfl
  rw [hcons, hes]

/-- The drive is selected in the high nibble, which the address leaves alone. -/
theorem driveSelect_nibble (drive : UInt8) (lba : UInt32) :
    (driveSelect drive lba &&& 0x0F).toNat = lba.toNat / 2 ^ 24 % 16 := by
  have hnibble : (lba >>> 24 &&& 0x0F).toNat = lba.toNat / 2 ^ 24 % 16 := by
    have hand : lba.toNat >>> 24 &&& 15 = lba.toNat >>> 24 % 2 ^ 4 :=
      Nat.and_two_pow_sub_one_eq_mod _ 4
    rw [UInt32.toNat_and, UInt32.toNat_shiftRight]
    exact hand.trans (congrArg (· % 16) (Nat.shiftRight_eq_div_pow _ _))
  have hor : ∀ n < 16, (0xF0 ||| n) % 256 &&& 15 = n ∧ (0xE0 ||| n) % 256 &&& 15 = n := by decide
  obtain ⟨hodd, heven⟩ := hor _ (Nat.mod_lt (lba.toNat / 2 ^ 24) (by decide))
  rw [driveSelect, UInt8.toNat_and, UInt32.toNat_toUInt8, UInt32.toNat_or, hnibble]
  split
  · exact hodd
  · exact heven

theorem commandTaskFile_lba (drive : UInt8) (lba : UInt32) (count : UInt16) :
    (commandTaskFile drive lba count).lba = lba.toNat % 2 ^ 28 := by
  have hbyte : ∀ n : UInt32, (n &&& 0xFF).toUInt8.toNat = n.toNat % 256 := by
    intro n
    rw [UInt32.toNat_toUInt8, UInt32.toNat_and]
    have hand : n.toNat &&& 255 = n.toNat % 256 := Nat.and_two_pow_sub_one_eq_mod _ 8
    rw [show (0xFF : UInt32).toNat = 255 from rfl, hand, Nat.mod_mod]
  refine TaskFile.lba_eq (hbyte lba) ?_ ?_ ?_
  · rw [commandTaskFile]
    dsimp only
    rw [hbyte, UInt32.toNat_shiftRight, Nat.shiftRight_eq_div_pow]
    rfl
  · rw [commandTaskFile]
    dsimp only
    rw [hbyte, UInt32.toNat_shiftRight, Nat.shiftRight_eq_div_pow]
    rfl
  · exact driveSelect_nibble drive lba

/-- The count modulo 256, in a transfer that is encodable. -/
theorem commandTaskFile_count (drive : UInt8) (lba : UInt32) {count : UInt16}
    (hpos : 1 ≤ count.toNat) (hle : count.toNat ≤ 256) :
    (commandTaskFile drive lba count).count = count.toNat :=
  TaskFile.count_eq (UInt16.toNat_toUInt8 count) hpos hle

theorem Transfers.append {n : Nat} {ok : Bool} {es' : List PortEvent} (h : Transfers base n ok es)
    (hq : Quiet es') (hdata : es'.countP (isData base) = 0) : Transfers base n ok (es ++ es') := by
  obtain ⟨hes, moved, hmoved, hok⟩ := h
  refine ⟨hes.append hq, moved, ?_, hok⟩
  rw [List.countP_append, hdata, hmoved]
  rfl

theorem countP_replicate_inb (n : Nat) (port : UInt16) :
    (List.replicate n (.inb port)).countP (isData base) = 0 := by
  rw [List.countP_replicate]
  rfl

/-- **A call that sends its command** addresses what it is asked for if and only if the request
has a task file. -/
theorem addressesSectors_of_sent {command drive : UInt8} {lba : UInt32} {count : UInt16}
    {result : Int} {ok : Bool} {n : Nat} {port : UInt16}
    (h : Transfers (ataBase drive) count.toNat ok es) (hr : ok = false → result = -1) :
    AddressesSectors (ataBase drive) tf lba count result
        (List.replicate n (.inb port) ++ (commandEvents command drive lba count ++ es)) ↔
      Encodable lba.toNat count.toNat := by
  obtain ⟨hquiet, moved, hmoved, hok, hcut⟩ := h
  have hcommands : commands (ataBase drive) tf
      (List.replicate n (.inb port) ++ (commandEvents command drive lba count ++ es))
        = [(command, commandTaskFile drive lba count)] := by
    rw [commands_quiet (quiet_replicate_inb n port),
      commands_commandEvents command drive lba count hquiet]
  have hsectors : sectorsMoved (ataBase drive)
      (List.replicate n (.inb port) ++ (commandEvents command drive lba count ++ es)) = moved := by
    have hnone : (commandEvents command drive lba count).countP (isData (ataBase drive)) = 0 := rfl
    rw [sectorsMoved, List.countP_append, List.countP_append, countP_replicate_inb, hnone, hmoved]
    omega
  constructor
  · intro haddr
    by_contra hno
    have hempty := (haddr.refuses hno).2
    rw [hcommands] at hempty
    exact absurd hempty (by simp)
  · intro henc
    obtain ⟨hlba, hpos, hle⟩ := (encodable_iff _ _).mp henc
    refine ⟨?_, fun hno => absurd henc hno⟩
    intro c tf' hmem
    rw [hcommands, List.mem_singleton, Prod.mk.injEq] at hmem
    obtain ⟨-, rfl⟩ := hmem
    rw [commandTaskFile_lba, commandTaskFile_count drive lba hpos hle, hsectors,
      Nat.mod_eq_of_lt hlba]
    refine ⟨rfl, ?_⟩
    cases ok with
    | true => exact Or.inl (hok rfl)
    | false => exact Or.inr ⟨hr rfl, hcut rfl⟩

theorem addressesSectors_of_not_sent (base : UInt16) (tf : TaskFile) (lba : UInt32)
    (count : UInt16) (n : Nat) (port : UInt16) :
    AddressesSectors base tf lba count (-1) (List.replicate n (.inb port)) := by
  have hquiet : commands base tf (List.replicate n (.inb port) ++ []) = [] :=
    commands_quiet (quiet_replicate_inb n port) []
  have hcommands : commands base tf (List.replicate n (.inb port)) = [] := by
    rwa [List.append_nil] at hquiet
  refine ⟨?_, fun _ => ⟨rfl, hcommands⟩⟩
  intro c tf' hmem
  rw [hcommands] at hmem
  exact absurd hmem List.not_mem_nil

end Commands

section Transfer

variable {drive : UInt8} {lba : UInt32} {count : UInt16} {io : Io}

theorem emits_ataSendCommand (command drive : UInt8) (lba : UInt32) (count : UInt16) (io : Io) :
    ∃ n, Emits io (ataSendCommand command drive lba count io).2
      (List.replicate n (.inb (ataBase drive + ataRegStatus)) ++
        if (ataSendCommand command drive lba count io).1 then commandEvents command drive lba count
        else []) := by
  obtain ⟨n, hn⟩ := emits_pollPort (ataBase drive + ataRegStatus) (statusHas ataStatusRdy)
    ataTimeout io
  refine ⟨n, ?_⟩
  rw [ataSendCommand]
  dsimp only
  generalize pollPort _ _ _ io = ready at hn
  obtain ⟨ok, io'⟩ := ready
  cases ok with
  | false => simpa using hn
  | true =>
      refine hn.trans ?_
      exact (emits_outb ..).trans ((emits_outb ..).trans ((emits_outb ..).trans
        ((emits_outb ..).trans ((emits_outb ..).trans (emits_outb ..)))))

theorem ataSendCommand_iff (command drive : UInt8) (lba : UInt32) (count : UInt16) (io : Io) :
    (ataSendCommand command drive lba count io).1 = true ↔
      ∃ i < ataTimeout, statusHas ataStatusRdy (io.answers (io.reads + i)).toUInt8 = true := by
  rw [← pollPort_iff (ataBase drive + ataRegStatus), ataSendCommand]
  dsimp only
  generalize pollPort _ _ _ io = ready
  obtain ⟨_ | _, io'⟩ := ready <;> simp

theorem emits_readWords (base : UInt16) (n i : Nat) (buf : Nat → UInt16) (io : Io) :
    Emits io (readWords base n i buf io).2 (List.replicate n (.inw (base + ataRegData))) := by
  induction n generalizing i buf io with
  | zero => exact Emits.refl io
  | succ n ih => exact (emits_inw ..).trans (ih ..)

theorem emits_writeWords (base : UInt16) (buf : Nat → UInt16) (n i : Nat) (io : Io) :
    ∃ es, Emits io (writeWords base buf n i io) es ∧ Quiet es ∧
      es.countP (isData base) = n := by
  induction n generalizing i io with
  | zero => exact ⟨[], Emits.refl io, quiet_nil, rfl⟩
  | succ n ih =>
      obtain ⟨es, hes, hquiet, hcount⟩ := ih (i + 1) (outw (base + ataRegData) (buf i) io)
      refine ⟨_, (emits_outw ..).trans hes, (quiet_singleton (by simp)).append hquiet, ?_⟩
      rw [List.countP_append, hcount, List.countP_singleton, if_pos (by simp [isData]),
        Nat.add_comm]

theorem Transfers.cons {base : UInt16} {n : Nat} {ok : Bool} {es es' : List PortEvent}
    (hq : Quiet es) (hdata : es.countP (isData base) = 256) (h : Transfers base n ok es') :
    Transfers base (n + 1) ok (es ++ es') := by
  obtain ⟨hes', moved, hmoved, hok, hcut⟩ := h
  refine ⟨hq.append hes', moved + 1, ?_, ?_, ?_⟩
  · rw [List.countP_append, hdata, hmoved]
    omega
  · intro h
    rw [hok h]
  · intro h
    exact Nat.succ_lt_succ (hcut h)

theorem transfers_timeout (base : UInt16) (n k : Nat) (port : UInt16) :
    Transfers base (n + 1) false (List.replicate k (.inb port)) :=
  ⟨quiet_replicate_inb k port, 0, countP_replicate_inb k port, by simp, fun _ => Nat.succ_pos n⟩

theorem transfers_nil (base : UInt16) : Transfers base 0 true [] :=
  ⟨quiet_nil, 0, rfl, fun _ => rfl, by simp⟩

/-- **The read loop** reads its sectors or runs out of time. -/
theorem emits_ataReadLoop (base : UInt16) (n sector : Nat) (buf : Nat → UInt16) (io : Io) :
    ∃ es, Emits io (ataReadLoop base n sector buf io).2.2 es ∧
      Transfers base n (ataReadLoop base n sector buf io).1 es := by
  induction n generalizing sector buf io with
  | zero => exact ⟨[], Emits.refl io, transfers_nil base⟩
  | succ n ih =>
      obtain ⟨k, hk⟩ := emits_pollPort (base + ataRegStatus) (statusHas ataStatusDrq) ataTimeout io
      rw [ataReadLoop]
      dsimp only
      generalize pollPort _ _ _ io = drq at hk
      obtain ⟨ok, io'⟩ := drq
      cases ok with
      | false => exact ⟨_, hk, transfers_timeout base n k _⟩
      | true =>
          have hwords := emits_readWords base 256 (sector * 256) buf io'
          obtain ⟨es, hes, ht⟩ := ih (sector + 1) (readWords base 256 (sector * 256) buf io').1
            (readWords base 256 (sector * 256) buf io').2
          refine ⟨_, (hk.trans hwords).trans hes, ht.cons ?_ ?_⟩
          · refine (quiet_replicate_inb k _).append ?_
            intro port value hmem
            exact absurd (List.mem_replicate.mp hmem).2 (by simp)
          · rw [List.countP_append, countP_replicate_inb, List.countP_replicate,
              if_pos (by simp [isData])]

/-- **The write loop** likewise. -/
theorem emits_ataWriteLoop (base : UInt16) (buf : Nat → UInt16) (n sector : Nat) (io : Io) :
    ∃ es, Emits io (ataWriteLoop base buf n sector io).2 es ∧
      Transfers base n (ataWriteLoop base buf n sector io).1 es := by
  induction n generalizing sector io with
  | zero => exact ⟨[], Emits.refl io, transfers_nil base⟩
  | succ n ih =>
      obtain ⟨k, hk⟩ := emits_pollPort (base + ataRegStatus) (statusHas ataStatusDrq) ataTimeout io
      rw [ataWriteLoop]
      generalize pollPort _ _ _ io = drq at hk
      obtain ⟨ok, io'⟩ := drq
      cases ok with
      | false => exact ⟨_, hk, transfers_timeout base n k _⟩
      | true =>
          obtain ⟨ws, hws, hquiet, hcount⟩ := emits_writeWords base buf 256 (sector * 256) io'
          obtain ⟨es, hes, ht⟩ := ih (sector + 1) (writeWords base buf 256 (sector * 256) io')
          refine ⟨_, (hk.trans hws).trans hes, ht.cons ((quiet_replicate_inb k _).append hquiet) ?_⟩
          rw [List.countP_append, countP_replicate_inb, hcount, Nat.zero_add]

end Transfer

/-! ### Reads and writes -/

section Calls

variable (answers : Nat → UInt16) (drive : UInt8) (lba : UInt32) (count : UInt16)
  (buf : Nat → UInt16)

/-- The drive says in time that it is ready. -/
def AtaReady : Prop := ∃ i < ataTimeout, statusHas ataStatusRdy (answers i).toUInt8 = true

/-- What a call accesses, and its result if it fails: the wait and nothing else, or the wait,
the command and the transfer. -/
def AtaOutcome (command : UInt8) (result : Int) (log : List PortEvent) : Prop :=
  ∃ n, (¬AtaReady answers ∧ result = -1 ∧
      log = List.replicate n (.inb (ataBase drive + ataRegStatus))) ∨
    (AtaReady answers ∧ ∃ ok es, Transfers (ataBase drive) count.toNat ok es ∧
      (ok = false → result = -1) ∧
      log = List.replicate n (.inb (ataBase drive + ataRegStatus)) ++
        (commandEvents command drive lba count ++ es))

variable {answers drive lba count buf}

theorem AtaOutcome.addressesSectors_iff {command : UInt8} {result : Int} {log : List PortEvent}
    (h : AtaOutcome answers drive lba count command result log) (tf : TaskFile) :
    AddressesSectors (ataBase drive) tf lba count result log ↔
      ¬AtaReady answers ∨ lba.toNat < 2 ^ 28 ∧ 1 ≤ count.toNat ∧ count.toNat ≤ 256 := by
  rw [← encodable_iff]
  obtain ⟨n, ⟨hready, rfl, rfl⟩ | ⟨hready, ok, es, ht, hr, rfl⟩⟩ := h
  · exact iff_of_true (addressesSectors_of_not_sent ..) (Or.inl hready)
  · rw [addressesSectors_of_sent ht hr, or_iff_right (not_not.mpr hready)]

theorem ataReadSectors_outcome :
    AtaOutcome answers drive lba count ataCmdReadSectors
      (ataReadSectors drive lba count buf ⟨answers, 0, []⟩).1
      (ataReadSectors drive lba count buf ⟨answers, 0, []⟩).2.2.log := by
  obtain ⟨n, hn⟩ := emits_ataSendCommand ataCmdReadSectors drive lba count ⟨answers, 0, []⟩
  have hready := ataSendCommand_iff ataCmdReadSectors drive lba count ⟨answers, 0, []⟩
  simp only [Nat.zero_add] at hready
  refine ⟨n, ?_⟩
  rw [ataReadSectors]
  dsimp only
  generalize ataSendCommand _ _ _ _ _ = sent at hn hready
  obtain ⟨ok, io⟩ := sent
  cases ok with
  | false =>
      refine Or.inl ⟨fun h => absurd (hready.mpr h) (by simp), rfl, ?_⟩
      simpa [Emits] using hn
  | true =>
      obtain ⟨es, hes, ht⟩ := emits_ataReadLoop (ataBase drive) count.toNat 0 buf io
      refine Or.inr ⟨hready.mp rfl, _, es, ht, ?_, ?_⟩
      · intro h
        dsimp only
        rw [if_neg (by simp), h]
        rfl
      · rw [if_neg (by simp), ← List.append_assoc]
        exact hn.trans hes

theorem ataWriteSectors_outcome :
    AtaOutcome answers drive lba count ataCmdWriteSectors
      (ataWriteSectors drive lba count buf ⟨answers, 0, []⟩).1
      (ataWriteSectors drive lba count buf ⟨answers, 0, []⟩).2.log := by
  obtain ⟨n, hn⟩ := emits_ataSendCommand ataCmdWriteSectors drive lba count ⟨answers, 0, []⟩
  have hready := ataSendCommand_iff ataCmdWriteSectors drive lba count ⟨answers, 0, []⟩
  simp only [Nat.zero_add] at hready
  refine ⟨n, ?_⟩
  rw [ataWriteSectors]
  dsimp only
  generalize ataSendCommand _ _ _ _ _ = sent at hn hready
  obtain ⟨ok, io⟩ := sent
  cases ok with
  | false =>
      refine Or.inl ⟨fun h => absurd (hready.mpr h) (by simp), rfl, ?_⟩
      simpa [Emits] using hn
  | true =>
      obtain ⟨es, hes, ht⟩ := emits_ataWriteLoop (ataBase drive) buf count.toNat 0 io
      refine Or.inr ⟨hready.mp rfl, ?_⟩
      rw [if_neg (by simp)]
      generalize ataWriteLoop _ _ _ _ _ = done at hes ht
      obtain ⟨ok, io'⟩ := done
      cases ok with
      | false =>
          refine ⟨false, es, ht, fun _ => rfl, ?_⟩
          rw [← List.append_assoc]
          exact hn.trans hes
      | true =>
          -- the wait for the drive to finish
          obtain ⟨k, hk⟩ := emits_pollPort (ataBase drive + ataRegStatus)
            (fun s => !statusHas ataStatusBsy s) ataTimeout io'
          refine ⟨true, es ++ List.replicate k (.inb (ataBase drive + ataRegStatus)),
            ht.append (quiet_replicate_inb k _) (countP_replicate_inb k _), by simp, ?_⟩
          rw [← List.append_assoc]
          exact hn.trans (hes.trans hk)

variable (answers drive lba count buf)

/-- **Disk commands address the sectors asked for** if and only if the address has 28 bits and
the count is between 1 and 256, or the drive is not ready and the call is refused. -/
theorem ata_sectors_iff (tf : TaskFile) :
    (AddressesSectors (ataBase drive) tf lba count
        (ataReadSectors drive lba count buf ⟨answers, 0, []⟩).1
        (ataReadSectors drive lba count buf ⟨answers, 0, []⟩).2.2.log ↔
      ¬AtaReady answers ∨ lba.toNat < 2 ^ 28 ∧ 1 ≤ count.toNat ∧ count.toNat ≤ 256) ∧
    (AddressesSectors (ataBase drive) tf lba count
        (ataWriteSectors drive lba count buf ⟨answers, 0, []⟩).1
        (ataWriteSectors drive lba count buf ⟨answers, 0, []⟩).2.log ↔
      ¬AtaReady answers ∨ lba.toNat < 2 ^ 28 ∧ 1 ≤ count.toNat ∧ count.toNat ≤ 256) :=
  ⟨ataReadSectors_outcome.addressesSectors_iff tf, ataWriteSectors_outcome.addressesSectors_iff tf⟩

/-- On a drive that is always ready: a read of sector 2^28, which is decoded to sector 0, a read of
no sectors, and a write of 257, of which the command announces one. -/
theorem ata_sectors_truncated :
    ¬AddressesSectors (ataBase 0) ⟨0, 0, 0, 0, 0⟩ 0x10000000 1
        (ataReadSectors 0 0x10000000 1 (fun _ => 0) ⟨fun _ => 0x48, 0, []⟩).1
        (ataReadSectors 0 0x10000000 1 (fun _ => 0) ⟨fun _ => 0x48, 0, []⟩).2.2.log ∧
    ¬AddressesSectors (ataBase 0) ⟨0, 0, 0, 0, 0⟩ 1000 0
        (ataReadSectors 0 1000 0 (fun _ => 0) ⟨fun _ => 0x48, 0, []⟩).1
        (ataReadSectors 0 1000 0 (fun _ => 0) ⟨fun _ => 0x48, 0, []⟩).2.2.log ∧
    ¬AddressesSectors (ataBase 0) ⟨0, 0, 0, 0, 0⟩ 1000 257
        (ataWriteSectors 0 1000 257 (fun _ => 0) ⟨fun _ => 0x48, 0, []⟩).1
        (ataWriteSectors 0 1000 257 (fun _ => 0) ⟨fun _ => 0x48, 0, []⟩).2.log := by
  have hready : AtaReady fun _ => 0x48 := ⟨0, by decide, by decide⟩
  rw [ataReadSectors_outcome.addressesSectors_iff, ataReadSectors_outcome.addressesSectors_iff,
    ataWriteSectors_outcome.addressesSectors_iff]
  simp only [hready, not_true_eq_false, false_or]
  decide

end Calls

/-! ### Cylinders, heads and sectors -/

section Chs

variable {geom : DiskGeometry} (hheads : geom.heads = 16) (hsectors : geom.sectorsPerTrack = 63)

include hheads hsectors

theorem toNat_lbaToChs (lba : UInt32) :
    (lbaToChs lba geom).1.toNat = lba.toNat / 1008 % 65536 ∧
      (lbaToChs lba geom).2.1.toNat = lba.toNat / 63 % 16 ∧
      (lbaToChs lba geom).2.2.toNat = lba.toNat % 63 + 1 := by
  have hlt := lba.toNat_lt
  have hmul : (63 * 16 : UInt32) = 1008 := rfl
  rw [lbaToChs, hheads, hsectors, hmul]
  refine ⟨?_, ?_, ?_⟩ <;>
    simp only [UInt32.toNat_toUInt16, UInt32.toNat_toUInt8, UInt32.toNat_div, UInt32.toNat_mod,
      UInt32.toNat_add, UInt32.reduceToNat]
  · omega
  · omega

theorem toNat_chsToLba {cylinder : UInt16} {head sector : UInt8} (hh : head.toNat < 16)
    (hs : 1 ≤ sector.toNat) (hs' : sector.toNat ≤ 63) :
    (chsToLba cylinder head sector geom).toNat
      = (cylinder.toNat * 16 + head.toNat) * 63 + (sector.toNat - 1) := by
  have hc := cylinder.toNat_lt
  rw [chsToLba, hheads, hsectors]
  simp only [UInt32.toNat_add, UInt32.toNat_mul, UInt32.toNat_sub, UInt8.toNat_toUInt32,
    UInt16.toNat_toUInt32, UInt32.reduceToNat]
  omega

/-- A sector survives the way there and back if its cylinder has 16 bits. -/
theorem chsToLba_lbaToChs (lba : UInt32) :
    chsToLba (lbaToChs lba geom).1 (lbaToChs lba geom).2.1 (lbaToChs lba geom).2.2 geom = lba ↔
      lba.toNat < 66060288 := by
  obtain ⟨hc, hh, hs⟩ := toNat_lbaToChs hheads hsectors lba
  have hlt := lba.toNat_lt
  rw [← UInt32.toNat_inj, toNat_chsToLba hheads hsectors (by omega) (by omega) (by omega), hc, hh,
    hs]
  omega

theorem lbaToChs_chsToLba {cylinder : UInt16} {head sector : UInt8} (hh : head.toNat < 16)
    (hs : 1 ≤ sector.toNat) (hs' : sector.toNat ≤ 63) :
    lbaToChs (chsToLba cylinder head sector geom) geom = (cylinder, head, sector) := by
  obtain ⟨hc₁, hh₁, hs₁⟩ := toNat_lbaToChs hheads hsectors (chsToLba cylinder head sector geom)
  have hlba := @toNat_chsToLba _ hheads hsectors cylinder _ _ hh hs hs'
  have hlt := cylinder.toNat_lt
  refine Prod.ext ?_ (Prod.ext ?_ ?_)
  · rw [← UInt16.toNat_inj, hc₁, hlba]
    dsimp only
    omega
  · rw [← UInt8.toNat_inj, hh₁, hlba]
    dsimp only
    omega
  · rw [← UInt8.toNat_inj, hs₁, hlba]
    dsimp only
    omega

end Chs

/-- A drive that is identified has the geometry of its number of sectors. -/
theorem ataIdentifyDrive_info {drive : UInt8} {io io' : Io} {info : DiskInfo}
    (h : ataIdentifyDrive drive io = (some info, io')) :
    ∃ identifyData, info = ataDiskInfo identifyData := by
  rw [ataIdentifyDrive] at h
  dsimp only at h
  generalize (if drive % 2 ≠ 0 then (0xB0 : UInt8) else 0xA0) = driveSelect at h
  split at h
  · exact absurd (congrArg Prod.fst h) (by simp)
  split at h
  · exact absurd (congrArg Prod.fst h) (by simp)
  split at h
  · exact absurd (congrArg Prod.fst h) (by simp)
  split at h
  · exact absurd (congrArg Prod.fst h) (by simp)
  exact ⟨_, (Option.some.inj (congrArg Prod.fst h)).symm⟩

theorem readWords_apply {base : UInt16} {n i j : Nat} (buf : Nat → UInt16) (io : Io)
    (hij : i ≤ j) (hjn : j < i + n) :
    (readWords base n i buf io).1 j = io.answers (io.reads + (j - i)) := by
  have hkeep : ∀ (n i : Nat) (buf : Nat → UInt16) (io : Io), j < i →
      (readWords base n i buf io).1 j = buf j := by
    intro n
    induction n with
    | zero => intros; rfl
    | succ n ih =>
        intro i buf io hlt
        rw [readWords]
        dsimp only
        rw [ih _ _ _ (by omega), Function.update_of_ne (by omega)]
  induction n generalizing i buf io with
  | zero => omega
  | succ n ih =>
      rw [readWords]
      dsimp only
      obtain rfl | hlt := Nat.eq_or_lt_of_le hij
      · rw [hkeep _ _ _ _ (Nat.lt_succ_self i), Function.update_self, Nat.sub_self]
        rfl
      · rw [ih _ _ hlt (by omega)]
        change io.answers (io.reads + 1 + (j - (i + 1))) = _
        congr 1
        omega

/-- A drive that answers every read with the same word, whose low byte is a status without an
error and with data. -/
theorem ataIdentifyDrive_const (drive : UInt8) {w : UInt16} (hzero : w.toUInt8 ≠ 0)
    (hbsy : statusHas ataStatusBsy w.toUInt8 = false)
    (herr : statusHas ataStatusErr w.toUInt8 = false)
    (hdrq : statusHas ataStatusDrq w.toUInt8 = true) :
    ∃ identifyData io', ataIdentifyDrive drive ⟨fun _ => w, 0, []⟩
        = (some (ataDiskInfo identifyData), io') ∧ identifyData 60 = w ∧ identifyData 61 = w := by
  have hready : ∀ io : Io, io.answers = (fun _ => w) →
      pollPort (ataBase drive + ataRegStatus) (fun s => !statusHas ataStatusBsy s) ataTimeout io
        = (true, (inb (ataBase drive + ataRegStatus) io).2) := by
    intro io h
    exact pollPort_first _ 999999 (by rw [h, hbsy]; rfl)
  have hdata : ∀ io : Io, io.answers = (fun _ => w) →
      pollPort (ataBase drive + ataRegStatus) (statusHas ataStatusDrq) ataTimeout io
        = (true, (inb (ataBase drive + ataRegStatus) io).2) := by
    intro io h
    exact pollPort_first _ 999999 (by rw [h, hdrq])
  rw [ataIdentifyDrive]
  dsimp only
  generalize (if drive % 2 ≠ 0 then (0xB0 : UInt8) else 0xA0) = driveSelect
  split
  · rename_i h
    exact absurd h hzero
  rw [hready _ rfl, if_neg (by simp)]
  split
  · rename_i h
    exact absurd h (ne_true_of_eq_false herr)
  rw [hdata _ rfl, if_neg (by simp)]
  exact ⟨_, _, rfl, readWords_apply _ _ (Nat.zero_le 60) (by decide),
    readWords_apply _ _ (Nat.zero_le 61) (by decide)⟩

/-- **The two conversions are inverse** on the sectors of 65536 cylinders. -/
theorem chs_lba_iff {drive : UInt8} {io io' : Io} {info : DiskInfo}
    (h : ataIdentifyDrive drive io = (some info, io')) :
    (∀ lba < info.geometry.totalSectors,
      (chsToLba (lbaToChs lba info.geometry).1 (lbaToChs lba info.geometry).2.1
        (lbaToChs lba info.geometry).2.2 info.geometry = lba ↔ lba.toNat < 65536 * 16 * 63)) ∧
    ∀ (cylinder : UInt16) (head sector : UInt8), head < 16 → 1 ≤ sector → sector ≤ 63 →
      lbaToChs (chsToLba cylinder head sector info.geometry) info.geometry
        = (cylinder, head, sector) := by
  obtain ⟨identifyData, rfl⟩ := ataIdentifyDrive_info h
  constructor
  · intro lba _
    exact chsToLba_lbaToChs rfl rfl lba
  · intro cylinder head sector hh hs hs'
    exact lbaToChs_chsToLba rfl rfl hh hs hs'

/-- A drive of 4718664 sectors. -/
theorem chs_lba_identified : ∃ info io',
    ataIdentifyDrive 0 ⟨fun _ => 0x0048, 0, []⟩ = (some info, io') ∧
    (∀ lba < info.geometry.totalSectors,
      (chsToLba (lbaToChs lba info.geometry).1 (lbaToChs lba info.geometry).2.1
        (lbaToChs lba info.geometry).2.2 info.geometry = lba ↔ lba.toNat < 65536 * 16 * 63)) ∧
    ∀ (cylinder : UInt16) (head sector : UInt8), head < 16 → 1 ≤ sector → sector ≤ 63 →
      lbaToChs (chsToLba cylinder head sector info.geometry) info.geometry
        = (cylinder, head, sector) := by
  obtain ⟨identifyData, io', h, -, -⟩ := ataIdentifyDrive_const 0 (w := 0x0048) (by decide)
    (by decide) (by decide) (by decide)
  exact ⟨_, _, h, chs_lba_iff h⟩

/-- A drive of 138938440 sectors: the first sector of cylinder 65536 becomes another one. -/
theorem chs_lba_narrowed : ∃ info io',
    ataIdentifyDrive 0 ⟨fun _ => 0x0848, 0, []⟩ = (some info, io') ∧
    info.geometry.totalSectors.toNat ≤ 2 ^ 28 ∧ 66060288 < info.geometry.totalSectors ∧
    chsToLba (lbaToChs 66060288 info.geometry).1 (lbaToChs 66060288 info.geometry).2.1
      (lbaToChs 66060288 info.geometry).2.2 info.geometry ≠ 66060288 := by
  obtain ⟨identifyData, io', h, hlow, hhigh⟩ := ataIdentifyDrive_const 0 (w := 0x0848) (by decide)
    (by decide) (by decide) (by decide)
  have htotal : (ataDiskInfo identifyData).geometry.totalSectors = 0x08480848 := by
    rw [ataDiskInfo, hlow, hhigh]
    rfl
  refine ⟨_, _, h, ?_, ?_, ?_⟩
  · rw [htotal]
    decide
  · rw [htotal]
    decide
  · rw [Ne, chsToLba_lbaToChs rfl rfl]
    decide

end AceOS.Drivers
