import AceOS.Drivers.AtaTransfer

/-!
# The disks as a store (`src/drivers/disk.c`)

After `disk_init` the second place of each channel is selected, and a transfer begins with a
wait for the drive that is selected before it.  So a first drive without a second one is found
and can then never be used, and the other drives are a store (`disk_isStore`): a read gets what
the latest write has put into its sectors (`disk_read_written`).
-/

namespace AceOS.Drivers

open PortIo AtaChannel

inductive DiskCall
  | read (drive : UInt8) (lba : UInt32) (count : UInt16) (buf : Nat → UInt16)
  | write (drive : UInt8) (lba : UInt32) (count : UInt16) (buf : Nat → UInt16)

/-- A call: its result and its buffer after it. -/
def DiskCall.run (drives : List DiskInfo) : DiskCall → Io → (Int × (Nat → UInt16)) × Io
  | .read drive lba count buf, io => withBuffer (diskReadSectors drives drive lba count buf io)
  | .write drive lba count buf, io =>
      let done := diskWriteSectors drives drive lba count buf io
      ((done.1, buf), done.2)

def diskRun (drives : List DiskInfo) : List DiskCall → Io → List (Int × (Nat → UInt16)) × Io
  | [], io => ([], io)
  | call :: calls, io =>
      let done := call.run drives io
      let rest := diskRun drives calls done.2
      (done.1 :: rest.1, rest.2)

/-- `disk_init` and the calls after it. -/
def diskSession (calls : List DiskCall) (io : Io) : List (Int × (Nat → UInt16)) × Io :=
  let found := diskInit io
  diskRun found.1 calls found.2

/-- The request lies on the drive, if there is one. -/
def DiskCall.Fits (s : AtaChannels) : DiskCall → Prop
  | .read drive lba count _ => ∀ d, driveAt s drive = some d → d.Fits lba count
  | .write drive lba count _ => ∀ d, driveAt s drive = some d → d.Fits lba count

/-! ### The store -/

/-- The words of each drive. -/
abbrev DiskStore := UInt8 → Nat → UInt16

/-- A call on a store, of which the drives that are `reached` can be used. -/
def DiskStore.call (reached : UInt8 → Bool) (m : DiskStore) : DiskCall →
    (Int × (Nat → UInt16)) × DiskStore
  | .read drive lba count buf =>
      if reached drive then
        ((0, copyWords (m drive) (256 * lba.toNat) 0 (256 * count.toNat) buf), m)
      else ((-1, buf), m)
  | .write drive lba count buf =>
      if reached drive then
        ((0, buf), Function.update m drive
          (copyWords buf 0 (256 * lba.toNat) (256 * count.toNat) (m drive)))
      else ((-1, buf), m)

def DiskStore.run (reached : UInt8 → Bool) (m : DiskStore) : List DiskCall →
    List (Int × (Nat → UInt16)) × DiskStore
  | [] => ([], m)
  | call :: calls =>
      let done := m.call reached call
      let rest := DiskStore.run reached done.2 calls
      (done.1 :: rest.1, rest.2)

def contents (s : AtaChannels) : DiskStore :=
  fun drive => ((driveAt s drive).map AtaDrive.data).getD fun _ => 0

/-- There is such a drive, and there is a second one on its channel. -/
def reachable (s : AtaChannels) (drive : UInt8) : Bool :=
  drive < 4 ∧ (driveAt s drive).isSome ∧ ((s (channelOf drive)).drives true).isSome

/-- The call does not write to the sectors. -/
def DiskCall.Avoids (drive : UInt8) (lba : UInt32) (count : UInt16) : DiskCall → Prop
  | .read .. => True
  | .write drive' lba' count' _ => drive' ≠ drive ∨
      lba'.toNat + count'.toNat ≤ lba.toNat ∨ lba.toNat + count.toNat ≤ lba'.toNat

section Store

variable {reached : UInt8 → Bool} {drv : UInt8} {lba : UInt32} {count : UInt16} {x : Nat}

theorem DiskStore.run_append (m : DiskStore) (calls calls' : List DiskCall) :
    m.run reached (calls ++ calls') = ((m.run reached calls).1 ++
      ((m.run reached calls).2.run reached calls').1,
      ((m.run reached calls).2.run reached calls').2) := by
  induction calls generalizing m with
  | nil => rfl
  | cons call calls ih =>
      rw [List.cons_append, DiskStore.run, ih]
      rfl

/-- A call that does not write to the sectors leaves their words alone. -/
theorem DiskStore.call_avoids {m : DiskStore} {call : DiskCall} (h : call.Avoids drv lba count)
    (hx : 256 * lba.toNat ≤ x ∧ x < 256 * (lba.toNat + count.toNat)) :
    (m.call reached call).2 drv x = m drv x := by
  cases call with
  | read drv' lba' count' buf =>
      rw [DiskStore.call]
      split <;> rfl
  | write drv' lba' count' buf =>
      rw [DiskStore.call]
      split
      · obtain rfl | hne := eq_or_ne drv drv'
        · dsimp only
          rw [Function.update_self, copyWords, if_neg]
          rcases h with h | h | h
          · exact absurd rfl h
          · omega
          · omega
        · exact congrFun (Function.update_of_ne hne ..) x
      · rfl

theorem DiskStore.run_avoids {m : DiskStore} {calls : List DiskCall}
    (h : ∀ call ∈ calls, call.Avoids drv lba count)
    (hx : 256 * lba.toNat ≤ x ∧ x < 256 * (lba.toNat + count.toNat)) :
    (m.run reached calls).2 drv x = m drv x := by
  induction calls generalizing m with
  | nil => rfl
  | cons call calls ih =>
      have hrest := ih (m := (m.call reached call).2)
        fun call' hcall => h call' (List.mem_cons_of_mem call hcall)
      exact hrest.trans (call_avoids (h call (List.mem_cons_self ..)) hx)

theorem DiskStore.run_read_written (m : DiskStore) (calls mid : List DiskCall)
    (buf buf' : Nat → UInt16) (hreach : reached drv = true)
    (hmid : ∀ call ∈ mid, call.Avoids drv lba count) :
    (m.run reached (calls ++ .write drv lba count buf :: mid ++
      [.read drv lba count buf'])).1.getLast?
      = some (0, copyWords buf 0 0 (256 * count.toNat) buf') := by
  have hread : ∀ m' : DiskStore, (∀ x < 256 * count.toNat, m' drv (256 * lba.toNat + x) = buf x) →
      (m'.run reached [.read drv lba count buf']).1
        = [(0, copyWords buf 0 0 (256 * count.toNat) buf')] := by
    intro m' hwords
    rw [DiskStore.run, DiskStore.call, if_pos hreach]
    refine congrArg (fun words => [((0 : Int), words)]) (funext fun x => ?_)
    unfold copyWords
    by_cases hx : 0 ≤ x ∧ x < 0 + 256 * count.toNat
    · rw [if_pos hx, if_pos hx, Nat.sub_zero, Nat.zero_add, hwords x (by omega)]
    · rw [if_neg hx, if_neg hx]
  rw [List.append_assoc, List.cons_append, run_append, DiskStore.run, run_append, hread]
  · dsimp only
    rw [← List.cons_append, ← List.append_assoc, List.getLast?_concat]
  · intro x hx
    rw [run_avoids hmid ⟨by omega, by omega⟩, DiskStore.call, if_pos hreach]
    dsimp only
    rw [Function.update_self, copyWords, if_pos ⟨by omega, by omega⟩, Nat.add_sub_cancel_left,
      Nat.zero_add]

end Store

/-! ### Programs and their accesses -/

section Accesses

variable (found : List DiskInfo)

theorem interacts_diskReadSectors (drv : UInt8) (lba : UInt32) (count : UInt16)
    (buf : Nat → UInt16) :
    Interacts fun io => withBuffer (diskReadSectors found drv lba count buf io) := by
  unfold diskReadSectors
  cases diskGetInfo found drv with
  | none => exact Interacts.pure (-1, buf)
  | some info =>
      dsimp only
      by_cases htype : info.diskType = diskTypeAta
      · simp only [if_pos htype]
        rw [ataReadSectors_eq]
        exact (interacts_ataSendCommand ataCmdReadSectors drv lba count).bind
          (interacts_readRest drv count buf)
      · simp only [if_neg htype]
        exact Interacts.pure (-1, buf)

theorem interacts_diskWriteSectors (drv : UInt8) (lba : UInt32) (count : UInt16)
    (buf : Nat → UInt16) : Interacts (diskWriteSectors found drv lba count buf) := by
  unfold diskWriteSectors
  cases diskGetInfo found drv with
  | none => exact Interacts.pure (-1)
  | some info =>
      dsimp only
      by_cases htype : info.diskType = diskTypeAta
      · simp only [if_pos htype]
        rw [ataWriteSectors_eq]
        exact (interacts_ataSendCommand ataCmdWriteSectors drv lba count).bind
          (interacts_writeRest drv count buf)
      · simp only [if_neg htype]
        exact Interacts.pure (-1)

theorem interacts_call (call : DiskCall) : Interacts (call.run found) := by
  cases call with
  | read drv lba count buf => exact interacts_diskReadSectors found drv lba count buf
  | write drv lba count buf =>
      exact (interacts_diskWriteSectors found drv lba count buf).bind
        (g := fun r io => ((r, buf), io)) fun r => Interacts.pure (r, buf)

theorem interacts_diskRun (calls : List DiskCall) : Interacts (diskRun found calls) := by
  induction calls with
  | nil => exact Interacts.pure []
  | cons call calls ih =>
      exact (interacts_call found call).bind (g := fun done io =>
          let rest := diskRun found calls io
          (done :: rest.1, rest.2)) fun done =>
        ih.bind (g := fun rest io => (done :: rest, io)) fun rest => Interacts.pure (done :: rest)

end Accesses

/-! ### Detection -/

section Detection

variable {s : AtaChannels} {i j : UInt8}

/-- What `disk_detect_drives` notes of drive `i`. -/
def foundAt (s : AtaChannels) (i : UInt8) : Option DiskInfo :=
  (driveAt s i).map fun drive => { ataDiskInfo drive.identify with
    driveNumber := i, diskType := diskTypeAta, present := true }

theorem identified_ready (h : ∀ c, (s c).Ready) (c : Bool) : (identified s i c).Ready := by
  unfold identified
  obtain rfl | hne := eq_or_ne c (channelOf i)
  · rw [Function.update_self]
    exact (h _).withFile _
  · rw [Function.update_of_ne hne]
    exact h c

theorem identified_drives (s : AtaChannels) (i : UInt8) (c : Bool) :
    (identified s i c).drives = (s c).drives := by
  unfold identified
  obtain rfl | hne := eq_or_ne c (channelOf i)
  · rw [Function.update_self]
    rfl
  · rw [Function.update_of_ne hne]

theorem driveAt_identified : driveAt (identified s i) j = driveAt s j := by
  unfold driveAt
  rw [identified_drives]

theorem foundAt_identified : foundAt (identified s i) = foundAt s := by
  funext j
  rw [foundAt, driveAt_identified]
  rfl

/-- The note of drive `i`, if it is there. -/
def noted (i : UInt8) (found : Option DiskInfo) : List DiskInfo :=
  found.toList.map fun info =>
    { info with driveNumber := i, diskType := diskTypeAta, present := true }

theorem diskDetectDrives_cons (i : UInt8) (is : List UInt8) (io : Io) :
    diskDetectDrives (i :: is) io = (noted i (ataIdentifyDrive i io).1 ++
      (diskDetectDrives is (ataIdentifyDrive i io).2).1,
      (diskDetectDrives is (ataIdentifyDrive i io).2).2) := by
  rw [diskDetectDrives]
  generalize (ataIdentifyDrive i io).1 = found
  cases found <;> rfl

theorem triple_diskDetectDrives (is : List UInt8) (hready : ∀ c, (s c).Ready) :
    ataDevice.Triple (· = s) (diskDetectDrives is)
      fun r s' => r = is.filterMap (foundAt s) ∧ s' = is.foldl identified s := by
  induction is generalizing s with
  | nil => exact triple_pure fun s' hs => ⟨rfl, hs⟩
  | cons i is ih =>
      rw [show diskDetectDrives (i :: is) = _ from funext (diskDetectDrives_cons i is)]
      refine (triple_ataIdentifyDrive (hready (channelOf i))).bind
        (g := fun found io =>
          let rest := diskDetectDrives is io
          (noted i found ++ rest.1, rest.2)) ?_
      intro found
      refine (((ih (s := identified s i) (identified_ready hready)).frame
        (found = (driveAt s i).map fun drive => ataDiskInfo drive.identify)).bind
        (g := fun rest io => (noted i found ++ rest, io))) fun rest => ?_
      refine triple_pure ?_
      rintro s' ⟨hfound, hrest, hs'⟩
      refine ⟨?_, hs'⟩
      rw [foundAt_identified] at hrest
      rw [List.filterMap_cons, hrest, hfound, foundAt]
      cases driveAt s i <;> rfl

theorem lt_four_cases (h : i < 4) : i = 0 ∨ i = 1 ∨ i = 2 ∨ i = 3 := by
  have hlt : i.toNat < 4 := UInt8.lt_iff_toNat_lt.mp h
  rcases (show i.toNat = 0 ∨ i.toNat = 1 ∨ i.toNat = 2 ∨ i.toNat = 3 by omega) with h | h | h | h
  · exact Or.inl (UInt8.toNat_inj.mp h)
  · exact Or.inr (Or.inl (UInt8.toNat_inj.mp h))
  · exact Or.inr (Or.inr (Or.inl (UInt8.toNat_inj.mp h)))
  · exact Or.inr (Or.inr (Or.inr (UInt8.toNat_inj.mp h)))

theorem diskGetInfo_found (s : AtaChannels) (i : UInt8) :
    diskGetInfo ([0, 1, 2, 3].filterMap (foundAt s)) i = if i < 4 then foundAt s i else none := by
  have hany : ∀ a, ((foundAt s a).any fun info => info.driveNumber = i ∧ info.present = true)
      = (decide (a = i) && (foundAt s a).isSome) := by
    intro a
    unfold foundAt
    cases driveAt s a <;> simp
  unfold diskGetInfo
  by_cases h : i < 4
  · rw [if_neg (UInt8.not_le.mpr h), if_pos h, List.find?_filterMap]
    simp only [hany]
    rcases lt_four_cases h with rfl | rfl | rfl | rfl <;> cases hfound : foundAt s _ <;>
      simp [List.find?, hfound]
  · rw [if_pos (UInt8.not_lt.mp h), if_neg h]

end Detection

/-! ### Runs -/

def driveNumber : Bool → Bool → UInt8
  | false, false => 0
  | false, true => 1
  | true, false => 2
  | true, true => 3

theorem driveNumber_eq {drive : UInt8} (h : drive < 4) :
    driveNumber (channelOf drive) (isSecond drive) = drive := by
  rcases lt_four_cases h with rfl | rfl | rfl | rfl <;> rfl

theorem driveNumber_inj : ∀ c b c' b', driveNumber c b = driveNumber c' b' → c = c' ∧ b = b' := by
  decide

/-- **Between two calls**: the channels are ready, the drives are those of `s₀` with the words of
the store on them, and a drive is selected where there is a second one. -/
structure Serving (s₀ : AtaChannels) (m : DiskStore) (s : AtaChannels) : Prop where
  ready : ∀ c, (s c).Ready
  drives : ∀ c b, (s c).drives b
    = ((s₀ c).drives b).map fun drive => { drive with data := m (driveNumber c b) }
  selected : ∀ c, (s c).selected.isSome = ((s₀ c).drives true).isSome

section Runs

variable {s₀ s : AtaChannels} {m : DiskStore} {drv : UInt8}

/-- After `disk_init` the second place of each channel is selected. -/
theorem serving_init (hready : ∀ c, (s₀ c).Ready) :
    Serving s₀ (contents s₀) ([0, 1, 2, 3].foldl identified s₀) := by
  have hready' := identified_ready (i := 3) (identified_ready (i := 2) (identified_ready (i := 1)
    (identified_ready (i := 0) hready)))
  refine ⟨hready', ?_, ?_⟩
  · intro c b
    simp only [List.foldl_cons, List.foldl_nil, identified_drives]
    have hdata : ∀ drive, (s₀ c).drives b = some drive →
        contents s₀ (driveNumber c b) = drive.data := by
      intro drive hdrive
      have hat : driveAt s₀ (driveNumber c b) = some drive := by
        cases c <;> cases b <;> exact hdrive
      rw [contents, hat]
      rfl
    cases hdrive : (s₀ c).drives b with
    | none => rfl
    | some drive => rw [Option.map_some, hdata drive hdrive]
  · intro c
    cases c with
    | false =>
        -- the last drive of the channel that is looked for is drive 1
        have hlast : [0, 1, 2, 3].foldl identified s₀ false
            = identified (identified s₀ 0) 1 (channelOf 1) := by
          show identified (identified (identified (identified s₀ 0) 1) 2) 3 false = _
          rw [identified, Function.update_of_ne (by decide), identified,
            Function.update_of_ne (by decide)]
          rfl
        rw [hlast, identified_selected, driveAt_identified]
        rfl
    | true =>
        have hlast : [0, 1, 2, 3].foldl identified s₀ true
            = identified (identified (identified (identified s₀ 0) 1) 2) 3 (channelOf 3) := rfl
        rw [hlast, identified_selected, driveAt_identified, driveAt_identified,
          driveAt_identified]
        rfl

theorem Serving.update {m' : DiskStore} {c : Bool} {ch : AtaChannel} (h : Serving s₀ m s)
    (hready : ch.Ready) (hdrives : ∀ b, ch.drives b
      = ((s₀ c).drives b).map fun drive => { drive with data := m' (driveNumber c b) })
    (hother : ∀ c' b, c' ≠ c → m' (driveNumber c' b) = m (driveNumber c' b))
    (hsel : ch.selected.isSome = ((s₀ c).drives true).isSome) :
    Serving s₀ m' (Function.update s c ch) := by
  refine ⟨fun c' => ?_, fun c' b => ?_, fun c' => ?_⟩ <;> obtain rfl | hne := eq_or_ne c' c
  · rw [Function.update_self]
    exact hready
  · rw [Function.update_of_ne hne]
    exact h.ready c'
  · rw [Function.update_self]
    exact hdrives b
  · rw [Function.update_of_ne hne, hother c' b hne]
    exact h.drives c' b
  · rw [Function.update_self]
    exact hsel
  · rw [Function.update_of_ne hne]
    exact h.selected c'

theorem Serving.driveAt_eq (h : Serving s₀ m s) (hdrv : drv < 4) :
    driveAt s drv = (driveAt s₀ drv).map fun drive => { drive with data := m drv } := by
  have hdrives := h.drives (channelOf drv) (isSecond drv)
  rw [driveNumber_eq hdrv] at hdrives
  exact hdrives

theorem Serving.reached (h : Serving s₀ m s) (hreach : reachable s₀ drv = true) :
    drv < 4 ∧ (∃ d, driveAt s₀ drv = some d ∧ driveAt s drv = some { d with data := m drv }) ∧
      ∃ d, (s (channelOf drv)).selected = some d := by
  obtain ⟨hdrv, hat, hsecond⟩ := of_decide_eq_true hreach
  refine ⟨hdrv, ?_, ?_⟩
  · obtain ⟨d, hd⟩ := Option.isSome_iff_exists.mp hat
    refine ⟨d, hd, ?_⟩
    rw [h.driveAt_eq hdrv, hd]
    rfl
  · rw [← h.selected] at hsecond
    exact Option.isSome_iff_exists.mp hsecond

theorem Serving.selected_drive (h : Serving s₀ m s) (hreach : reachable s₀ drv = true) :
    ((s (channelOf drv)).drives (isSecond drv)).isSome
      = ((s₀ (channelOf drv)).drives true).isSome := by
  obtain ⟨hdrv, ⟨d, -, hd⟩, -⟩ := h.reached hreach
  obtain ⟨-, -, hsecond⟩ := of_decide_eq_true hreach
  rw [hsecond]
  exact Option.isSome_iff_exists.mpr ⟨_, hd⟩

variable {lba : UInt32} {count : UInt16} {buf : Nat → UInt16}

def Present (s : AtaChannels) (drive : UInt8) : Prop := drive < 4 ∧ (driveAt s drive).isSome

instance (s : AtaChannels) (drive : UInt8) : Decidable (Present s drive) :=
  inferInstanceAs (Decidable (_ ∧ _))

theorem diskGetInfo_of_present (h : Present s drv) : ∃ info,
    diskGetInfo ([0, 1, 2, 3].filterMap (foundAt s)) drv = some info ∧
      info.diskType = diskTypeAta := by
  obtain ⟨d, hd⟩ := Option.isSome_iff_exists.mp h.2
  rw [diskGetInfo_found, if_pos h.1, foundAt, hd]
  exact ⟨_, rfl, rfl⟩

theorem diskGetInfo_of_not_present (h : ¬Present s drv) :
    diskGetInfo ([0, 1, 2, 3].filterMap (foundAt s)) drv = none := by
  rw [diskGetInfo_found]
  split
  · rename_i hlt
    have hnone : driveAt s drv = none :=
      Option.not_isSome_iff_eq_none.mp fun hsome => h ⟨hlt, hsome⟩
    rw [foundAt, hnone]
    rfl
  · rfl

theorem diskReadSectors_found : (fun io => withBuffer
      (diskReadSectors ([0, 1, 2, 3].filterMap (foundAt s)) drv lba count buf io))
    = if Present s drv then fun io => withBuffer (ataReadSectors drv lba count buf io)
      else fun io => ((-1, buf), io) := by
  funext io
  unfold diskReadSectors
  by_cases h : Present s drv
  · obtain ⟨info, hinfo, htype⟩ := diskGetInfo_of_present h
    rw [hinfo, if_pos h]
    dsimp only
    rw [if_pos htype]
  · rw [diskGetInfo_of_not_present h, if_neg h]
    rfl

theorem diskWriteSectors_found :
    diskWriteSectors ([0, 1, 2, 3].filterMap (foundAt s)) drv lba count buf
    = if Present s drv then ataWriteSectors drv lba count buf else fun io => (-1, io) := by
  funext io
  unfold diskWriteSectors
  by_cases h : Present s drv
  · obtain ⟨info, hinfo, htype⟩ := diskGetInfo_of_present h
    rw [hinfo, if_pos h]
    dsimp only
    rw [if_pos htype]
  · rw [diskGetInfo_of_not_present h, if_neg h]

theorem not_reachable_of_not_present (h : ¬Present s drv) : reachable s drv = false :=
  decide_eq_false fun hreach => h ⟨hreach.1, hreach.2.1⟩

theorem Serving.selected_none (h : Serving s₀ m s) (hpresent : Present s₀ drv)
    (hreach : ¬reachable s₀ drv = true) : (s (channelOf drv)).selected = none := by
  have hsecond : ¬((s₀ (channelOf drv)).drives true).isSome := fun hsome =>
    hreach (decide_eq_true ⟨hpresent.1, hpresent.2, hsome⟩)
  rw [← h.selected] at hsecond
  exact Option.not_isSome_iff_eq_none.mp hsecond

theorem Serving.addressed (h : Serving s₀ m s) (hreach : reachable s₀ drv = true) :
    Serving s₀ m (Function.update s (channelOf drv)
      ((s (channelOf drv)).withFile (commandTaskFile drv lba count))) := by
  refine h.update ((h.ready _).withFile _) (h.drives _) (fun _ _ _ => rfl) ?_
  rw [commandTaskFile_device]
  exact h.selected_drive hreach

theorem Serving.written (h : Serving s₀ m s) (hreach : reachable s₀ drv = true)
    (f : (Nat → UInt16) → Nat → UInt16) :
    Serving s₀ (Function.update m drv (f (m drv))) (Function.update s (channelOf drv)
      (((s (channelOf drv)).withFile (commandTaskFile drv lba count)).mapData f)) := by
  obtain ⟨hdrv, ⟨d, hd, hdata⟩, -⟩ := h.reached hreach
  have hnumber : ∀ c b, driveNumber c b = drv → c = channelOf drv ∧ b = isSecond drv := by
    intro c b hnumber
    rw [← driveNumber_eq hdrv] at hnumber
    exact driveNumber_inj _ _ _ _ hnumber
  refine h.update (((h.ready _).withFile _).mapData _) (fun b => ?_) (fun c b hne => ?_) ?_
  · have hdevice : ((s (channelOf drv)).withFile (commandTaskFile drv lba count)).device
        = isSecond drv := (driveSelect_bits drv lba).1
    rw [AtaChannel.mapData, commandTaskFile_device, hdevice]
    dsimp only
    obtain rfl | hne := eq_or_ne b (isSecond drv)
    · -- the drive that is written
      have hd' : (s₀ (channelOf drv)).drives (isSecond drv) = some d := hd
      have hdata' : (s (channelOf drv)).drives (isSecond drv) = some { d with data := m drv } :=
        hdata
      rw [driveNumber_eq hdrv, Function.update_self, Function.update_self, hd', hdata']
      rfl
    · rw [Function.update_of_ne hne, Function.update_of_ne fun heq => hne (hnumber _ _ heq).2]
      exact h.drives _ b
  · exact Function.update_of_ne (fun heq => hne (hnumber _ _ heq).1) ..
  · rw [selected_mapData, Option.isSome_map, commandTaskFile_device]
    exact h.selected_drive hreach

theorem triple_diskReadSectors (hfits : ∀ d, driveAt s₀ drv = some d → d.Fits lba count) :
    ataDevice.Triple (Serving s₀ m)
      (fun io => withBuffer
        (diskReadSectors ([0, 1, 2, 3].filterMap (foundAt s₀)) drv lba count buf io))
      fun r s' => r = (m.call (reachable s₀) (.read drv lba count buf)).1 ∧
        Serving s₀ (m.call (reachable s₀) (.read drv lba count buf)).2 s' := by
  refine triple_of_states (interacts_diskReadSectors _ drv lba count buf) fun s h => ?_
  rw [diskReadSectors_found, DiskStore.call]
  by_cases hpresent : Present s₀ drv
  · rw [if_pos hpresent]
    by_cases hreach : reachable s₀ drv = true
    · rw [if_pos hreach]
      obtain ⟨hdrv, ⟨d, hd, hdata⟩, d', hsel⟩ := h.reached hreach
      refine (triple_ataReadSectors buf (h.ready _) hsel hdata (hfits d hd)).post ?_
      rintro r s' ⟨rfl, rfl⟩
      exact ⟨rfl, h.addressed hreach⟩
    · rw [if_neg hreach]
      refine (triple_ataReadSectors_empty lba count buf (h.selected_none hpresent hreach)).post ?_
      rintro r s' ⟨rfl, rfl⟩
      exact ⟨rfl, h⟩
  · rw [if_neg hpresent, if_neg (by rw [not_reachable_of_not_present hpresent]; decide)]
    exact triple_pure fun _ hs => ⟨rfl, hs ▸ h⟩

theorem triple_diskWriteSectors (hfits : ∀ d, driveAt s₀ drv = some d → d.Fits lba count) :
    ataDevice.Triple (Serving s₀ m)
      (diskWriteSectors ([0, 1, 2, 3].filterMap (foundAt s₀)) drv lba count buf)
      fun r s' => (r, buf) = (m.call (reachable s₀) (.write drv lba count buf)).1 ∧
        Serving s₀ (m.call (reachable s₀) (.write drv lba count buf)).2 s' := by
  refine triple_of_states (interacts_diskWriteSectors _ drv lba count buf) fun s h => ?_
  rw [diskWriteSectors_found, DiskStore.call]
  by_cases hpresent : Present s₀ drv
  · rw [if_pos hpresent]
    by_cases hreach : reachable s₀ drv = true
    · rw [if_pos hreach]
      obtain ⟨hdrv, ⟨d, hd, hdata⟩, d', hsel⟩ := h.reached hreach
      refine (triple_ataWriteSectors buf (h.ready _) hsel hdata (hfits d hd)).post ?_
      rintro r s' ⟨rfl, rfl⟩
      exact ⟨rfl, h.written hreach _⟩
    · rw [if_neg hreach]
      refine (triple_ataWriteSectors_empty lba count buf (h.selected_none hpresent hreach)).post ?_
      rintro r s' ⟨rfl, rfl⟩
      exact ⟨rfl, h⟩
  · rw [if_neg hpresent, if_neg (by rw [not_reachable_of_not_present hpresent]; decide)]
    exact triple_pure fun _ hs => ⟨rfl, hs ▸ h⟩

/-- **A call** does on the drives what it does on the store. -/
theorem triple_call {call : DiskCall} (hfits : call.Fits s₀) :
    ataDevice.Triple (Serving s₀ m) (call.run ([0, 1, 2, 3].filterMap (foundAt s₀)))
      fun r s' => r = (m.call (reachable s₀) call).1 ∧
        Serving s₀ (m.call (reachable s₀) call).2 s' := by
  cases call with
  | read drv lba count buf => exact triple_diskReadSectors hfits
  | write drv lba count buf =>
      exact (triple_diskWriteSectors hfits).bind (g := fun r io => ((r, buf), io)) fun r =>
        triple_pure fun s h => h

/-- **A run** of calls. -/
theorem triple_diskRun (calls : List DiskCall) (hfits : ∀ call ∈ calls, call.Fits s₀) :
    ataDevice.Triple (Serving s₀ m) (diskRun ([0, 1, 2, 3].filterMap (foundAt s₀)) calls)
      fun r s' => r = (m.run (reachable s₀) calls).1 ∧
        Serving s₀ (m.run (reachable s₀) calls).2 s' := by
  induction calls generalizing m with
  | nil => exact triple_pure fun s h => ⟨rfl, h⟩
  | cons call calls ih =>
      refine (triple_call (hfits call (List.mem_cons_self ..))).bind
        (g := fun done io =>
          let rest := diskRun ([0, 1, 2, 3].filterMap (foundAt s₀)) calls io
          (done :: rest.1, rest.2)) ?_
      intro done
      refine ((ih fun call' hcall => hfits call' (List.mem_cons_of_mem call hcall)).frame _).bind
        (g := fun rest io => (done :: rest, io)) ?_
      intro rest
      refine triple_pure ?_
      rintro s ⟨rfl, rfl, h⟩
      exact ⟨rfl, h⟩

end Runs

/-- **A session**: the calls meet the drives that `disk_init` has found. -/
theorem triple_diskSession {s₀ : AtaChannels} {calls : List DiskCall}
    (hready : ∀ c, (s₀ c).Ready) (hfits : ∀ call ∈ calls, call.Fits s₀) :
    ataDevice.Triple (· = s₀) (diskSession calls) fun r s =>
      r = ((contents s₀).run (reachable s₀) calls).1 ∧
        Serving s₀ ((contents s₀).run (reachable s₀) calls).2 s := by
  have hinit : ataDevice.Triple (· = s₀) diskInit fun found s =>
      found = [0, 1, 2, 3].filterMap (foundAt s₀) ∧ Serving s₀ (contents s₀) s := by
    refine (triple_diskDetectDrives [0, 1, 2, 3] hready).post ?_
    rintro found s ⟨rfl, rfl⟩
    exact ⟨rfl, serving_init hready⟩
  refine hinit.bind (g := fun found io => diskRun found calls io) fun found => ?_
  by_cases hfound : found = [0, 1, 2, 3].filterMap (foundAt s₀)
  · rw [hfound]
    exact (triple_diskRun calls hfits).pre fun s h => h.2
  · -- `disk_init` notes nothing else
    exact ⟨interacts_diskRun found calls, fun _ _ _ _ h => absurd h.1 hfound⟩

/-- **There is always a run**, whatever the state of the drives. -/
theorem diskSession_hasRun (calls : List DiskCall) (s₀ : AtaChannels) : ∃ answers s,
    ataDevice.Run answers (diskSession calls ⟨answers, 0, []⟩).2.log 0 s₀ s := by
  have hinit : Interacts diskInit :=
    (triple_diskDetectDrives (s := fun _ => default) [0, 1, 2, 3] fun _ => ⟨rfl, rfl⟩).interacts
  exact ataDevice_total.exists_run (hinit.bind fun found => interacts_diskRun found calls) s₀

def blankDrive : AtaDrive where
  identify := fun _ => 1
  sectors := 65537
  data := fun _ => 0
  sectors_eq := rfl
  sectors_le := by decide

theorem blankDrive_fits {lba : UInt32} {count : UInt16} (h : 1 ≤ count.toNat)
    (h' : lba.toNat + count.toNat ≤ 256) : blankDrive.Fits lba count :=
  ⟨h, by omega, Nat.le_trans h' (by decide)⟩

/-- Two such drives on the primary channel, and none on the other one. -/
def twoBlank : AtaChannels := fun c =>
  { drives := fun _ => if c = false then some blankDrive else none
    taskFile := ⟨0, 0, 0, 0, 0⟩
    phase := .idle
    delay := 0 }

theorem driveAt_twoBlank {drive : UInt8} {d : AtaDrive} (h : driveAt twoBlank drive = some d) :
    d = blankDrive := by
  rw [driveAt, twoBlank] at h
  dsimp only at h
  split at h
  · exact (Option.some.inj h).symm
  · cases h

/-- Both drives are written, the first one twice in a sector, and the second one is read. -/
def writesAndRead : List DiskCall :=
  [.write 0 5 2 fun _ => 7, .write 1 5 2 fun _ => 9, .write 0 6 1 fun _ => 8,
    .read 1 5 2 fun _ => 0]

theorem writesAndRead_fits : ∀ call ∈ writesAndRead, call.Fits twoBlank := by
  intro call hcall
  rw [writesAndRead] at hcall
  simp only [List.mem_cons, List.not_mem_nil, or_false] at hcall
  rcases hcall with rfl | rfl | rfl | rfl <;> intro d hd <;> rw [driveAt_twoBlank hd] <;>
    exact blankDrive_fits (by decide) (by decide)

/-- **The disks are a store.**  Whatever the drives answer and however long they are busy,
`disk_init` and the calls after it return what they return on a store with the words of the
drives: a call on a drive that cannot be reached gives up, any other one does what it is asked
for, and what is on the drives in the end is the store. -/
theorem disk_isStore {answers : Nat → UInt16} {s₀ s : AtaChannels} {calls : List DiskCall}
    (hready : ∀ c, (s₀ c).Ready) (hfits : ∀ call ∈ calls, call.Fits s₀)
    (hrun : ataDevice.Run answers (diskSession calls ⟨answers, 0, []⟩).2.log 0 s₀ s) :
    (diskSession calls ⟨answers, 0, []⟩).1
      = ((contents s₀).run (reachable s₀) calls).1 ∧
    ∀ drive, Present s₀ drive →
      contents s drive = ((contents s₀).run (reachable s₀) calls).2 drive := by
  obtain ⟨hresults, hserving⟩ := (triple_diskSession hready hfits).of_log rfl hrun
  refine ⟨hresults, ?_⟩
  rintro drive ⟨hlt, hat⟩
  obtain ⟨d, hd⟩ := Option.isSome_iff_exists.mp hat
  rw [contents, hserving.driveAt_eq hlt, hd]
  rfl

/-- Two blank drives are written: what is on them in the end are the latest words. -/
theorem disk_isStore_twoBlank : ∃ answers s,
    ataDevice.Run answers (diskSession writesAndRead ⟨answers, 0, []⟩).2.log 0 twoBlank s ∧
      (diskSession writesAndRead ⟨answers, 0, []⟩).1.map Prod.fst = [0, 0, 0, 0] ∧
      contents twoBlank 0 1280 = 0 ∧ contents s 0 1280 = 7 ∧ contents s 0 1536 = 8 ∧
      contents s 1 1536 = 9 := by
  obtain ⟨answers, s, hrun⟩ := diskSession_hasRun writesAndRead twoBlank
  obtain ⟨hresults, hstore⟩ := disk_isStore (fun _ => ⟨rfl, rfl⟩) writesAndRead_fits hrun
  refine ⟨answers, s, hrun, ?_, rfl, ?_, ?_, ?_⟩
  · rw [hresults]
    rfl
  · rw [hstore 0 (by decide)]
    rfl
  · rw [hstore 0 (by decide)]
    rfl
  · rw [hstore 1 (by decide)]
    rfl

/-- **A read returns what was written**: after a write to a drive that can be reached and calls
that do not write to its sectors, a read of them succeeds and gets the words of the write. -/
theorem disk_read_written {answers : Nat → UInt16} {s₀ s : AtaChannels} {drv : UInt8}
    {lba : UInt32} {count : UInt16} {buf buf' : Nat → UInt16} {calls first mid : List DiskCall}
    (hcalls : calls = first ++ .write drv lba count buf :: mid ++ [.read drv lba count buf'])
    (hready : ∀ c, (s₀ c).Ready) (hfits : ∀ call ∈ calls, call.Fits s₀)
    (hreach : reachable s₀ drv = true) (hmid : ∀ call ∈ mid, call.Avoids drv lba count)
    (hrun : ataDevice.Run answers (diskSession calls ⟨answers, 0, []⟩).2.log 0 s₀ s) :
    (diskSession calls ⟨answers, 0, []⟩).1.getLast?
      = some (0, copyWords buf 0 0 (256 * count.toNat) buf') := by
  obtain ⟨hresults, -⟩ := (triple_diskSession hready hfits).of_log rfl hrun
  rw [hresults, hcalls]
  exact DiskStore.run_read_written (contents s₀) first mid buf buf' hreach hmid

/-- The read of the second drive gets what was written to it before the last write to the first
drive. -/
theorem disk_read_written_twoBlank : ∃ answers s,
    ataDevice.Run answers (diskSession writesAndRead ⟨answers, 0, []⟩).2.log 0 twoBlank s ∧
      contents twoBlank 1 1280 = 0 ∧
      (diskSession writesAndRead ⟨answers, 0, []⟩).1.getLast?
        = some (0, copyWords (fun _ => 9) 0 0 512 fun _ => 0) := by
  obtain ⟨answers, s, hrun⟩ := diskSession_hasRun writesAndRead twoBlank
  have havoids : ∀ call ∈ [DiskCall.write 0 6 1 fun _ => 8], call.Avoids 1 5 2 := by
    rintro call hcall
    obtain rfl := List.mem_singleton.mp hcall
    exact Or.inl (by decide)
  refine ⟨answers, s, hrun, rfl, ?_⟩
  exact disk_read_written
    (show writesAndRead = [.write 0 5 2 fun _ => 7] ++ .write 1 5 2 (fun _ => 9)
      :: [.write 0 6 1 fun _ => 8] ++ [.read 1 5 2 fun _ => 0] from rfl)
    (fun _ => ⟨rfl, rfl⟩) writesAndRead_fits (by decide) havoids hrun

end AceOS.Drivers
