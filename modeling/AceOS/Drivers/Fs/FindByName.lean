import AceOS.Drivers.Fs.ListDir
import AceOS.Libc.String
import AceOS.Libc.Stdio

/-!
# Searching by name (`fs_find_by_name` in `src/drivers/fs.c`)

The search goes through the table of entries and prints a line for each match.  The lines go
through `snprintf`, which writes nothing and returns 0: the number of matches is right, and the
buffer stays empty (`fsFindByName_eq`).  So what is found is reported only where nothing is
(`fsFindByName_iff`).
-/

namespace AceOS.Drivers.Fs

open Filesystem Memory Libc

/-! ### The code -/

def findFormat : List UInt8 := asciiBytes "%s (%s)\n"

/-- The loop over the entries, with `n` to go. -/
def fsFindByNameLoop (fs : Filesystem) (name : List UInt8) (bufferSize : Nat) :
    (n i offset : Nat) → (results : List UInt8) → (foundCount : Int) → Option (Int × List UInt8)
  | 0, _, _, results, foundCount => some (foundCount, results)
  | n + 1, i, offset, results, foundCount => do
      let entry ← fs.getFile i
      if entry.name ≠ [] ∧ strstr entry.name name ≠ none then
        let (written, text) := snprintf (results.drop offset) (sub32 bufferSize offset) findFormat
          [.str (some entry.name), .str (some (fsTypeStr entry.type))]
        let results := results.take offset ++ text
        if written < 0 ∨ sub32 bufferSize offset ≤ written.toNat then some (foundCount, results)
        else
          fsFindByNameLoop fs name bufferSize n (i + 1) (add32 offset written.toNat) results
            (foundCount + 1)
      else fsFindByNameLoop fs name bufferSize n (i + 1) offset results foundCount

/-- `fs_find_by_name`: the result and the buffer. -/
def fsFindByName (name results : List UInt8) (bufferSize : Nat) (fs : Filesystem) :
    Option (Int × List UInt8) :=
  if !fs.initialized then some (-1, results)
  else do
    let results ← putBytes results 0 [0]
    let (foundCount, results) ← fsFindByNameLoop fs name bufferSize fs.fileCount 0 0 results 0
    if foundCount = 0 then
      let results ← putBytes results 0
        (strncpy (asciiBytes "No files found matching pattern\n") bufferSize)
      some (foundCount, results)
    else some (foundCount, results)

/-! ### What a search finds -/

def NameMatches (name : List UInt8) (e : FsEntry) : Prop := e.name ≠ [] ∧ name <:+: e.name

instance (name : List UInt8) (e : FsEntry) : Decidable (NameMatches name e) :=
  inferInstanceAs (Decidable (_ ∧ _))

def matching (fs : Filesystem) (name : List UInt8) : List Nat :=
  (List.range fs.fileCount).filter fun i => NameMatches name (fs.files i)

def foundLine (e : FsEntry) : List UInt8 :=
  e.name ++ asciiBytes " (" ++ asciiBytes (if e.type = .directory then "DIR" else "FILE")
    ++ asciiBytes ")\n"

def foundText (fs : Filesystem) (name : List UInt8) : List UInt8 :=
  (matching fs name).flatMap fun i => foundLine (fs.files i)

variable {fs : Filesystem} {name buffer : List UInt8} {bufferSize : Nat}

/-- The loop counts the matches and leaves the buffer as it is. -/
theorem fsFindByNameLoop_eq (fs : Filesystem) (h0 : (0 : UInt8) ∉ name) (hpos : 0 < bufferSize)
    (hu : bufferSize < 4294967296) (n i : Nat) (hfiles : i + n ≤ fsMaxFiles)
    (results : List UInt8) (foundCount : Int) :
    fsFindByNameLoop fs name bufferSize n i 0 results foundCount
      = some (foundCount +
          ((List.range' i n).filter fun i => NameMatches name (fs.files i)).length, results) := by
  induction n generalizing i foundCount with
  | zero =>
      rw [fsFindByNameLoop, List.range'_zero, List.filter_nil, List.length_nil]
      simp
  | succ n ih =>
      have hget : fs.getFile i = some (fs.files i) := if_pos (by omega)
      have hmatch : ((fs.files i).name ≠ [] ∧ strstr (fs.files i).name name ≠ none) ↔
          NameMatches name (fs.files i) := by
        rw [NameMatches, strstr_ne_none_iff h0]
      have hsize : sub32 bufferSize 0 = bufferSize := sub32_of_le hu (Nat.zero_le _)
      have hadd : add32 0 0 = 0 := add32_of_lt (by decide)
      rw [fsFindByNameLoop, hget, Option.bind_eq_bind, Option.bind_some, List.range'_succ]
      by_cases hm : NameMatches name (fs.files i)
      · rw [if_pos (hmatch.mpr hm), List.filter_cons_of_pos (by simpa using hm), List.length_cons]
        simp only [snprintf, vsnprintf, List.take_zero, List.drop_zero, List.nil_append, hsize,
          Int.toNat_zero, hadd]
        rw [if_neg (by omega), ih (i + 1) (by omega)]
        congr 2
        omega
      · rw [if_neg (mt hmatch.mp hm), List.filter_cons_of_neg (by simpa using hm)]
        exact ih (i + 1) (by omega) foundCount

/-- **What a search leaves**: the number of matches, and an empty string in the buffer. -/
theorem fsFindByName_eq (h : FsTree fs) (h0 : (0 : UInt8) ∉ name) (hpos : 0 < buffer.length)
    (hu : buffer.length < 4294967296) :
    ∃ buffer', fsFindByName name buffer buffer.length fs
        = some (((matching fs name).length : Int), buffer') ∧
      (matching fs name ≠ [] → cstr buffer' = some []) := by
  have hput : putBytes buffer 0 [0] = some (0 :: buffer.drop 1) := by
    rw [putBytes, if_pos (by rw [List.length_singleton]; omega)]
    rfl
  have hloop := fsFindByNameLoop_eq fs h0 hpos hu fs.fileCount 0
    (by rw [Nat.zero_add]; exact h.fileCount_le) (0 :: buffer.drop 1) 0
  rw [Int.zero_add, ← List.range_eq_range'] at hloop
  rw [fsFindByName, h.not_initialized, if_neg Bool.false_ne_true, hput]
  simp only [Option.bind_eq_bind, Option.bind_some, hloop]
  by_cases hnone : matching fs name = []
  · have hzero : ((matching fs name).length : Int) = 0 := by rw [hnone]; rfl
    have hlen : (strncpy (asciiBytes "No files found matching pattern\n") buffer.length).length
        = buffer.length := by
      rw [strncpy, List.length_append, List.length_take, List.length_replicate]
      omega
    have hfits : 0 + (strncpy (asciiBytes "No files found matching pattern\n") buffer.length).length
        ≤ (0 :: buffer.drop 1).length := by
      rw [hlen, List.length_cons, List.length_drop]
      omega
    rw [← matching, if_pos hzero, putBytes, if_pos hfits]
    exact ⟨_, rfl, fun hne => absurd hnone hne⟩
  · have hne : ¬((matching fs name).length : Int) = 0 := by
      rwa [Int.natCast_eq_zero, List.length_eq_zero_iff]
    rw [← matching, if_neg hne]
    exact ⟨_, rfl, fun _ => rfl⟩

theorem fsFindByName_none (h : FsTree fs) (h0 : (0 : UInt8) ∉ name) (hpos : 0 < buffer.length)
    (hu : buffer.length < 4294967296) (hnone : matching fs name = []) :
    fsFindByName name buffer buffer.length fs
      = some (0, strncpy (asciiBytes "No files found matching pattern\n") buffer.length) := by
  have hput : putBytes buffer 0 [0] = some (0 :: buffer.drop 1) := by
    rw [putBytes, if_pos (by rw [List.length_singleton]; omega)]
    rfl
  have hloop := fsFindByNameLoop_eq fs h0 hpos hu fs.fileCount 0
    (by rw [Nat.zero_add]; exact h.fileCount_le) (0 :: buffer.drop 1) 0
  rw [Int.zero_add, ← List.range_eq_range', ← matching, hnone, List.length_nil,
    Int.natCast_zero] at hloop
  have hlen : (0 :: buffer.drop 1).length = buffer.length := by
    rw [List.length_cons, List.length_drop]
    omega
  have hcopy : (strncpy (asciiBytes "No files found matching pattern\n") buffer.length).length
      = buffer.length := by
    rw [strncpy, List.length_append, List.length_take, List.length_replicate]
    omega
  rw [fsFindByName, h.not_initialized, if_neg Bool.false_ne_true, hput]
  simp only [Option.bind_eq_bind, Option.bind_some, hloop, if_true]
  rw [putBytes, hcopy, hlen, if_pos (by omega), List.take_zero, List.nil_append, Nat.zero_add,
    List.drop_of_length_le (Nat.le_of_eq hlen), List.append_nil]
  rfl

theorem foundLine_ne_nil (e : FsEntry) : foundLine e ≠ [] := by
  intro hnil
  have hlast := (List.append_eq_nil_iff.mp hnil).2
  exact absurd hlast (by decide)

theorem foundText_eq_nil_iff : foundText fs name = [] ↔ matching fs name = [] := by
  rw [foundText, List.flatMap_eq_nil_iff, List.eq_nil_iff_forall_not_mem]
  exact forall₂_congr fun i _ => iff_false_intro (foundLine_ne_nil _)

/-- **A search reports what it finds** if and only if it finds nothing. -/
theorem fsFindByName_iff (h : FsTree fs) (h0 : (0 : UInt8) ∉ name)
    (hroom : (foundText fs name).length < buffer.length) (hu : buffer.length < 4294967296) :
    (∃ (n : Int) (buffer' : List UInt8),
      fsFindByName name buffer buffer.length fs = some (n, buffer') ∧
      n = (matching fs name).length ∧ (0 < n → cstr buffer' = some (foundText fs name))) ↔
    matching fs name = [] := by
  obtain ⟨buffer', hfind, hempty⟩ := fsFindByName_eq h h0 (by omega) hu
  constructor
  · rintro ⟨n, b, heq, hn, htext⟩
    rw [hfind, Option.some.injEq, Prod.mk.injEq] at heq
    obtain ⟨-, rfl⟩ := heq
    by_contra hne
    have hpos : 0 < n := by
      rw [hn, Int.natCast_pos]
      exact List.length_pos_iff.mpr hne
    have hnil : foundText fs name = [] :=
      Option.some.inj ((htext hpos).symm.trans (hempty hne))
    exact hne (foundText_eq_nil_iff.mp hnil)
  · intro hnone
    refine ⟨_, buffer', hfind, rfl, fun hpos => ?_⟩
    rw [hnone] at hpos
    exact absurd hpos (by decide)

/-- There are a directory "a" and a file "b", and "z" is part of neither name. -/
theorem fsFindByName_noMatch : ∃ st buffer', Machine.run (fsStep noMemory)
      [.mkdir pathA, .create [slash, 98] 0] (fsInitState () ⟨fun _ => 0⟩) = some ([0, 0], st) ∧
    matching st.fs [97] = [0] ∧ matching st.fs [98] = [1] ∧
    fsFindByName [122] (List.replicate 16 1) 16 st.fs = some (0, buffer') := by
  have hcode : (Machine.run (fsStep noMemory) [.mkdir pathA, .create [slash, 98] 0]
      (fsInitState () ⟨fun _ => 0⟩)).map (fun r => decide (r.1 = [0, 0] ∧
        (matching r.2.fs [97] = [0] ∧ matching r.2.fs [98] = [1]) ∧
        matching r.2.fs [122] = [])) = some true := by
    decide +kernel
  obtain ⟨⟨os, st⟩, hrun, hst⟩ := Option.map_eq_some_iff.mp hcode
  obtain ⟨rfl, ⟨hdir, hfile⟩, hnone⟩ := of_decide_eq_true hst
  have hI := fsRun_text (by decide) (fsInitState_inv () ⟨fun _ => 0⟩) hrun
  have hroom : (foundText st.fs [122]).length < (List.replicate 16 (1 : UInt8)).length := by
    rw [foundText_eq_nil_iff.mpr hnone]
    decide
  obtain ⟨n, buffer', hfind, hn, -⟩ :=
    (fsFindByName_iff hI.tree (by decide) hroom (by decide)).mpr hnone
  rw [hnone] at hn
  subst hn
  exact ⟨st, buffer', hrun, hdir, hfile, hfind⟩

/-- With a directory "a" in the root, a search for "a" finds one entry and prints nothing. -/
theorem fsFindByName_silent : ∃ fs buffer', FsTree fs ∧
    foundText fs [97] = asciiBytes "a (DIR)\n" ∧
    fsFindByName [97] (List.replicate 16 1) 16 fs = some (1, buffer') ∧ cstr buffer' = some [] := by
  have hd : mkdirParent fsInit pathA = some 0 := by decide
  obtain ⟨-, htree⟩ := fsInit_tree.addDir_of_mkdirParent hd (by decide)
  have hmatching : matching (fsInit.addDir 0 (dirEntry fsInit pathA 0)) [97] = [0] := by decide
  have hpos : 0 < (List.replicate 16 (1 : UInt8)).length := by decide
  obtain ⟨buffer', hfind, hempty⟩ := fsFindByName_eq htree
    (show (0 : UInt8) ∉ [97] by decide) hpos (by decide)
  refine ⟨_, buffer', htree, by decide, ?_, hempty (by rw [hmatching]; simp)⟩
  rw [hmatching] at hfind
  exact hfind

end AceOS.Drivers.Fs
