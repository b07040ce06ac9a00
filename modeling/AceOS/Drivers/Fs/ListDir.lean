import AceOS.Drivers.Fs.CurrentDir
import AceOS.Drivers.Fs.Names
import AceOS.Drivers.Fs.Listing

/-!
# Listing a directory into a buffer

`fsListDir` gives the text that `fs_list_dir` prints; here the buffer it prints into has its
place, and a write outside it is `none`.  A piece goes in when one byte is left behind it and
its NUL, so the text is the longest prefix of the listing made of whole pieces that fits
(`fsListDir_prefix`).  No sum of an offset and a length runs around, since a directory has at
most 64 entries of at most 68 bytes each.
-/

namespace AceOS.Drivers.Fs

open Filesystem Memory

/-! ### The code -/

def putBytes (buffer : List UInt8) (offset : Nat) (bytes : List UInt8) : Option (List UInt8) :=
  if offset + bytes.length ≤ buffer.length then
    some (buffer.take offset ++ (bytes ++ buffer.drop (offset + bytes.length)))
  else none

/-- The guarded appends of one entry; `false` for a `break`. -/
def fsAppendPiecesInto (bufferSize : Nat) : (pieces : List (List UInt8)) → (offset : Nat) →
    (buffer : List UInt8) → Option (Nat × List UInt8 × Bool)
  | [], offset, buffer => some (offset, buffer, true)
  | piece :: pieces, offset, buffer =>
      if sub32 bufferSize 1 ≤ add32 offset piece.length then some (offset, buffer, false)
      else do
        let buffer ← putBytes buffer offset piece
        fsAppendPiecesInto bufferSize pieces (add32 offset piece.length) buffer

/-- The loop over the entries. -/
def fsListEntriesInto (fs : Filesystem) (bufferSize : Nat) : (files : List Nat) →
    (offset : Nat) → (buffer : List UInt8) → Option (Nat × List UInt8)
  | [], offset, buffer => some (offset, buffer)
  | fileIdx :: files, offset, buffer => do
      let entry ← fs.getFile fileIdx
      match ← fsAppendPiecesInto bufferSize (fsListPieces entry) offset buffer with
      | (offset, buffer, true) => fsListEntriesInto fs bufferSize files offset buffer
      | (offset, buffer, false) => some (offset, buffer)

/-- `fs_list_dir`: the result and the buffer. -/
def fsListDirInto (path buffer : List UInt8) (bufferSize : Nat) (fs : Filesystem) :
    Option (Int × List UInt8) :=
  if !fs.initialized then some (-1, buffer)
  else do
    match ← fsListSlot fs path with
    | none => some (-1, buffer)
    | some dirIdx =>
        let buffer ← putBytes buffer 0 [0]
        let d ← fs.getDir dirIdx
        let (offset, buffer) ← fsListEntriesInto fs bufferSize d.files 0 buffer
        let buffer ← if offset < bufferSize then putBytes buffer offset [0] else some buffer
        some (intOfU32 offset, buffer)

/-! ### The listing -/

def asciiBytes (s : String) : List UInt8 := s.toList.map fun c => UInt8.ofNat c.toNat

/-- `"name (TYPE) size: xxx bytes\n"`. -/
def listingLine (e : FsEntry) : List UInt8 :=
  e.name ++ asciiBytes " (" ++ asciiBytes (if e.type = .directory then "DIR" else "FILE")
    ++ asciiBytes ") size: " ++ asciiBytes e.size.repr ++ asciiBytes " bytes\n"

/-- The lines of the entries in their order. -/
def listing (fs : Filesystem) (files : List Nat) : List UInt8 :=
  files.flatMap fun i => listingLine (fs.files i)

variable {fs : Filesystem} {size offset bufferSize limit : Nat} {text rest piece : List UInt8}
  {pieces : List (List UInt8)} {files : List Nat} {path : List UInt8} {d i k : Nat}

/-! ### Sizes -/

theorem fsSizeDigits_reverse {n : Nat} (hpos : 0 < size) (hn : size < 10 ^ n) :
    (fsSizeDigits n size).reverse = asciiBytes size.repr := by
  induction n generalizing size with
  | zero => omega
  | succ n ih =>
      have hdigit : ∀ m, m < 10 → UInt8.ofNat (48 + m) = UInt8.ofNat (Nat.digitChar m).toNat := by
        intro m hm
        rw [Nat.toNat_digitChar_of_lt_ten hm]
      rw [fsSizeDigits, if_neg (by omega), List.reverse_cons,
        hdigit _ (Nat.mod_lt size (by decide)), asciiBytes, Nat.toList_repr]
      by_cases hsmall : size < 10
      · rw [Nat.toDigits_of_lt_base hsmall, Nat.mod_eq_of_lt hsmall, Nat.div_eq_of_lt hsmall]
        cases n <;> rfl
      · have hdiv : 0 < size / 10 := Nat.div_pos (by omega) (by decide)
        have hlt : size / 10 < 10 ^ n := by
          rw [Nat.div_lt_iff_lt_mul (by decide), ← Nat.pow_succ]
          exact hn
        rw [ih hdiv hlt, Nat.toDigits_of_base_le (by decide) (by omega), List.map_append,
          asciiBytes, Nat.toList_repr]
        rfl

/-- **A size is printed in decimal.** -/
theorem fsSizeStr_eq (hsize : size < 10 ^ 16) : fsSizeStr size = asciiBytes size.repr := by
  rw [fsSizeStr]
  split
  · rename_i h0
    rw [h0]
    decide
  · exact fsSizeDigits_reverse (by omega) hsize

theorem length_repr_le (hsize : size < 10 ^ 16) : (asciiBytes size.repr).length ≤ 16 := by
  rw [asciiBytes, List.length_map, Nat.toList_repr,
    Nat.length_toDigits_le_iff (by decide) (by decide)]
  exact hsize

theorem flatten_fsListPieces (e : FsEntry) (hsize : e.size < 10 ^ 16) :
    (fsListPieces e).flatten = listingLine e := by
  have htype : fsTypeStr e.type = asciiBytes (if e.type = .directory then "DIR" else "FILE") := by
    cases e.type <;> decide
  rw [fsListPieces, fsSizeStr_eq hsize, htype, listingLine]
  simp only [List.flatten_cons, List.flatten_nil, List.append_nil, List.append_assoc]
  rfl

theorem length_listingLine (e : FsEntry) (hname : e.name.length ≤ fsMaxFilenameLen - 1)
    (hsize : e.size < 10 ^ 16) : (listingLine e).length ≤ 68 := by
  have hrepr := length_repr_le hsize
  have htype : (asciiBytes (if e.type = .directory then "DIR" else "FILE")).length ≤ 4 := by
    cases e.type <;> decide
  have hopen : (asciiBytes " (").length = 2 := by decide
  have hmiddle : (asciiBytes ") size: ").length = 8 := by decide
  have hend : (asciiBytes " bytes\n").length = 7 := by decide
  rw [show fsMaxFilenameLen - 1 = 31 from rfl] at hname
  rw [listingLine]
  simp only [List.length_append]
  omega

/-! ### The loops -/

theorem putBytes_append (h : piece.length ≤ rest.length) :
    putBytes (text ++ rest) text.length piece
      = some (text ++ (piece ++ rest.drop piece.length)) := by
  rw [putBytes, if_pos (by rw [List.length_append]; omega), List.take_left, List.drop_append]
  rw [List.drop_of_length_le (by omega), List.nil_append, Nat.add_sub_cancel_left]

/-- A buffer of `bufferSize` bytes that begins with `text`, with room for a byte and a NUL. -/
structure Filled (bufferSize : Nat) (text rest : List UInt8) : Prop where
  length_eq : (text ++ rest).length = bufferSize
  room : text.length < bufferSize - 1

/-- **The appends of one entry** write a prefix of the pieces into the buffer, all of them if
they fit. -/
theorem fsAppendPiecesInto_spec (h : Filled bufferSize text rest) (hu : bufferSize < 4294967296)
    (hsum : text.length + pieces.flatten.length < 4294967296) : ∃ t rest' ok,
      fsAppendPieces (sub32 bufferSize 1) pieces text = (t, ok) ∧
      fsAppendPiecesInto bufferSize pieces text.length (text ++ rest)
        = some (t.length, t ++ rest', ok) ∧
      Filled bufferSize t rest' ∧ t <+: text ++ pieces.flatten ∧
      (ok = true → t = text ++ pieces.flatten) ∧
      (ok = false → bufferSize - 1 ≤ (text ++ pieces.flatten).length) := by
  induction pieces generalizing text rest with
  | nil =>
      have hnil : text ++ [].flatten = text := List.append_nil text
      exact ⟨text, rest, true, rfl, rfl, h, hnil.symm ▸ List.prefix_refl text,
        fun _ => hnil.symm, nofun⟩
  | cons piece pieces ih =>
      obtain ⟨hsize, hroom⟩ := h
      rw [List.length_append] at hsize
      rw [List.flatten_cons, List.length_append] at hsum
      have hone : sub32 bufferSize 1 = bufferSize - 1 := sub32_of_le hu (by omega)
      have hadd : add32 text.length piece.length = text.length + piece.length :=
        add32_of_lt (by omega)
      have hassoc : text ++ (piece :: pieces).flatten = text ++ piece ++ pieces.flatten := by
        rw [List.flatten_cons, List.append_assoc]
      rw [fsAppendPieces, fsAppendPiecesInto, hone, hadd, hassoc]
      by_cases hfull : bufferSize - 1 ≤ text.length + piece.length
      · rw [if_pos hfull, if_pos hfull]
        refine ⟨text, rest, false, rfl, rfl, ⟨by rw [List.length_append]; exact hsize, hroom⟩,
          ?_, nofun, fun _ => ?_⟩
        · rw [List.append_assoc]
          exact List.prefix_append text _
        · rw [List.length_append, List.length_append]
          omega
      · rw [if_neg hfull, if_neg hfull, putBytes_append (by omega)]
        have hfill : Filled bufferSize (text ++ piece) (rest.drop piece.length) := by
          refine ⟨?_, ?_⟩
          · simp only [List.length_append, List.length_drop]
            omega
          · rw [List.length_append]
            omega
        obtain ⟨t, rest', ok, hpieces, hinto, hrest⟩ :=
          ih hfill (by rw [List.length_append]; omega)
        rw [hone] at hpieces
        rw [List.length_append, List.append_assoc] at hinto
        exact ⟨t, rest', ok, hpieces, hinto, hrest⟩

/-- What a listing needs of the entries: names that fit, and sizes of at most 16 digits. -/
structure Listable (fs : Filesystem) (files : List Nat) : Prop where
  index : ∀ i ∈ files, fs.getFile i = some (fs.files i)
  name : ∀ i ∈ files, (fs.files i).name.length ≤ fsMaxFilenameLen - 1
  size : ∀ i ∈ files, (fs.files i).size < 10 ^ 16

theorem Listable.tail (h : Listable fs (i :: files)) : Listable fs files :=
  ⟨fun j hj => h.index j (List.mem_cons_of_mem i hj),
    fun j hj => h.name j (List.mem_cons_of_mem i hj),
    fun j hj => h.size j (List.mem_cons_of_mem i hj)⟩

theorem Listable.length_listing (h : Listable fs files) :
    (listing fs files).length ≤ 68 * files.length := by
  induction files with
  | nil => exact Nat.zero_le _
  | cons i files ih =>
      have hline := length_listingLine (fs.files i) (h.name i (List.mem_cons_self ..))
        (h.size i (List.mem_cons_self ..))
      have htail := ih h.tail
      rw [listing, List.flatMap_cons, List.length_append, List.length_cons]
      rw [listing] at htail
      omega

/-- **The loop over the entries** writes a prefix of the listing, all of it if it fits. -/
theorem fsListEntriesInto_spec (hlist : Listable fs files) (h : Filled bufferSize text rest)
    (hu : bufferSize < 4294967296)
    (hsum : text.length + (listing fs files).length < 4294967296) : ∃ t rest',
      fsListEntries fs (sub32 bufferSize 1) files text = some t ∧
      fsListEntriesInto fs bufferSize files text.length (text ++ rest)
        = some (t.length, t ++ rest') ∧
      Filled bufferSize t rest' ∧ t <+: text ++ listing fs files ∧
      (t = text ++ listing fs files ∨ bufferSize - 1 ≤ (text ++ listing fs files).length) := by
  induction files generalizing text rest with
  | nil =>
      have hnil : text ++ listing fs [] = text := List.append_nil text
      exact ⟨text, rest, rfl, rfl, h, hnil.symm ▸ List.prefix_refl text, Or.inl hnil.symm⟩
  | cons i files ih =>
      have hmem : i ∈ i :: files := List.mem_cons_self ..
      have hline := flatten_fsListPieces (fs.files i) (hlist.size i hmem)
      have hcons : text ++ listing fs (i :: files)
          = text ++ listingLine (fs.files i) ++ listing fs files := by
        rw [listing, List.flatMap_cons, List.append_assoc]
        rfl
      rw [← List.length_append, hcons, List.length_append, List.length_append] at hsum
      obtain ⟨t, rest', ok, hpieces, hinto, hfill, hprefix, hall, hstop⟩ :=
        fsAppendPiecesInto_spec h hu (by rw [hline]; omega)
      rw [hline] at hprefix hall hstop
      rw [fsListEntries, fsListEntriesInto, hlist.index i hmem, hcons]
      simp only [Option.bind_eq_bind, Option.bind_some, hpieces, hinto]
      cases ok with
      | false =>
          refine ⟨t, rest', rfl, rfl, hfill, hprefix.trans (List.prefix_append _ _), Or.inr ?_⟩
          have hfull := hstop rfl
          rw [List.length_append]
          omega
      | true =>
          obtain rfl := hall rfl
          exact ih hlist.tail hfill (by rw [List.length_append]; omega)

/-! ### The call -/

/-- Names are C strings, and sizes are `uint32_t`. -/
structure FsTyped (fs : Filesystem) : Prop where
  name : ∀ i, (0 : UInt8) ∉ (fs.files i).name
  size : ∀ i, (fs.files i).size < 4294967296

/-- The path names the directory with slot `k`. -/
def ListsDir (fs : Filesystem) (path : List UInt8) (k : Nat) : Prop :=
  (fsIsRoot path = true ∧ k = 0) ∨ ∃ i < fs.fileCount, fsFind fs path = some (i : Int) ∧
    (fs.files i).type = .directory ∧ k < fs.dirCount ∧ EntryOfSlot fs i k

/-- A path with components that names a directory entry names a directory. -/
theorem FsTree.exists_listsDir (h : FsTree fs) (hp : IsPath path) (hne : components path ≠ [])
    (hdir : NamesDir fs path) : ∃ k, ListsDir fs path k := by
  obtain ⟨i, hi, hfind, htype⟩ := hdir
  have hl := (h.fsFind_eq_some_iff hp).mp hfind
  obtain ⟨hmem, hlt, -, -, hname⟩ := h.lookup_some hl
  obtain ⟨k, hk, hkname, hkparent⟩ := h.slot (fs.files i).parentDir hlt i hmem htype (by
    rw [hname]
    exact lastName_ne_nil hne)
  exact ⟨k, Or.inr ⟨i, hi, hfind, htype, hk, hkname, hkparent⟩⟩

/-- The slot that is listed: another one only where neither lists anything. -/
theorem FsTree.fsListSlot_eq (h : FsTree fs) (hdir : ListsDir fs path k) :
    ∃ l, fsListSlot fs path = some (some l) ∧ l < fs.dirCount ∧
      (fs.directories l).files = (fs.directories k).files := by
  rcases hdir with ⟨hroot, rfl⟩ | ⟨i, hi, hfind, htype, hk, hkname, hkparent⟩
  · exact ⟨0, by rw [fsListSlot, if_pos hroot], h.dirCount_pos, rfl⟩
  · have hroot : ¬fsIsRoot path = true := by
      intro hroot
      rw [fsFind, if_pos hroot, Option.some.injEq] at hfind
      omega
    have hslot : ∃ l, slotOf fs (fs.files i).name (fs.files i).parentDir = some l := by
      rw [← Option.isSome_iff_exists, slotOf, List.find?_isSome]
      exact ⟨k, List.mem_range.mpr hk, decide_eq_true ⟨hkname, hkparent⟩⟩
    obtain ⟨l, hl⟩ := hslot
    obtain ⟨hlt, hlname, hlparent⟩ := slotOf_some hl
    refine ⟨l, ?_, hlt, ?_⟩
    · rw [fsListSlot, if_neg hroot, hfind]
      simp only [Option.bind_eq_bind, Option.bind_some]
      rw [if_neg (by omega), Int.toNat_natCast, h.getFile_eq hi, Option.bind_some,
        if_neg (not_not.mpr htype), h.fsFindSlot_eq, hl]
    · by_cases hnil : (fs.files i).name = []
      · rw [h.tombstone l hlt (hlname.trans hnil), h.tombstone k hk (hkname.trans hnil)]
      · rw [h.slot_unique l hlt k hk (hlname ▸ hnil) (hlname.trans hkname.symm)
          (hlparent.trans hkparent.symm)]

theorem FsTree.listable (h : FsTree fs) (htyped : FsTyped fs) (hd : d < fs.dirCount) :
    Listable fs (fs.directories d).files where
  index := fun i hi => h.getFile_eq (h.listed_lt d hd i hi)
  name := fun i hi => (h.listed_name d hd i hi).length_le
  size := fun i _ => Nat.lt_trans (htyped.size i) (by decide)

theorem FsTyped.listing_noNul (htyped : FsTyped fs) : (0 : UInt8) ∉ listing fs files := by
  have hrepr : ∀ n : Nat, (0 : UInt8) ∉ asciiBytes n.repr := by
    intro n hmem
    rw [asciiBytes, Nat.toList_repr, List.mem_map] at hmem
    obtain ⟨c, hc, hzero⟩ := hmem
    have hdigit := Nat.isDigit_of_mem_toDigits (by decide) (by decide) hc
    rw [Char.isDigit, Bool.and_eq_true, decide_eq_true_iff, decide_eq_true_iff] at hdigit
    have hlow : 48 ≤ c.toNat := UInt32.le_iff_toNat_le.mp hdigit.1
    have hhigh : c.toNat ≤ 57 := UInt32.le_iff_toNat_le.mp hdigit.2
    have hval := congrArg UInt8.toNat hzero
    rw [UInt8.toNat_ofNat', Nat.mod_eq_of_lt (by omega)] at hval
    rw [hval] at hlow
    exact absurd hlow (by decide)
  rw [listing, List.mem_flatMap]
  rintro ⟨i, -, hi⟩
  have htype : (0 : UInt8) ∉ asciiBytes (if (fs.files i).type = .directory then "DIR"
      else "FILE") := by
    cases (fs.files i).type <;> decide
  simp only [listingLine, List.mem_append] at hi
  rcases hi with ((((hi | hi) | hi) | hi) | hi) | hi
  · exact htyped.name i hi
  · exact absurd hi (by decide)
  · exact htype hi
  · exact absurd hi (by decide)
  · exact hrepr _ hi
  · exact absurd hi (by decide)

/-- **What `fs_list_dir` leaves in the buffer**: the text of `fsListDir`, with its NUL. -/
theorem fsListDirInto_eq (h : FsTree fs) (htyped : FsTyped fs) (hdir : ListsDir fs path k)
    {buffer : List UInt8} (hsize : 2 ≤ buffer.length) (hu : buffer.length < 4294967296) :
    ∃ t rest, fsListDir path buffer.length fs = some ((t.length : Int), t) ∧
      fsListDirInto path buffer buffer.length fs = some ((t.length : Int), t ++ 0 :: rest) ∧
      (t ++ 0 :: rest).length = buffer.length ∧ t.length < buffer.length - 1 ∧
      t <+: listing fs (fs.directories k).files ∧
      (t = listing fs (fs.directories k).files ∨
        buffer.length - 1 ≤ (listing fs (fs.directories k).files).length) := by
  have hinit := h.not_initialized
  obtain ⟨l, hslot, hlt, hfiles⟩ := h.fsListSlot_eq hdir
  have hlist := h.listable htyped hlt
  have hlen := hlist.length_listing
  have hmax := h.length_le l hlt
  rw [show fsMaxFilesPerDir = 64 from rfl] at hmax
  have hstart : Filled buffer.length [] (0 :: buffer.drop 1) := by
    refine ⟨?_, ?_⟩
    · rw [List.nil_append, List.length_cons, List.length_drop]
      omega
    · rw [List.length_nil]
      omega
  have hput : putBytes buffer 0 [0] = some ([] ++ 0 :: buffer.drop 1) := by
    rw [putBytes, if_pos (by rw [List.length_singleton]; omega)]
    rfl
  obtain ⟨t, rest, htext, hinto, hfill, hprefix, hall⟩ :=
    fsListEntriesInto_spec hlist hstart hu (by rw [List.length_nil]; omega)
  rw [List.nil_append] at hprefix hall
  have hroom := hfill.room
  have hlength := hfill.length_eq
  rw [List.length_append] at hlength
  have ht : t.length ≤ (listing fs (fs.directories l).files).length := hprefix.length_le
  have hint : intOfU32 t.length = (t.length : Int) := by
    rw [intOfU32, if_pos (by omega)]
  have hnul : putBytes (t ++ rest) t.length [0] = some (t ++ 0 :: rest.drop 1) :=
    putBytes_append (by
      rw [List.length_singleton]
      omega)
  rw [← hfiles]
  refine ⟨t, rest.drop 1, ?_, ?_, ?_, hroom, hprefix, hall⟩
  · rw [fsListDir, hinit, if_neg Bool.false_ne_true, hslot]
    simp only [Option.bind_eq_bind, Option.bind_some, h.getDir_eq hlt, htext, hint]
  · rw [List.length_nil] at hinto
    rw [fsListDirInto, hinit, if_neg Bool.false_ne_true, hslot]
    simp only [Option.bind_eq_bind, Option.bind_some, hput, h.getDir_eq hlt, hinto]
    rw [if_pos (by omega), hnul, Option.bind_some, hint]
  · rw [List.length_append, List.length_cons, List.length_drop]
    omega

/-- **A listing is a bounded prefix.**  No write falls outside the buffer, its text ends in a
NUL and has the length returned, it is a prefix of the listing, and the whole of it if and
only if that has at most `buffer_size - 2` bytes. -/
theorem fsListDir_prefix (fs : Filesystem) (h : FsTree fs) (htyped : FsTyped fs)
    (path : List UInt8) (k : Nat) (hdir : ListsDir fs path k) (buffer : List UInt8)
    (hsize : 2 ≤ buffer.length) (hu : buffer.length < 4294967296) : ∃ text buffer',
      fsListDirInto path buffer buffer.length fs = some ((text.length : Int), buffer') ∧
      buffer'.length = buffer.length ∧ cstr buffer' = some text ∧
      text <+: listing fs (fs.directories k).files ∧
      (text = listing fs (fs.directories k).files ↔
        (listing fs (fs.directories k).files).length ≤ buffer.length - 2) := by
  obtain ⟨t, rest, -, hinto, hlength, hroom, hprefix, hall⟩ :=
    fsListDirInto_eq h htyped hdir hsize hu
  have h0 : (0 : UInt8) ∉ t := fun hmem => htyped.listing_noNul (List.IsPrefix.mem hmem hprefix)
  refine ⟨t, _, hinto, hlength, cstr_append h0, hprefix, ?_⟩
  constructor
  · intro heq
    rw [← heq]
    omega
  · intro hle
    exact hall.resolve_right (by omega)

/-- Theorem `fsListDir_prefix` for a root with one directory, whose line has 22 bytes, and
buffers of 24 and 23 bytes. -/
theorem fsListDir_prefix_pathA : ∃ fs, FsTree fs ∧
    listing fs (fs.directories 0).files = asciiBytes "a (DIR) size: 0 bytes\n" ∧
    (∃ buffer', fsListDirInto [slash] (List.replicate 24 1) 24 fs = some (22, buffer') ∧
      cstr buffer' = some (asciiBytes "a (DIR) size: 0 bytes\n")) ∧
    ∃ text buffer', fsListDirInto [slash] (List.replicate 23 1) 23 fs
        = some ((text.length : Int), buffer') ∧ cstr buffer' = some text ∧
      text ≠ asciiBytes "a (DIR) size: 0 bytes\n" := by
  have hd : mkdirParent fsInit pathA = some 0 := by decide
  obtain ⟨-, htree⟩ := fsInit_tree.addDir_of_mkdirParent hd (by decide)
  have htyped : FsTyped (fsInit.addDir 0 (dirEntry fsInit pathA 0)) := by
    constructor
    · intro i
      by_cases hi : i = 0
      · rw [hi]
        decide
      · rw [addDir_file_of_ne hi]
        exact List.not_mem_nil
    · intro i
      by_cases hi : i = 0
      · rw [hi]
        decide
      · rw [addDir_file_of_ne hi]
        exact show 0 < 4294967296 by decide
  have hlisting : listing (fsInit.addDir 0 (dirEntry fsInit pathA 0))
      ((fsInit.addDir 0 (dirEntry fsInit pathA 0)).directories 0).files
        = asciiBytes "a (DIR) size: 0 bytes\n" := by decide
  have hlen : (asciiBytes "a (DIR) size: 0 bytes\n").length = 22 := by decide
  refine ⟨_, htree, hlisting, ?_, ?_⟩
  · obtain ⟨text, buffer', hinto, -, hcstr, -, hall⟩ := fsListDir_prefix _ htree htyped [slash] 0
      (Or.inl ⟨rfl, rfl⟩) (List.replicate 24 1) (by decide) (by decide)
    rw [hlisting, hlen] at hall
    obtain rfl := hall.mpr (by decide)
    exact ⟨buffer', hinto, hcstr⟩
  · obtain ⟨text, buffer', hinto, -, hcstr, -, hall⟩ := fsListDir_prefix _ htree htyped [slash] 0
      (Or.inl ⟨rfl, rfl⟩) (List.replicate 23 1) (by decide) (by decide)
    rw [hlisting, hlen] at hall
    exact ⟨text, buffer', hinto, hcstr, fun heq => absurd (hall.mp heq) (by decide)⟩

/-! ### Listings return -/

theorem FsTree.fsFind_total (h : FsTree fs) (hp : IsPath path) : ∃ r, fsFind fs path = some r ∧
    (¬r < 0 → r.toNat < fs.fileCount) := by
  cases hl : lookup fs path with
  | none =>
      obtain ⟨code, hcode, hfind⟩ := h.fsFind_of_none hp hl
      exact ⟨code, hfind, fun hnot => absurd hcode hnot⟩
  | some i => exact ⟨i, h.fsFind_of_some hp hl, fun _ => (h.lookup_some hl).2.2.1⟩

theorem FsTree.fsListSlot_total (h : FsTree fs) (hp : IsPath path) :
    ∃ r, fsListSlot fs path = some r ∧ ∀ l, r = some l → l < fs.dirCount := by
  rw [fsListSlot]
  split
  · exact ⟨_, rfl, fun l hl => Option.some.inj hl ▸ h.dirCount_pos⟩
  · obtain ⟨r, hr, hlt⟩ := h.fsFind_total hp
    rw [hr, Option.bind_eq_bind, Option.bind_some]
    split
    · exact ⟨none, rfl, fun l hl => by cases hl⟩
    · rename_i hneg
      rw [h.getFile_eq (hlt hneg), Option.bind_eq_bind, Option.bind_some]
      split
      · exact ⟨none, rfl, fun l hl => by cases hl⟩
      · rw [h.fsFindSlot_eq]
        exact ⟨_, rfl, fun l hl => (slotOf_some hl).1⟩

theorem FsTree.fsListEntries_total (h : FsTree fs) (limit : Nat) {files : List Nat}
    (hfiles : ∀ i ∈ files, i < fs.fileCount) (text : List UInt8) :
    ∃ text', fsListEntries fs limit files text = some text' := by
  induction files generalizing text with
  | nil => exact ⟨text, rfl⟩
  | cons i files ih =>
      rw [fsListEntries, h.getFile_eq (hfiles i (List.mem_cons_self ..)), Option.bind_eq_bind,
        Option.bind_some]
      split
      · exact ih (fun j hj => hfiles j (List.mem_cons_of_mem i hj)) _
      · exact ⟨_, rfl⟩

theorem FsTree.fsListDir_total (h : FsTree fs) (hp : IsPath path) (n : Nat) :
    ∃ r, fsListDir path n fs = some r := by
  obtain ⟨r, hr, hlt⟩ := h.fsListSlot_total hp
  rw [fsListDir, h.not_initialized, if_neg Bool.false_ne_true, hr, Option.bind_eq_bind,
    Option.bind_some]
  cases r with
  | none => exact ⟨_, rfl⟩
  | some l =>
      obtain ⟨text, htext⟩ := h.fsListEntries_total (sub32 n 1) (h.listed_lt l (hlt l rfl)) []
      dsimp only
      rw [h.getDir_eq (hlt l rfl), Option.bind_eq_bind, Option.bind_some, htext]
      exact ⟨_, rfl⟩

theorem FsTree.fsTreeSlot_total (h : FsTree fs) (hp : IsPath path) :
    ∃ r, fsTreeSlot fs path = some r ∧ ∀ l, r = some l → l < fs.dirCount := by
  rw [fsTreeSlot]
  split
  · exact ⟨_, rfl, fun l hl => Option.some.inj hl ▸ h.dirCount_pos⟩
  · obtain ⟨r, hr, hlt⟩ := h.fsFind_total hp
    rw [hr, Option.bind_eq_bind, Option.bind_some]
    split
    · exact ⟨none, rfl, fun l hl => by cases hl⟩
    · rename_i hneg
      rw [h.getFile_eq (hlt hneg), Option.bind_eq_bind, Option.bind_some]
      split
      · exact ⟨none, rfl, fun l hl => by cases hl⟩
      · rw [h.fsFindSlot_eq, Option.bind_eq_bind, Option.bind_some]
        refine ⟨_, rfl, fun l hl => ?_⟩
        obtain rfl := Option.some.inj hl
        cases hs : slotOf fs (fs.files r.toNat).name (fs.files r.toNat).parentDir with
        | none => exact h.dirCount_pos
        | some k => exact (slotOf_some hs).1

theorem FsTree.fsTreeEntries_total (h : FsTree fs) (n depth : Nat)
    {subdir : List UInt8 → Option (List UInt8)} (hsub : ∀ b, ∃ b', subdir b = some b')
    {files : List Nat} (hfiles : ∀ i ∈ files, i < fs.fileCount) (buffer : List UInt8) :
    ∃ buffer', fsTreeEntries fs n depth subdir files buffer = some buffer' := by
  induction files generalizing buffer with
  | nil => exact ⟨buffer, rfl⟩
  | cons i files ih =>
      have ih := ih fun j hj => hfiles j (List.mem_cons_of_mem i hj)
      rw [fsTreeEntries, h.getFile_eq (hfiles i (List.mem_cons_self ..)), Option.bind_eq_bind,
        Option.bind_some]
      split
      · split
        · obtain ⟨b, hb⟩ := hsub (fsTreeIndent n (depth + 1) buffer ++ (fs.files i).name
            ++ [slash, 10])
          rw [hb, Option.bind_eq_bind, Option.bind_some]
          exact ih b
        · exact ih _
      · split
        · exact ih _
        · exact ih _

/-- `fs_tree` returns where the stack holds a path. -/
theorem FsTree.fsTree_total (h : FsTree fs) (hp : IsPath path)
    {stack : List UInt8 → Nat → List UInt8} (hstack : ∀ path depth, IsPath (stack path depth))
    (n : Nat) : ∃ buffer, fsTree stack path n fs = some buffer := by
  have hfrom : ∀ fuel path depth buffer, IsPath path →
      ∃ buffer', fsTreeFrom stack fs n fuel path depth buffer = some buffer' := by
    intro fuel
    induction fuel with
    | zero => exact fun path depth buffer _ => ⟨buffer, rfl⟩
    | succ fuel ih =>
        intro path depth buffer hp
        obtain ⟨r, hr, hlt⟩ := h.fsTreeSlot_total hp
        rw [fsTreeFrom, h.not_initialized, if_neg Bool.false_ne_true, hr, Option.bind_eq_bind,
          Option.bind_some]
        cases r with
        | none => exact ⟨buffer, rfl⟩
        | some l =>
            dsimp only
            rw [h.getDir_eq (hlt l rfl), Option.bind_eq_bind, Option.bind_some]
            exact h.fsTreeEntries_total n depth (fun b => ih _ (depth + 1) b (hstack path depth))
              (h.listed_lt l (hlt l rfl)) _
  exact hfrom 11 path 0 [] hp

end AceOS.Drivers.Fs
