import AceOS.Drivers.Fs.Model

/-!
# Listings, and paths that name the same

`fs_list_dir` and `fs_tree` print into a buffer.  `fs_tree` goes on into a subdirectory
with a path it means to put together by `snprintf`; that function writes nothing, so the
path is what the buffer on the stack happens to hold, and is a parameter here.

A call sees of its path the test for the root and the tokens.  `SamePath` says that two
paths agree in that, and then every call does the same with them.
-/

namespace AceOS.Drivers.Fs

open Memory

/-! ### The code -/

/-- `"DIR"` and `"FILE"`. -/
def fsTypeStr : FsEntryType → List UInt8
  | .directory => [68, 73, 82]
  | .file => [70, 73, 76, 69]

/-- The digits of a size, the last one first, with room for `n`. -/
def fsSizeDigits : (n size : Nat) → List UInt8
  | 0, _ => []
  | n + 1, size =>
      if size = 0 then [] else UInt8.ofNat (48 + size % 10) :: fsSizeDigits n (size / 10)

def fsSizeStr (size : Nat) : List UInt8 :=
  if size = 0 then [48] else (fsSizeDigits 16 size).reverse

/-- `"name (TYPE) size: xxx bytes\n"`, piece by piece. -/
def fsListPieces (entry : FsEntry) : List (List UInt8) :=
  [entry.name, [32, 40], fsTypeStr entry.type, [41, 32, 115, 105, 122, 101, 58, 32],
    fsSizeStr entry.size, [32, 98, 121, 116, 101, 115, 10]]

/-- Append the pieces to the text; `false` if one does not fit below `limit`. -/
def fsAppendPieces (limit : Nat) : (pieces : List (List UInt8)) → (text : List UInt8) →
    List UInt8 × Bool
  | [], text => (text, true)
  | piece :: pieces, text =>
      if limit ≤ text.length + piece.length then (text, false)
      else fsAppendPieces limit pieces (text ++ piece)

/-- The loop over the entries; it ends where a piece does not fit. -/
def fsListEntries (fs : Filesystem) (limit : Nat) : (files : List Nat) → (text : List UInt8) →
    Option (List UInt8)
  | [], text => some text
  | fileIdx :: files, text => do
      let entry ← fs.getFile fileIdx
      match fsAppendPieces limit (fsListPieces entry) text with
      | (text, true) => fsListEntries fs limit files text
      | (text, false) => some text

/-- The slot of the directory to list; `none` inside for a path that names no directory. -/
def fsListSlot (fs : Filesystem) (path : List UInt8) : Option (Option Nat) :=
  if fsIsRoot path then some (some 0)
  else do
    let fileIdx ← fsFind fs path
    if fileIdx < 0 then some none
    else
      let entry ← fs.getFile fileIdx.toNat
      if entry.type ≠ .directory then some none
      else fsFindSlot fs entry.name entry.parentDir 0 fs.dirCount

/-- `fs_list_dir`: the result, and the text put into the buffer. -/
def fsListDir (path : List UInt8) (bufferSize : Nat) (fs : Filesystem) :
    Option (Int × List UInt8) :=
  if !fs.initialized then some (-1, [])
  else do
    match ← fsListSlot fs path with
    | none => some (-1, [])
    | some dirIdx =>
        let d ← fs.getDir dirIdx
        let text ← fsListEntries fs (sub32 bufferSize 1) d.files []
        some (intOfU32 text.length, text)

/-- The slot `fs_tree` lists: the root's where a directory has none. -/
def fsTreeSlot (fs : Filesystem) (path : List UInt8) : Option (Option Nat) :=
  if fsIsRoot path then some (some 0)
  else do
    let fileIdx ← fsFind fs path
    if fileIdx < 0 then some none
    else
      let entry ← fs.getFile fileIdx.toNat
      if entry.type ≠ .directory then some none
      else do
        let dirIdx ← fsFindSlot fs entry.name entry.parentDir 0 fs.dirCount
        some (some (dirIdx.getD 0))

/-- The loop that indents by `n` steps. -/
def fsTreeIndent (bufferSize : Nat) : (n : Nat) → (buffer : List UInt8) → List UInt8
  | 0, buffer => buffer
  | n + 1, buffer =>
      fsTreeIndent bufferSize n
        (if buffer.length < sub32 bufferSize 3 then buffer ++ [32, 32] else buffer)

/-- The loop over the entries of a directory; `subdir` prints a subdirectory. -/
def fsTreeEntries (fs : Filesystem) (bufferSize depth : Nat)
    (subdir : List UInt8 → Option (List UInt8)) : (files : List Nat) → (buffer : List UInt8) →
    Option (List UInt8)
  | [], buffer => some buffer
  | fileIdx :: files, buffer => do
      let buffer := fsTreeIndent bufferSize (depth + 1) buffer
      let entry ← fs.getFile fileIdx
      if entry.type = .directory then
        if buffer.length < sub32 (sub32 bufferSize entry.name.length) 5 then
          let buffer ← subdir (buffer ++ entry.name ++ [slash, 10])
          fsTreeEntries fs bufferSize depth subdir files buffer
        else fsTreeEntries fs bufferSize depth subdir files buffer
      else
        if buffer.length < sub32 (sub32 bufferSize entry.name.length) 3 then
          fsTreeEntries fs bufferSize depth subdir files (buffer ++ entry.name ++ [10])
        else fsTreeEntries fs bufferSize depth subdir files buffer

/-- `fs_tree` at `depth`, with `n` levels to go.  `stack path depth` is what the buffer
`subdir_path` holds in the call with that path at that depth. -/
def fsTreeFrom (stack : List UInt8 → Nat → List UInt8) (fs : Filesystem) (bufferSize : Nat) :
    (n : Nat) → (path : List UInt8) → (depth : Nat) → (buffer : List UInt8) → Option (List UInt8)
  | 0, _, _, buffer => some buffer
  | n + 1, path, depth, buffer =>
      if !fs.initialized then some buffer
      else do
        match ← fsTreeSlot fs path with
        | none => some buffer
        | some dirIdx =>
            let buffer := fsTreeIndent bufferSize depth buffer
            let buffer :=
              if depth = 0 ∧ buffer.length < sub32 bufferSize 10 then buffer ++ [slash, 10]
              else buffer
            let d ← fs.getDir dirIdx
            fsTreeEntries fs bufferSize depth
              (fun buffer => fsTreeFrom stack fs bufferSize n (stack path depth) (depth + 1) buffer)
              d.files buffer

/-- `fs_tree` from the top: depths `0` to `10`. -/
def fsTree (stack : List UInt8 → Nat → List UInt8) (path : List UInt8) (bufferSize : Nat)
    (fs : Filesystem) : Option (List UInt8) :=
  fsTreeFrom stack fs bufferSize 11 path 0 []

/-! ### Paths that name the same -/

/-- No call can tell the two paths apart. -/
structure SamePath (p q : List UInt8) : Prop where
  root : fsIsRoot p = fsIsRoot q
  parts : fsParsePath p = fsParsePath q
  short : fsParsePath (p.take (fsMaxPathLen - 1)) = fsParsePath (q.take (fsMaxPathLen - 1))

namespace SamePath

variable {p q : List UInt8} {fs : Filesystem} {σ : Type} {A : Allocator σ} {st : FsState σ}

theorem refl (p : List UInt8) : SamePath p p := ⟨rfl, rfl, rfl⟩

theorem symm (h : SamePath p q) : SamePath q p := ⟨h.root.symm, h.parts.symm, h.short.symm⟩

theorem trans {r : List UInt8} (h : SamePath p q) (h' : SamePath q r) : SamePath p r :=
  ⟨h.root.trans h'.root, h.parts.trans h'.parts, h.short.trans h'.short⟩

theorem of_components (hp : p.length < fsMaxPathLen) (hq : q.length < fsMaxPathLen)
    (hp0 : (0 : UInt8) ∉ p) (hq0 : (0 : UInt8) ∉ q) (hroot : fsIsRoot p = fsIsRoot q)
    (hc : components p = components q) : SamePath p q := by
  have hparts : fsParsePath p = fsParsePath q := by
    rw [fsParsePath_eq hp hp0, fsParsePath_eq hq hq0, hc]
  refine ⟨hroot, hparts, ?_⟩
  rwa [List.take_of_length_le (by omega), List.take_of_length_le (by omega)]

theorem fsFindParentDir (h : SamePath p q) : fsFindParentDir fs p = fsFindParentDir fs q := by
  rw [Fs.fsFindParentDir, Fs.fsFindParentDir, h.root, h.short]

theorem fsGetFilename (h : SamePath p q) : fsGetFilename p = fsGetFilename q := by
  rw [Fs.fsGetFilename, Fs.fsGetFilename, h.parts]

theorem fsFind (h : SamePath p q) : fsFind fs p = fsFind fs q := by
  rw [Fs.fsFind, Fs.fsFind, h.root, h.fsFindParentDir, h.fsGetFilename]

theorem fsMkdir (h : SamePath p q) : fsMkdir p fs = fsMkdir q fs := by
  rw [Fs.fsMkdir, Fs.fsMkdir, h.fsFind, h.fsFindParentDir, h.fsGetFilename]

theorem fsCreate (h : SamePath p q) (size : Nat) : fsCreate A p size st = fsCreate A q size st := by
  rw [Fs.fsCreate, Fs.fsCreate, h.fsFind, h.fsFindParentDir, h.fsGetFilename]

theorem fsDelete (h : SamePath p q) : fsDelete A p st = fsDelete A q st := by
  rw [Fs.fsDelete, Fs.fsDelete, h.root, h.fsFind]

theorem fsWrite (h : SamePath p q) (data : List UInt8) :
    fsWrite A p data st = fsWrite A q data st := by
  rw [Fs.fsWrite, Fs.fsWrite, h.fsFind]

theorem fsStat (h : SamePath p q) : fsStat p fs = fsStat q fs := by
  rw [Fs.fsStat, Fs.fsStat, h.root, h.fsFind]

theorem fsListDir (h : SamePath p q) (bufferSize : Nat) :
    fsListDir p bufferSize fs = fsListDir q bufferSize fs := by
  rw [Fs.fsListDir, Fs.fsListDir, fsListSlot, fsListSlot, h.root, h.fsFind]

theorem fsTreeSlot (h : SamePath p q) : fsTreeSlot fs p = fsTreeSlot fs q := by
  rw [Fs.fsTreeSlot, Fs.fsTreeSlot, h.root, h.fsFind]

/-- A tree is the same too, if the buffer on the stack holds the same. -/
theorem fsTree {stack : List UInt8 → Nat → List UInt8} (h : SamePath p q)
    (hstack : stack p 0 = stack q 0) (bufferSize : Nat) :
    fsTree stack p bufferSize fs = fsTree stack q bufferSize fs := by
  rw [Fs.fsTree, Fs.fsTree, fsTreeFrom, fsTreeFrom, h.fsTreeSlot, hstack]

theorem fsCopyData (h : SamePath p q) (srcIdx : Nat) :
    fsCopyData A srcIdx p st = fsCopyData A srcIdx q st := by
  simp only [Fs.fsCopyData, h.fsDelete, h.fsWrite]

theorem fsCopy {p' q' : List UInt8} (h : SamePath p q) (h' : SamePath p' q') :
    fsCopy A p p' st = fsCopy A q q' st := by
  simp only [Fs.fsCopy, h.fsFind, h'.fsFind, h'.fsCreate, h'.fsCopyData]

theorem fsMove {p' q' : List UInt8} (h : SamePath p q) (h' : SamePath p' q') :
    fsMove A p p' st = fsMove A q q' st := by
  simp only [Fs.fsMove, h.fsCopy h', h.fsDelete, h'.fsDelete]

end SamePath

end AceOS.Drivers.Fs
