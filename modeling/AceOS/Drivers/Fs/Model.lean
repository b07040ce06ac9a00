import AceOS.Drivers.Fs.Path
import AceOS.Lib.Allocator

/-!
# The file system (`src/drivers/fs.c`)

A table of 128 entries and a table of 32 directory slots.  A directory is stored
twice: as an entry, and as a slot with the same name and parent that lists the
entries in it.  Neither table reuses a place; a deletion empties names.

Every access to a table goes through `getFile`, `getDir` or `fsAddEntry`, and an
access outside it is `none`.  Strings are passed by their bytes, data and the
results of reads by their contents; the tokens of `fs_parse_path` are taken as they
were when its loop ended.  `malloc` and `free` are an `Allocator`.
-/

namespace AceOS.Drivers.Fs

open Memory

abbrev fsMaxFilenameLen : Nat := 32
abbrev fsMaxFilesPerDir : Nat := 64
abbrev fsMaxDirectories : Nat := 32
abbrev fsMaxFiles : Nat := 128

/-- `fs_entry_type_t`. -/
inductive FsEntryType
  | file
  | directory
  deriving DecidableEq, Repr

/-- `fs_entry_t`. -/
structure FsEntry where
  name : List UInt8
  type : FsEntryType
  size : Nat
  dataPointer : Nat
  parentDir : Nat
  creationTime : Nat
  deriving DecidableEq, Repr

/-- `fs_directory_t`; `file_count` is the length of `files`. -/
structure FsDirectory where
  name : List UInt8
  parentDir : Nat
  files : List Nat
  deriving DecidableEq, Repr

/-- `filesystem_t`. -/
structure Filesystem where
  initialized : Bool
  dirCount : Nat
  fileCount : Nat
  directories : Nat → FsDirectory
  files : Nat → FsEntry

/-- The static `fs`, the static `current_directory`, and the heap the data lies in. -/
structure FsState (σ : Type) where
  fs : Filesystem
  currentDirectory : List UInt8
  heap : σ
  mem : Mem

/-! ### The tables -/

namespace Filesystem

variable (fs : Filesystem)

def getFile (i : Nat) : Option FsEntry := if i < fsMaxFiles then some (fs.files i) else none

def getDir (i : Nat) : Option FsDirectory :=
  if i < fsMaxDirectories then some (fs.directories i) else none

def setFile (i : Nat) (e : FsEntry) : Filesystem :=
  { fs with files := Function.update fs.files i e }

def setDir (i : Nat) (d : FsDirectory) : Filesystem :=
  { fs with directories := Function.update fs.directories i d }

end Filesystem

/-- `fs_init`. -/
def fsInit : Filesystem where
  initialized := true
  dirCount := 1
  fileCount := 0
  directories := Function.update (fun _ => ⟨[], 0, []⟩) 0 ⟨[slash], 0, []⟩
  files := fun _ => ⟨[], .file, 0, 0, 0, 0⟩

def fsInitState {σ : Type} (heap : σ) (mem : Mem) : FsState σ := ⟨fsInit, [slash], heap, mem⟩

/-! ### Lookups -/

/-- The test for the root that most calls begin with. -/
def fsIsRoot (path : List UInt8) : Bool := path = [] ∨ path = [slash]

/-- The loop over the slots: the first of the `n` from `k` on with this name and parent. -/
def fsFindSlot (fs : Filesystem) (name : List UInt8) (parentDir : Nat) :
    (k n : Nat) → Option (Option Nat)
  | _, 0 => some none
  | k, n + 1 => do
      let d ← fs.getDir k
      if d.name = name ∧ d.parentDir = parentDir then some (some k)
      else fsFindSlot fs name parentDir (k + 1) n

/-- The loop over the entries of a directory for the slot of the subdirectory `part`. -/
def fsFindSubdir (fs : Filesystem) (part : List UInt8) (currentDir : Nat) :
    List Nat → Option (Option Nat)
  | [] => some none
  | fileIdx :: rest => do
      let e ← fs.getFile fileIdx
      if e.type = .directory ∧ e.name = part then
        match ← fsFindSlot fs part currentDir 0 fs.dirCount with
        | some k => some (some k)
        | none => fsFindSubdir fs part currentDir rest
      else fsFindSubdir fs part currentDir rest

def fsWalk (fs : Filesystem) : (parts : List (List UInt8)) → (currentDir : Nat) → Option Int
  | [], currentDir => some currentDir
  | part :: parts, currentDir => do
      let d ← fs.getDir currentDir
      match ← fsFindSubdir fs part currentDir d.files with
      | some k => fsWalk fs parts k
      | none => some (-1)

def fsFindParentDir (fs : Filesystem) (path : List UInt8) : Option Int :=
  if fsIsRoot path then some 0
  else do
    let parts ← fsParsePath (path.take (fsMaxPathLen - 1))
    fsWalk fs parts.dropLast 0

def fsGetFilename (path : List UInt8) : Option (List UInt8) := do
  let parts ← fsParsePath path
  match parts.getLast? with
  | some part => some (part.take (fsMaxFilenameLen - 1))
  | none => some []

/-- The loop over the entries of a directory for the one with this name. -/
def fsFindEntry (fs : Filesystem) (name : List UInt8) : List Nat → Option Int
  | [] => some (-1)
  | fileIdx :: rest => do
      let e ← fs.getFile fileIdx
      if e.name = name then some fileIdx else fsFindEntry fs name rest

/-- The index of an entry, `-1` if there is none, `-2` for the root. -/
def fsFind (fs : Filesystem) (path : List UInt8) : Option Int :=
  if fsIsRoot path then some (-2)
  else do
    let parentDir ← fsFindParentDir fs path
    if parentDir < 0 then some (-1)
    else
      let name ← fsGetFilename path
      let d ← fs.getDir parentDir.toNat
      fsFindEntry fs name d.files

/-! ### Creation -/

/-- A new entry at `file_count++`, appended to the list of its parent. -/
def fsAddEntry (parentDir : Nat) (entry : FsEntry → FsEntry) (fs : Filesystem) :
    Option Filesystem := do
  let fileIdx := fs.fileCount
  let e ← fs.getFile fileIdx
  let fs := { fs.setFile fileIdx (entry e) with fileCount := fileIdx + 1 }
  let d ← fs.getDir parentDir
  if d.files.length < fsMaxFilesPerDir then
    some (fs.setDir parentDir { d with files := d.files ++ [fileIdx] })
  else none

def fsMkdir (path : List UInt8) (fs : Filesystem) : Option (Int × Filesystem) :=
  if !fs.initialized then some (-1, fs)
  else do
    let existing ← fsFind fs path
    if 0 ≤ existing then some (-1, fs)
    else
      let parentDir ← fsFindParentDir fs path
      if parentDir < 0 then some (-1, fs)
      else if fsMaxDirectories ≤ fs.dirCount then some (-1, fs)
      else
        let d ← fs.getDir parentDir.toNat
        if fsMaxFilesPerDir ≤ d.files.length then some (-1, fs)
        else
          -- no check of `file_count` against `FS_MAX_FILES` here, unlike in `fs_create`
          let dirName ← fsGetFilename path
          let fs ← fsAddEntry parentDir.toNat
            (fun e => { e with name := dirName, type := .directory, size := 0,
                               parentDir := parentDir.toNat, creationTime := 0 }) fs
          let dirIdx := fs.dirCount
          let d ← fs.getDir dirIdx
          some (0, { fs.setDir dirIdx { d with name := dirName, parentDir := parentDir.toNat } with
            dirCount := dirIdx + 1 })

section Heap

variable {σ : Type} (A : Allocator σ)

def FsState.malloc (n : Nat) (st : FsState σ) : Nat × FsState σ :=
  let r := A.malloc n st.heap st.mem
  (r.1, { st with heap := r.2.1, mem := r.2.2 })

def FsState.free (p : Nat) (st : FsState σ) : FsState σ :=
  let r := A.free p st.heap st.mem
  { st with heap := r.1, mem := r.2 }

def fsCreate (path : List UInt8) (size : Nat) (st : FsState σ) : Option (Int × FsState σ) :=
  if !st.fs.initialized then some (-1, st)
  else do
    let existing ← fsFind st.fs path
    if 0 ≤ existing then some (-1, st)
    else
      let parentDir ← fsFindParentDir st.fs path
      if parentDir < 0 then some (-1, st)
      else if fsMaxFiles ≤ st.fs.fileCount then some (-1, st)
      else
        let d ← st.fs.getDir parentDir.toNat
        if fsMaxFilesPerDir ≤ d.files.length then some (-1, st)
        else
          let filename ← fsGetFilename path
          let (dataPtr, st) := if 0 < size then st.malloc A size else (0, st)
          if 0 < size ∧ dataPtr = 0 then some (-1, st)
          else
            let fs ← fsAddEntry parentDir.toNat
              (fun e => { e with name := filename, type := .file, size := size,
                                 dataPointer := dataPtr, parentDir := parentDir.toNat,
                                 creationTime := 0 }) st.fs
            some (0, { st with fs := fs })

/-! ### Deletion -/

/-- Take an entry off the list of its parent and empty its name. -/
def fsRemoveEntry (fileIdx parentDir : Nat) (fs : Filesystem) : Option Filesystem := do
  let d ← fs.getDir parentDir
  let fs := fs.setDir parentDir { d with files := d.files.erase fileIdx }
  let e ← fs.getFile fileIdx
  some (fs.setFile fileIdx { e with name := [] })

def fsDelete (path : List UInt8) (st : FsState σ) : Option (Int × FsState σ) :=
  if !st.fs.initialized then some (-1, st)
  else if fsIsRoot path then some (-1, st)
  else do
    let fileIdx ← fsFind st.fs path
    if fileIdx < 0 then some (-1, st)
    else
      let entry ← st.fs.getFile fileIdx.toNat
      if entry.type = .directory then
        match ← fsFindSlot st.fs entry.name entry.parentDir 0 st.fs.dirCount with
        | none => some (-1, st)
        | some dirIdx =>
            let d ← st.fs.getDir dirIdx
            if 0 < d.files.length then some (-1, st)
            else
              let fs ← fsRemoveEntry fileIdx.toNat entry.parentDir
                (st.fs.setDir dirIdx { d with name := [] })
              some (0, { st with fs := fs })
      else
        let st := if entry.dataPointer ≠ 0 then st.free A entry.dataPointer else st
        let fs ← fsRemoveEntry fileIdx.toNat entry.parentDir st.fs
        some (0, { st with fs := fs })

/-! ### Contents -/

/-- The `int` a `uint32_t` converts to. -/
def intOfU32 (n : Nat) : Int := if n < 2147483648 then n else (n : Int) - 4294967296

/-- `fs_write` with the bytes `data` points to. -/
def fsWrite (path : List UInt8) (data : List UInt8) (st : FsState σ) :
    Option (Int × FsState σ) :=
  if !st.fs.initialized then some (-1, st)
  else do
    let fileIdx ← fsFind st.fs path
    if fileIdx < 0 then some (-1, st)
    else
      let i := fileIdx.toNat
      let entry ← st.fs.getFile i
      if entry.type ≠ .file then some (-1, st)
      else
        let stale := entry.dataPointer ≠ 0 ∧ entry.size ≠ data.length
        let st := if stale then
            { st.free A entry.dataPointer with
              fs := st.fs.setFile i { entry with dataPointer := 0 } }
          else st
        let entry := if stale then { entry with dataPointer := 0 } else entry
        let (dataPtr, st) :=
          if entry.dataPointer = 0 then st.malloc A data.length else (entry.dataPointer, st)
        if dataPtr = 0 then some (-1, st)
        else
          some (0, { st with
            fs := st.fs.setFile i { entry with dataPointer := dataPtr, size := data.length }
            mem := storeBytes st.mem dataPtr data })

/-- `fs_read`: the result, and the bytes put into the buffer. -/
def fsRead (path : List UInt8) (size : Nat) (st : FsState σ) : Option (Int × List UInt8) :=
  if !st.fs.initialized then some (-1, [])
  else do
    let fileIdx ← fsFind st.fs path
    if fileIdx < 0 then some (-1, [])
    else
      let entry ← st.fs.getFile fileIdx.toNat
      if entry.type ≠ .file then some (-1, [])
      else if entry.dataPointer = 0 then some (0, [])
      else
        let bytesToRead := if entry.size < size then entry.size else size
        some (intOfU32 bytesToRead, loadBytes st.mem entry.dataPointer bytesToRead)

/-- `fs_stat`: the result, and the entry copied to `info`. -/
def fsStat (path : List UInt8) (fs : Filesystem) : Option (Int × Option FsEntry) :=
  if !fs.initialized then some (-1, none)
  else if fsIsRoot path then some (0, some ⟨[slash], .directory, 0, 0, 0, 0⟩)
  else do
    let fileIdx ← fsFind fs path
    if fileIdx < 0 then some (-1, none)
    else
      let entry ← fs.getFile fileIdx.toNat
      some (0, some entry)

/-! ### Copies and moves -/

/-- The copy of the data in `fs_copy`, once the destination is created. -/
def fsCopyData (srcIdx : Nat) (destPath : List UInt8) (st : FsState σ) :
    Option (Int × FsState σ) := do
  let src ← st.fs.getFile srcIdx
  if src.dataPointer ≠ 0 ∧ 0 < src.size then
    let (data, st) := st.malloc A src.size
    if data = 0 then
      let (_, st) ← fsDelete A destPath st
      some (-1, st)
    else
      let st := { st with
        mem := storeBytes st.mem data (loadBytes st.mem src.dataPointer src.size) }
      let (result, st) ← fsWrite A destPath (loadBytes st.mem data src.size) st
      let st := st.free A data
      if result ≠ 0 then
        let (_, st) ← fsDelete A destPath st
        some (-1, st)
      else some (0, st)
  else some (0, st)

def fsCopy (srcPath destPath : List UInt8) (st : FsState σ) : Option (Int × FsState σ) :=
  if !st.fs.initialized then some (-1, st)
  else do
    let srcIdx ← fsFind st.fs srcPath
    if srcIdx < 0 then some (-1, st)
    else
      let src ← st.fs.getFile srcIdx.toNat
      if src.type ≠ .file then some (-1, st)
      else
        let existing ← fsFind st.fs destPath
        if 0 ≤ existing then some (-1, st)
        else
          let (result, st) ← fsCreate A destPath src.size st
          if result ≠ 0 then some (-1, st)
          else fsCopyData A srcIdx.toNat destPath st

def fsMove (srcPath destPath : List UInt8) (st : FsState σ) : Option (Int × FsState σ) :=
  if !st.fs.initialized then some (-1, st)
  else do
    let (result, st) ← fsCopy A srcPath destPath st
    if result ≠ 0 then some (-1, st)
    else
      let (result, st) ← fsDelete A srcPath st
      if result ≠ 0 then
        let (_, st) ← fsDelete A destPath st
        some (-1, st)
      else some (0, st)

end Heap

/-! ### The current directory -/

/-- The byte `'.'`. -/
abbrev dot : UInt8 := 46

/-- The absolute path `fs_change_dir` builds, cut to the size of its buffer. -/
def fsTargetPath (currentDirectory path : List UInt8) : List UInt8 :=
  if path.head? = some slash then path.take (fsMaxPathLen - 1)
  else if currentDirectory = [slash] then (slash :: path).take (fsMaxPathLen - 1)
  else (currentDirectory ++ slash :: path).take (fsMaxPathLen - 1)

/-- `current_directory` cut before its last `'/'`; `none` if it has none. -/
def fsDropLast (currentDirectory : List UInt8) : Option (List UInt8) :=
  if slash ∈ currentDirectory then
    some (currentDirectory.reverse.dropWhile (· ≠ slash)).tail.reverse
  else none

def fsChangeDir {σ : Type} (path : List UInt8) (st : FsState σ) : Option (Int × FsState σ) :=
  if !st.fs.initialized then some (-1, st)
  else
    let targetPath := fsTargetPath st.currentDirectory path
    if path = [dot] then some (0, st)
    else if path = [dot, dot] then
      if st.currentDirectory = [slash] then some (0, st)
      else do
        let parent ← fsDropLast st.currentDirectory
        some (0, { st with currentDirectory := if parent = [] then [slash] else parent })
    else if targetPath = [slash] then some (0, { st with currentDirectory := [slash] })
    else do
      let fileIdx ← fsFind st.fs targetPath
      if fileIdx < 0 then some (-1, st)
      else
        let entry ← st.fs.getFile fileIdx.toNat
        if entry.type ≠ .directory then some (-1, st)
        else some (0, { st with currentDirectory := targetPath })

end AceOS.Drivers.Fs
