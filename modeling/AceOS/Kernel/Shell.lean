import AceOS.Drivers.Fs.Listing
import AceOS.Drivers.Fs.CurrentDir

/-!
# The shell (`execute_command` in `src/kernel/kernel.c`)

The branches that take a path of the file system.  `touch`, `cat` and `write` put the
current directory before a relative path; the other branches pass it on as it is, and the
file system takes it from the root.

The state is that of the file system; what is printed is a list of texts, without the
places on the screen and without the debug output of `ls`.
-/

namespace AceOS.Kernel

open Memory Drivers.Fs

/-! ### The code -/

/-- What a command prints: a string of the source or a text, and on the serial port a string
or a number. -/
inductive Printed
  | string (s : String)
  | text (b : List UInt8)
  | serialString (s : String)
  | serialDec (n : Nat)
  deriving DecidableEq, Repr

/-- The byte `' '`. -/
abbrev space : UInt8 := 32

/-- `while (*cmd_ptr == ' ') cmd_ptr++;` -/
def skipSpaces (cmd : List UInt8) : List UInt8 := cmd.dropWhile (· = space)

/-- The loop that copies a path up to the next space, and what follows it. -/
def takePath (cmd : List UInt8) : List UInt8 × List UInt8 :=
  let path := (cmd.takeWhile (· ≠ space)).take (fsMaxPathLen - 1)
  (path, cmd.drop path.length)

/-- `full_path`: the code is that of `fs_change_dir`. -/
def fullPath (currentDir inputPath : List UInt8) : List UInt8 := fsTargetPath currentDir inputPath

section Commands

variable {σ : Type} (A : Allocator σ) (stack : List UInt8 → Nat → List UInt8)

/-- `ls`, with what follows the first three characters. -/
def shellLs (arg : List UInt8) (st : FsState σ) : Option (List Printed × FsState σ) := do
  let path := if skipSpaces arg = [] then st.currentDirectory else skipSpaces arg
  let (result, buffer) ← fsListDir path 1024 st.fs
  if 0 ≤ result then
    some (.text buffer :: if result = 0 then [.string "(directory is empty)"] else [], st)
  else some ([.string "Error: Could not list directory"], st)

def shellMkdir (path : List UInt8) (st : FsState σ) : Option (List Printed × FsState σ) := do
  let (result, fs) ← fsMkdir path st.fs
  some ([.string (if result = 0 then "Directory created successfully"
    else "Error: Could not create directory")], { st with fs := fs })

def shellTouch (inputPath : List UInt8) (st : FsState σ) : Option (List Printed × FsState σ) := do
  let (result, st) ← fsCreate A (fullPath st.currentDirectory inputPath) 0 st
  some ([.string (if result = 0 then "File created successfully"
    else "Error: Could not create file")], st)

def shellCat (inputPath : List UInt8) (st : FsState σ) : Option (List Printed × FsState σ) := do
  let (bytesRead, buffer) ← fsRead (fullPath st.currentDirectory inputPath) 1023 st
  if 0 ≤ bytesRead then
    some ([.string "File content:",
      if 0 < bytesRead then .text buffer else .string "(empty file)"], st)
  else some ([.string "Error: Could not read file"], st)

def shellRm (path : List UInt8) (st : FsState σ) : Option (List Printed × FsState σ) := do
  let (result, st) ← fsDelete A path st
  some ([.string (if result = 0 then "File or directory deleted successfully"
    else "Error: Could not delete file or directory")], st)

def shellWrite (arg : List UInt8) (st : FsState σ) : Option (List Printed × FsState σ) :=
  let (filepath, rest) := takePath (skipSpaces arg)
  let content := skipSpaces rest
  if filepath ≠ [] ∧ content ≠ [] then do
    let (result, st) ← fsWrite A (fullPath st.currentDirectory filepath) content st
    some ([.string (if result = 0 then "File written successfully"
      else "Error: Could not write to file")], st)
  else some ([.string "Usage: write filepath content"], st)

/-- The part that `cp` and `mv` share: two paths, then a call with them. -/
def shellTwoPaths (call : List UInt8 → List UInt8 → FsState σ → Option (Int × FsState σ))
    (done failed usage : String) (arg : List UInt8) (st : FsState σ) :
    Option (List Printed × FsState σ) := do
  let (srcPath, rest) := takePath (skipSpaces arg)
  let destPath ← cstr (strncpy (skipSpaces rest) fsMaxPathLen)
  if srcPath ≠ [] ∧ destPath ≠ [] then
    let (result, st) ← call srcPath destPath st
    some ([.string (if result = 0 then done else failed)], st)
  else some ([.string usage], st)

def shellCp (arg : List UInt8) (st : FsState σ) : Option (List Printed × FsState σ) :=
  shellTwoPaths (fsCopy A) "File copied successfully" "Error: Could not copy file"
    "Usage: cp <source> <destination>" arg st

def shellMv (arg : List UInt8) (st : FsState σ) : Option (List Printed × FsState σ) :=
  shellTwoPaths (fsMove A) "File moved successfully" "Error: Could not move file"
    "Usage: mv <source> <destination>" arg st

/-- `tree`, with what follows the first five characters. -/
def shellTree (arg : List UInt8) (st : FsState σ) : Option (List Printed × FsState σ) := do
  let path := if arg = [] then [slash] else arg
  let buffer ← fsTree stack path 2048 st.fs
  some ([.string "Directory tree:", .text buffer], st)

def shellStat (path : List UInt8) (st : FsState σ) : Option (List Printed × FsState σ) := do
  -- the result is 0 exactly when there is an entry
  match ← fsStat path st.fs with
  | (_, some info) =>
      some ([.string "File information:", .string "  Name: ", .text info.name, .string "  Type: ",
        .string (if info.type = .directory then "Directory" else "File"), .string "  Size: ",
        .string "Size info sent to serial", .serialString "File size: ", .serialDec info.size,
        .serialString " bytes"], st)
  | (_, none) => some ([.string "Error: Could not get file information"], st)

/-- `execute_command`, for the commands that take a path of the file system; `none` for the
others. -/
def executeCommand (command : List UInt8) (st : FsState σ) : Option (List Printed × FsState σ) :=
  -- "ls" and "ls "
  if command = [108, 115] ∨ command.take 3 = [108, 115, 32] then shellLs (command.drop 3) st
  -- "mkdir "
  else if command.take 6 = [109, 107, 100, 105, 114, 32] then shellMkdir (command.drop 6) st
  -- "touch "
  else if command.take 6 = [116, 111, 117, 99, 104, 32] then shellTouch A (command.drop 6) st
  -- "cat "
  else if command.take 4 = [99, 97, 116, 32] then shellCat (command.drop 4) st
  -- "rm "
  else if command.take 3 = [114, 109, 32] then shellRm A (command.drop 3) st
  -- "write "
  else if command.take 6 = [119, 114, 105, 116, 101, 32] then shellWrite A (command.drop 6) st
  -- "cp "
  else if command.take 3 = [99, 112, 32] then shellCp A (command.drop 3) st
  -- "mv "
  else if command.take 3 = [109, 118, 32] then shellMv A (command.drop 3) st
  -- "tree" and "tree "
  else if command = [116, 114, 101, 101] ∨ command.take 5 = [116, 114, 101, 101, 32] then
    shellTree stack (command.drop 5) st
  -- "stat "
  else if command.take 5 = [115, 116, 97, 116, 32] then shellStat (command.drop 5) st
  else none

end Commands

/-! ### Commands with a path -/

/-- A command, and which of its arguments is the path. -/
inductive PathCommand
  | mkdir | touch | cat | write | rm | cpSource | cpTarget | mvSource | mvTarget | stat | ls | tree
  deriving DecidableEq, Repr

/-- The command line with a path, and with another argument where the command has one. -/
def PathCommand.line (path other : List UInt8) : PathCommand → List UInt8
  | .mkdir => [109, 107, 100, 105, 114, 32] ++ path
  | .touch => [116, 111, 117, 99, 104, 32] ++ path
  | .cat => [99, 97, 116, 32] ++ path
  | .write => [119, 114, 105, 116, 101, 32] ++ (path ++ space :: other)
  | .rm => [114, 109, 32] ++ path
  | .cpSource => [99, 112, 32] ++ (path ++ space :: other)
  | .cpTarget => [99, 112, 32] ++ (other ++ space :: path)
  | .mvSource => [109, 118, 32] ++ (path ++ space :: other)
  | .mvTarget => [109, 118, 32] ++ (other ++ space :: path)
  | .stat => [115, 116, 97, 116, 32] ++ path
  | .ls => [108, 115, 32] ++ path
  | .tree => [116, 114, 101, 101, 32] ++ path

section Dispatch

variable {σ : Type} (A : Allocator σ) (stack : List UInt8 → Nat → List UInt8)
  (path other : List UInt8) (st : FsState σ)

theorem executeCommand_line (c : PathCommand) : executeCommand A stack (c.line path other) st =
    match c with
    | .mkdir => shellMkdir path st
    | .touch => shellTouch A path st
    | .cat => shellCat path st
    | .write => shellWrite A (path ++ space :: other) st
    | .rm => shellRm A path st
    | .cpSource => shellCp A (path ++ space :: other) st
    | .cpTarget => shellCp A (other ++ space :: path) st
    | .mvSource => shellMv A (path ++ space :: other) st
    | .mvTarget => shellMv A (other ++ space :: path) st
    | .stat => shellStat path st
    | .ls => shellLs path st
    | .tree => shellTree stack path st := by
  cases c <;> simp [executeCommand, PathCommand.line]

end Dispatch

/-! ### Relative paths -/

/-- `d/p`. -/
def joinPath (d p : List UInt8) : List UInt8 := if d = [slash] then slash :: p else d ++ slash :: p

/-- A text of a command line: no space and no end of string in it. -/
structure IsWord (w : List UInt8) : Prop where
  noSpace : space ∉ w
  noNul : (0 : UInt8) ∉ w

/-- A word that fits a buffer for a path. -/
structure IsArg (w : List UInt8) : Prop extends IsWord w where
  ne_nil : w ≠ []
  length_le : w.length ≤ 255

/-- An absolute path with room for a component behind it. -/
structure IsDirText (d : List UInt8) : Prop extends IsWord d where
  absolute : d.head? = some slash
  length_le : d.length ≤ 253

/-- A relative path that fits behind `d`. -/
structure IsRelative (d p : List UInt8) : Prop extends IsWord p where
  ne_nil : p ≠ []
  relative : p.head? ≠ some slash
  join_length_le : (joinPath d p).length ≤ 255

/-- The other argument: a source path before the target, anything behind a first path. -/
def OtherOk (other : List UInt8) : PathCommand → Prop
  | .cpTarget | .mvTarget => IsArg other
  | _ => True

variable {d p q other : List UInt8}

theorem joinPath_head? (hd : d.head? = some slash) : (joinPath d p).head? = some slash := by
  rw [joinPath]
  split
  · rfl
  · rw [List.head?_append, hd]
    rfl

theorem components_joinPath (d p : List UInt8) :
    components (joinPath d p) = components d ++ components p := by
  rw [joinPath]
  split
  · rename_i he
    rw [he, components_slash_cons, components_slash_cons, components_nil, List.nil_append]
  · exact components_append d p

theorem not_mem_joinPath {x : UInt8} (hx : x ≠ slash) (hd : x ∉ d) (hp : x ∉ p) :
    x ∉ joinPath d p := by
  rw [joinPath]
  split
  · rw [List.mem_cons, not_or]
    exact ⟨hx, hp⟩
  · rw [List.mem_append, List.mem_cons, not_or, not_or]
    exact ⟨hd, hx, hp⟩

namespace IsRelative

variable (h : IsRelative d p)

include h

theorem isArg : IsArg p := by
  refine ⟨h.toIsWord, h.ne_nil, ?_⟩
  have hlen := h.join_length_le
  rw [joinPath] at hlen
  split at hlen
  · rw [List.length_cons] at hlen
    omega
  · rw [List.length_append, List.length_cons] at hlen
    omega

theorem isArg_join (hd : IsDirText d) : IsArg (joinPath d p) where
  noSpace := not_mem_joinPath (by decide) hd.noSpace h.noSpace
  noNul := not_mem_joinPath (by decide) hd.noNul h.noNul
  ne_nil := by
    have hhead := joinPath_head? (p := p) hd.absolute
    intro he
    rw [he] at hhead
    cases hhead
  length_le := h.join_length_le

theorem not_root : fsIsRoot p = false := by
  rw [fsIsRoot, decide_eq_false_iff_not, not_or]
  refine ⟨h.ne_nil, ?_⟩
  intro he
  rw [he] at h
  exact h.relative rfl

theorem join_not_root : fsIsRoot (joinPath d p) = false := by
  have hpos := List.length_pos_iff.mpr h.ne_nil
  have hlen : 2 ≤ (joinPath d p).length := by
    rw [joinPath]
    split
    · rw [List.length_cons]
      omega
    · rw [List.length_append, List.length_cons]
      omega
  rw [fsIsRoot, decide_eq_false_iff_not, not_or]
  refine ⟨?_, ?_⟩
  · intro he
    rw [he] at hlen
    exact absurd hlen (by decide)
  · intro he
    rw [he] at hlen
    exact absurd hlen (by decide)

/-- In the root directory, a relative path and its absolute one cannot be told apart. -/
theorem samePath (hd : IsDirText d) (hroot : components d = []) : SamePath p (joinPath d p) := by
  apply SamePath.of_components
  · exact Nat.lt_succ_of_le h.isArg.length_le
  · exact Nat.lt_succ_of_le h.join_length_le
  · exact h.noNul
  · exact (h.isArg_join hd).noNul
  · rw [h.not_root, h.join_not_root]
  · rw [components_joinPath, hroot, List.nil_append]

/-- **`full_path` of a relative path is `d/p`**, and an absolute path stays. -/
theorem fullPath_eq : fullPath d p = joinPath d p := by
  have hlen := h.join_length_le
  rw [joinPath] at hlen
  rw [fullPath, fsTargetPath, if_neg h.relative, joinPath]
  split
  · rename_i he
    rw [if_pos he] at hlen
    exact List.take_of_length_le hlen
  · rename_i he
    rw [if_neg he] at hlen
    exact List.take_of_length_le hlen

theorem fullPath_join (hd : IsDirText d) : fullPath d p = fullPath d (joinPath d p) := by
  rw [h.fullPath_eq, fullPath, fsTargetPath, if_pos (joinPath_head? hd.absolute)]
  exact (List.take_of_length_le h.join_length_le).symm

end IsRelative

/-! ### Command lines -/

section Lines

variable {σ : Type} {A : Allocator σ} {st : FsState σ} (hp : IsArg p)

include hp

theorem skipSpaces_append (rest : List UInt8) : skipSpaces (p ++ rest) = p ++ rest := by
  obtain ⟨b, p', rfl⟩ := List.exists_cons_of_ne_nil hp.ne_nil
  rw [skipSpaces, List.cons_append, List.dropWhile_cons_of_neg]
  rw [decide_eq_true_eq]
  intro he
  rw [he] at hp
  exact hp.noSpace (List.mem_cons_self ..)

theorem skipSpaces_arg : skipSpaces p = p := by
  have h := skipSpaces_append hp []
  rwa [List.append_nil] at h

theorem takePath_append (rest : List UInt8) :
    takePath (p ++ space :: rest) = (p, space :: rest) := by
  have hall : ∀ x ∈ p, (decide (x ≠ space)) = true := by
    intro x hx
    rw [decide_eq_true_eq]
    intro he
    rw [he] at hx
    exact hp.noSpace hx
  have htake : (p ++ space :: rest).takeWhile (· ≠ space) = p := by
    rw [List.takeWhile_append_of_pos hall, List.takeWhile_cons_of_neg (by decide), List.append_nil]
  have hcut : p.take (fsMaxPathLen - 1) = p := List.take_of_length_le hp.length_le
  simp only [takePath, htake, hcut]
  rw [List.drop_left]

theorem cstr_strncpy_arg : cstr (strncpy p fsMaxPathLen) = some p := by
  have hlen := hp.length_le
  have hpos : fsMaxPathLen - p.length = (fsMaxPathLen - p.length - 1) + 1 := by
    rw [show fsMaxPathLen = 256 from rfl]
    omega
  rw [strncpy, List.take_of_length_le (Nat.le_succ_of_le hlen), hpos, List.replicate_succ]
  exact cstr_append hp.noNul

theorem shellWrite_line : shellWrite A (p ++ space :: other) st =
    if skipSpaces (space :: other) ≠ [] then do
      let (result, st) ←
        fsWrite A (fullPath st.currentDirectory p) (skipSpaces (space :: other)) st
      some ([.string (if result = 0 then "File written successfully"
        else "Error: Could not write to file")], st)
    else some ([.string "Usage: write filepath content"], st) := by
  have hne := hp.ne_nil
  rw [shellWrite, skipSpaces_append hp, takePath_append hp]
  simp only [hne, ne_eq, not_false_eq_true, true_and]

variable {call : List UInt8 → List UInt8 → FsState σ → Option (Int × FsState σ)}
  {done failed usage : String}

theorem shellTwoPaths_line : shellTwoPaths call done failed usage (p ++ space :: other) st =
    (cstr (strncpy (skipSpaces (space :: other)) fsMaxPathLen)).bind fun destPath =>
      if destPath ≠ [] then do
        let (result, st) ← call p destPath st
        some ([.string (if result = 0 then done else failed)], st)
      else some ([.string usage], st) := by
  have hne := hp.ne_nil
  rw [shellTwoPaths, skipSpaces_append hp, takePath_append hp]
  simp only [hne, ne_eq, not_false_eq_true, true_and, Option.bind_eq_bind]

theorem shellTwoPaths_args (hq : IsArg q) :
    shellTwoPaths call done failed usage (p ++ space :: q) st =
      (call p q st).bind fun r => some ([.string (if r.1 = 0 then done else failed)], r.2) := by
  have hskip : skipSpaces (space :: q) = q := by
    rw [skipSpaces, List.dropWhile_cons_of_pos (by decide)]
    exact skipSpaces_arg hq
  rw [shellTwoPaths_line hp, hskip, cstr_strncpy_arg hq, Option.bind_some, if_pos hq.ne_nil]
  rfl

end Lines

end AceOS.Kernel
