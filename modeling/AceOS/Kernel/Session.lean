import AceOS.Kernel.Console
import AceOS.Kernel.Shell
import AceOS.Drivers.Fs.FindByName
import AceOS.Drivers.Fs.OnLibc

/-!
# A session (`execute_command` in `src/kernel/kernel.c`)

All of `execute_command`, with the texts where they are put on the screen.  The branches of
`Kernel.Shell` are used as they are; the others only print.  What goes to the serial port is
left out, and with it what `meminfo`, `diskinfo`, `timer`, `ps`, `test`, `syscalls` and
`syscall-stats` do in other parts of the kernel.  A command that takes a path does what it does
in `Kernel.Shell` (`branchOf_of_executeCommand`).

A command makes at most one call that changes the file system (`branchOf_spec`), so a
session is a run of such calls, and what holds along every run of the file system holds
whatever is typed (`session_safe`).
-/

namespace AceOS.Kernel

open Machine Memory Libc Drivers.Fs Screen Console

/-! ### The code -/

/-- What the code does to the cursor before it prints a text. -/
inductive Move
  | stay
  /-- `cursor_row++;` -/
  | down
  /-- `cursor_row++; cursor_col = c;` -/
  | line (c : Int)
  /-- `cursor_col = c;` -/
  | column (c : Int)
  deriving DecidableEq, Repr

def Move.apply : Move → Cursor → Cursor
  | .stay, cursor => cursor
  | .down, cursor => ⟨cursor.row + 1, cursor.col⟩
  | .line c, cursor => ⟨cursor.row + 1, c⟩
  | .column c, cursor => ⟨cursor.row, c⟩

/-- `k_print_string(text, WHITE_ON_BLACK, cursor_row, cursor_col);` -/
def Screen.say (text : List UInt8) (s : Screen) : Screen :=
  s.kPrintString whiteOnBlack text s.cursor.row s.cursor.col

def Screen.draw (move : Move) (printed : Printed) (s : Screen) : Screen :=
  let s := { s with cursor := move.apply s.cursor }
  match printed with
  | .string text => s.say (asciiBytes text)
  | .text text => s.say (text.takeWhile (· ≠ 0))
  | .serialString _ | .serialDec _ => s

/-- The texts one after the other, from the beginning of the next row on. -/
def Screen.drawAll (texts : List (Move × Printed)) (s : Screen) : Screen :=
  texts.foldl (fun s text => s.draw text.1 text.2)
    { s with cursor := ⟨s.cursor.row + 1, 0⟩ }

/-- `char results[1024]` and the path of `fs_tree`: what the stack holds in the places that are
read before they are written. -/
structure Stack where
  path : List UInt8 → Nat → List UInt8
  results : Vector UInt8 1024

/-- A branch of `execute_command`. -/
inductive Branch (σ : Type)
  | clear
  | texts (ts : List (Move × Printed))
  | call (moves : List Move) (f : FsState σ → Option (List Printed × FsState σ))

section Commands

variable {σ : Type} (A : Allocator σ) (stack : Stack)

def helpTexts : List (Move × Printed) :=
  (.stay, .string "Available commands:") :: [
    "help     - Show this help",
    "clear    - Clear the screen",
    "version  - Show OS version",
    "echo     - Echo text to screen",
    "debug    - Send test message to serial debug port",
    "pwd      - Show current directory",
    "cd       - Change directory",
    "ls       - List files in directory",
    "mkdir    - Create a directory",
    "touch    - Create an empty file",
    "cat      - Display file contents",
    "cp       - Copy file",
    "mv       - Move/rename file",
    "rm       - Remove file or directory",
    "write    - Write content to a file",
    "find     - Find files by name pattern",
    "tree     - Show directory tree structure",
    "stat     - Show file information",
    "fsinfo   - Display filesystem information",
    "meminfo  - Display memory information",
    "diskinfo - Display disk information",
    "timer    - Display timer statistics",
    "ps       - Show process information",
    "test     - Run system tests",
    "syscalls - Test system call interface",
    "syscall-stats - Show system call statistics"].map fun text => (.line 2, .string text)

def shellPwd (st : FsState σ) : Option (List Printed × FsState σ) :=
  some ([.string "Current directory: ", .text st.currentDirectory], st)

def shellCd (path : List UInt8) (st : FsState σ) : Option (List Printed × FsState σ) := do
  let (result, st) ← fsChangeDir path st
  some ([.string (if result = 0 then "Directory changed successfully"
    else "Error: Could not change directory")], st)

def shellFind (pattern : List UInt8) (st : FsState σ) : Option (List Printed × FsState σ) := do
  let (found, results) ← fsFindByName pattern stack.results.toList 1024 st.fs
  if 0 ≤ found then
    let text ← cstr results
    some ([.string "Search results:", .text text], st)
  else some ([.string "Error: Search failed"], st)

def branchOf (command : List UInt8) : Branch σ :=
  if command = asciiBytes "help" then .texts helpTexts
  else if command = asciiBytes "clear" then .clear
  else if command = asciiBytes "version" then .texts [(.stay, .string "aceOS Enhanced v2.0"),
    (.down, .string "Features: Virtual Memory, Multitasking, Disk I/O"),
    (.down, .string "Advanced Heap Manager, Timer System")]
  else if command.take 5 = asciiBytes "echo " then .texts [(.stay, .text (command.drop 5))]
  else if command = asciiBytes "debug" then
    .texts [(.stay, .string "Sending debug information to serial port...")]
  else if command = asciiBytes "ls" ∨ command.take 3 = asciiBytes "ls " then
    .call [.stay, .stay] (shellLs (command.drop 3))
  else if command.take 6 = asciiBytes "mkdir " then .call [.stay] (shellMkdir (command.drop 6))
  else if command.take 6 = asciiBytes "touch " then .call [.stay] (shellTouch A (command.drop 6))
  else if command.take 4 = asciiBytes "cat " then .call [.stay, .down] (shellCat (command.drop 4))
  else if command.take 3 = asciiBytes "rm " then .call [.stay] (shellRm A (command.drop 3))
  else if command.take 6 = asciiBytes "write " then .call [.stay] (shellWrite A (command.drop 6))
  else if command = asciiBytes "fsinfo" then
    .texts [(.stay, .string "Filesystem information printed to serial port")]
  else if command = asciiBytes "pwd" then .call [.stay, .column 19] shellPwd
  else if command.take 3 = asciiBytes "cd " then .call [.stay] (shellCd (command.drop 3))
  else if command = asciiBytes "cd" then .texts [(.stay, .string "Usage: cd <directory>")]
  else if command.take 3 = asciiBytes "cp " then .call [.stay] (shellCp A (command.drop 3))
  else if command.take 3 = asciiBytes "mv " then .call [.stay] (shellMv A (command.drop 3))
  else if command.take 5 = asciiBytes "find " then
    .call [.stay, .down] (shellFind stack (command.drop 5))
  else if command = asciiBytes "tree" ∨ command.take 5 = asciiBytes "tree " then
    .call [.stay, .down] (shellTree stack.path (command.drop 5))
  else if command.take 5 = asciiBytes "stat " then
    .call [.stay, .down, .column 8, .line 0, .column 8, .line 0, .column 8]
      (shellStat (command.drop 5))
  else if command = asciiBytes "meminfo" then
    .texts [(.stay, .string "Memory information printed to serial port")]
  else if command = asciiBytes "diskinfo" then
    .texts [(.stay, .string "Disk information printed to serial port")]
  else if command = asciiBytes "timer" then
    .texts [(.stay, .string "Timer statistics printed to serial port")]
  else if command = asciiBytes "ps" then
    .texts [(.stay, .string "Process information printed to serial port")]
  else if command = asciiBytes "test" then .texts [(.stay, .string "Running system tests..."),
    (.down, .string "System tests completed - check serial output")]
  else if command = asciiBytes "syscalls" then .texts [(.stay, .string "Testing system calls..."),
    (.down, .string "System call tests completed - check serial output")]
  else if command = asciiBytes "syscall-stats" then
    .texts [(.stay, .string "System call statistics printed to serial port")]
  else .texts [(.stay, .string "Unknown command: "), (.column 17, .text command)]

def Branch.run (s : Screen) (st : FsState σ) : Branch σ → Option (Screen × FsState σ)
  | .clear => some ({ s.clearScreen with cursor := ⟨-2, 0⟩ }, st)
  | .texts ts => some (s.drawAll ts, st)
  | .call moves f => (f st).map fun r => (s.drawAll (moves.zip r.1), r.2)

/-- The shell of `kernel_main` over the file system. -/
def sessionKernel : ConsoleKernel (FsState σ) where
  fsGetCurrentDir st := st.currentDirectory
  executeCommand command s st := (branchOf A stack command).run s st

@[simp] theorem sessionKernel_executeCommand (command : List UInt8) (s : Screen) (st : FsState σ) :
    (sessionKernel A stack).executeCommand command s st = (branchOf A stack command).run s st := rfl

end Commands

section Dispatch

variable {σ : Type} {A : Allocator σ} {stack : Stack} {st : FsState σ} {command : List UInt8}

/-- The branch runs code that gives `r`. -/
def Branch.Gives (st : FsState σ) (r : Option (List Printed × FsState σ)) (b : Branch σ) : Prop :=
  ∃ moves f, b = .call moves f ∧ f st = r

theorem Branch.Gives.ite {b : Branch σ} {c : Prop} [Decidable c]
    {r r' : Option (List Printed × FsState σ)} (h : c → b.Gives st r)
    (h' : r' ≠ none → b.Gives st r') (hne : (if c then r else r') ≠ none) :
    b.Gives st (if c then r else r') := by
  by_cases hc : c
  · rw [if_pos hc]
    exact h hc
  · rw [if_neg hc] at hne ⊢
    exact h' hne

/-- A command that takes a path runs the code of `executeCommand`, and draws what that prints. -/
theorem branchOf_of_executeCommand (h : executeCommand A stack.path command st ≠ none) :
    (branchOf A stack command).Gives st (executeCommand A stack.path command st) := by
  have hprefix : ∀ {n : Nat} {word : List UInt8}, command.take n = word →
      ∃ rest, command = word ++ rest := by
    intro n word hword
    exact ⟨command.drop n, by rw [← hword, List.take_append_drop]⟩
  revert h
  rw [executeCommand]
  refine .ite ?ls (.ite ?mkdir (.ite ?touch (.ite ?cat (.ite ?rm (.ite ?write (.ite ?cp
    (.ite ?mv (.ite ?tree (.ite ?stat fun h => absurd rfl h)))))))))
  -- the words of the other commands begin in another way
  case ls | tree =>
    rintro (rfl | hword)
    · exact ⟨_, _, rfl, rfl⟩
    · obtain ⟨path, rfl⟩ := hprefix hword
      exact ⟨_, _, rfl, rfl⟩
  case mkdir | touch | cat | rm | write | cp | mv | stat =>
    intro hword
    obtain ⟨path, rfl⟩ := hprefix hword
    exact ⟨_, _, rfl, rfl⟩

end Dispatch

/-! ### Drawing -/

theorem Screen.draw_string (move : Move) (text : String) (s : Screen) : s.draw move (.string text)
    = Screen.say (asciiBytes text) { s with cursor := move.apply s.cursor } := rfl

theorem Screen.draw_text (move : Move) (text : List UInt8) (s : Screen) : s.draw move (.text text)
    = Screen.say (text.takeWhile (· ≠ 0)) { s with cursor := move.apply s.cursor } := rfl

/-- Drawing goes down, and stays in the video memory. -/
structure DrawsOn (s s' : Screen) : Prop where
  row : 0 ≤ s.cursor.row → 0 ≤ s'.cursor.row
  outside : ∀ x, (x < videoMem ∨ videoMem + videoSize ≤ x) → s'.video x = s.video x

theorem DrawsOn.trans {s₁ s₂ s₃ : Screen} (h : DrawsOn s₁ s₂) (h' : DrawsOn s₂ s₃) :
    DrawsOn s₁ s₃ :=
  ⟨fun hrow => h'.row (h.row hrow), fun x hx => (h'.outside x hx).trans (h.outside x hx)⟩

theorem Screen.say_drawsOn (text : List UInt8) (s : Screen) : DrawsOn s (s.say text) where
  row := by
    intro hrow
    have hlast : (0 : Int) ≤ rows - 1 := by decide
    rw [Screen.say, kPrintString_cursor]
    dsimp only
    rcases kPrintString_row text s.cursor.row s.cursor.col s.cursor.row with he | he
    · rw [he]
      exact hrow
    · rw [he]
      exact hlast
  outside := fun x hx => kPrintString_outside hx _ _

theorem Screen.draw_drawsOn (move : Move) (printed : Printed) (s : Screen) :
    DrawsOn s (s.draw move printed) := by
  have hmove : DrawsOn s { s with cursor := move.apply s.cursor } := by
    refine ⟨fun hrow => ?_, fun _ _ => rfl⟩
    have hdown : 0 ≤ s.cursor.row + 1 := by omega
    cases move <;> first | exact hrow | exact hdown
  cases printed with
  | string text => exact hmove.trans (say_drawsOn _ _)
  | text text => exact hmove.trans (say_drawsOn _ _)
  | serialString => exact hmove
  | serialDec => exact hmove

theorem Screen.drawAll_drawsOn (texts : List (Move × Printed)) (s : Screen) :
    DrawsOn s (s.drawAll texts) := by
  have hfold : ∀ (texts : List (Move × Printed)) (s : Screen),
      DrawsOn s (texts.foldl (fun s text => s.draw text.1 text.2) s) := by
    intro texts
    induction texts with
    | nil => exact fun s => ⟨id, fun _ _ => rfl⟩
    | cons text texts ih => exact fun s => (draw_drawsOn text.1 text.2 s).trans (ih _)
  have hdown : DrawsOn s { s with cursor := ⟨s.cursor.row + 1, 0⟩ } := by
    refine ⟨fun hrow => ?_, fun _ _ => rfl⟩
    have hnext : 0 ≤ s.cursor.row + 1 := by omega
    exact hnext
  exact hdown.trans (hfold texts _)

/-- **Every command** leaves the cursor where the prompt needs it, and writes video memory
only. -/
theorem Branch.run_screen {σ : Type} {b : Branch σ} {s s' : Screen} {st st' : FsState σ}
    (hrow : 0 ≤ s.cursor.row) (hr : b.run s st = some (s', st')) : -2 ≤ s'.cursor.row ∧
      ∀ x, (x < videoMem ∨ videoMem + videoSize ≤ x) → s'.video x = s.video x := by
  have hdraws : ∀ {s₁ : Screen}, DrawsOn s s₁ → -2 ≤ s₁.cursor.row ∧
      ∀ x, (x < videoMem ∨ videoMem + videoSize ≤ x) → s₁.video x = s.video x :=
    fun h => ⟨Int.le_trans (by decide) (h.row hrow), h.outside⟩
  cases b with
  | clear =>
      rw [Branch.run, Option.some.injEq, Prod.mk.injEq] at hr
      obtain ⟨rfl, -⟩ := hr
      exact ⟨Int.le_refl _, fun x hx => clearScreen_outside hx⟩
  | texts ts =>
      rw [Branch.run, Option.some.injEq, Prod.mk.injEq] at hr
      obtain ⟨rfl, -⟩ := hr
      exact hdraws (drawAll_drawsOn ts s)
  | call moves f =>
      rw [Branch.run, Option.map_eq_some_iff] at hr
      obtain ⟨r, -, hr⟩ := hr
      rw [Prod.mk.injEq] at hr
      obtain ⟨rfl, -⟩ := hr
      exact hdraws (drawAll_drawsOn _ s)

/-! ### Calls -/

section Calls

variable {σ : Type} {A : Allocator σ} {stack : Stack} {st : FsState σ} {command arg : List UInt8}

structure IsText (l : List UInt8) : Prop where
  noNul : (0 : UInt8) ∉ l
  length_lt : l.length < maxCommandLength

theorem IsText.isPath {l : List UInt8} (h : IsText l) : IsPath l :=
  ⟨h.noNul, Nat.lt_trans h.length_lt (by decide)⟩

theorem IsText.sublist {l l' : List UInt8} (h : IsText l) (hs : l'.Sublist l) : IsText l' :=
  ⟨fun hmem => h.noNul (hs.subset hmem), Nat.lt_of_le_of_lt hs.length_le h.length_lt⟩

theorem IsText.drop (h : IsText command) (n : Nat) : IsText (command.drop n) :=
  h.sublist (List.drop_sublist n command)

theorem IsText.skipSpaces (h : IsText arg) : IsText (skipSpaces arg) :=
  h.sublist (List.dropWhile_sublist _)

theorem IsText.takePath_fst (h : IsText arg) : IsText (takePath arg).1 :=
  h.sublist ((List.take_sublist _ _).trans (List.takeWhile_sublist _))

theorem IsText.takePath_snd (h : IsText arg) : IsText (takePath arg).2 :=
  h.sublist (List.drop_sublist _ _)

theorem IsText.isPath_fullPath (h : IsText arg) {cwd : List UInt8} (hc : IsCwd cwd) :
    IsPath (fullPath cwd arg) :=
  (isCwd_fsTargetPath hc h.noNul).toIsPath

theorem IsText.cstr_strncpy (h : IsText arg) : cstr (strncpy arg fsMaxPathLen) = some arg := by
  have hlen := h.length_lt
  have hpad : fsMaxPathLen - arg.length = (fsMaxPathLen - arg.length - 1) + 1 := by
    rw [show fsMaxPathLen = 256 from rfl]
    rw [show maxCommandLength = 72 from rfl] at hlen
    omega
  rw [strncpy, List.take_of_length_le (Nat.le_of_lt h.isPath.length_lt), hpad, List.replicate_succ]
  exact cstr_append h.noNul

/-- A branch that returns and leaves the file system as it is. -/
def Branch.Reads (st : FsState σ) (b : Branch σ) : Prop := ∀ s, ∃ s', b.run s st = some (s', st)

/-- A branch that makes one call. -/
structure Branch.Calls (A : Allocator σ) (st : FsState σ) (op : FsOp) (b : Branch σ) : Prop where
  paths : op.HasPaths
  size : op.SizeLe libcMaxSize
  run : ∃ shown : Screen → Int → Screen, ∀ s,
    b.run s st = (fsStep A op st).map fun r => (shown s r.1, r.2)

theorem reads_texts (ts : List (Move × Printed)) : (Branch.texts ts).Reads st :=
  fun s => ⟨s.drawAll ts, rfl⟩

theorem reads_call {moves : List Move} {f : FsState σ → Option (List Printed × FsState σ)}
    (hf : ∃ printed, f st = some (printed, st)) : (Branch.call moves f).Reads st := by
  obtain ⟨printed, hf⟩ := hf
  intro s
  rw [Branch.run, hf]
  exact ⟨_, rfl⟩

theorem calls_call {moves : List Move} {f : FsState σ → Option (List Printed × FsState σ)}
    {op : FsOp} {g : Int → List Printed} (hp : op.HasPaths) (hsize : op.SizeLe libcMaxSize)
    (hf : f st = (fsStep A op st).map fun r => (g r.1, r.2)) :
    (Branch.call moves f).Calls A st op := by
  refine ⟨hp, hsize, fun s r => s.drawAll (moves.zip (g r)), fun s => ?_⟩
  rw [Branch.run, hf, Option.map_map]
  rfl

theorem calls_mkdir (h : IsText arg) :
    (Branch.call [.stay] (shellMkdir arg)).Calls A st (.mkdir arg) := by
  refine calls_call (g := fun r => [.string (if r = 0 then "Directory created successfully"
    else "Error: Could not create directory")]) ?_ trivial ?_
  · intro path hpath
    rw [List.mem_singleton.mp hpath]
    exact h.isPath
  · rw [shellMkdir, fsStep]
    cases fsMkdir arg st.fs <;> rfl

theorem calls_touch (h : IsText arg) (hc : IsCwd st.currentDirectory) :
    (Branch.call [.stay] (shellTouch A arg)).Calls A st
      (.create (fullPath st.currentDirectory arg) 0) := by
  refine calls_call (g := fun r => [.string (if r = 0 then "File created successfully"
    else "Error: Could not create file")]) ?_ (Nat.zero_le _) ?_
  · intro path hpath
    rw [List.mem_singleton.mp hpath]
    exact h.isPath_fullPath hc
  · rw [shellTouch, fsStep]
    cases fsCreate A (fullPath st.currentDirectory arg) 0 st <;> rfl

theorem calls_rm (h : IsText arg) :
    (Branch.call [.stay] (shellRm A arg)).Calls A st (.delete arg) := by
  refine calls_call (g := fun r => [.string (if r = 0 then
    "File or directory deleted successfully"
    else "Error: Could not delete file or directory")]) ?_ trivial ?_
  · intro path hpath
    rw [List.mem_singleton.mp hpath]
    exact h.isPath
  · rw [shellRm, fsStep]
    cases fsDelete A arg st <;> rfl

theorem calls_cd (h : IsText arg) :
    (Branch.call [.stay] (shellCd arg)).Calls A st (.changeDir arg) := by
  refine calls_call (g := fun r => [.string (if r = 0 then "Directory changed successfully"
    else "Error: Could not change directory")]) ?_ trivial ?_
  · intro path hpath
    rw [List.mem_singleton.mp hpath]
    exact h.isPath
  · rw [shellCd, fsStep]
    cases fsChangeDir arg st <;> rfl

theorem calls_write (h : IsText arg) (hc : IsCwd st.currentDirectory) :
    (Branch.call [.stay] (shellWrite A arg)).Reads st ∨
      ∃ path data, (Branch.call [.stay] (shellWrite A arg)).Calls A st (.write path data) := by
  have hskip := h.skipSpaces
  have hdata := hskip.takePath_snd.skipSpaces
  by_cases hargs : (takePath (skipSpaces arg)).1 ≠ [] ∧
      skipSpaces (takePath (skipSpaces arg)).2 ≠ []
  · refine Or.inr ⟨fullPath st.currentDirectory (takePath (skipSpaces arg)).1,
      skipSpaces (takePath (skipSpaces arg)).2, ?_⟩
    refine calls_call (g := fun r => [.string (if r = 0 then "File written successfully"
      else "Error: Could not write to file")]) ?_ ?_ ?_
    · intro path hpath
      rw [List.mem_singleton.mp hpath]
      exact hskip.takePath_fst.isPath_fullPath hc
    · exact Nat.le_trans (Nat.le_of_lt hdata.length_lt) (by decide)
    · rw [shellWrite]
      dsimp only
      rw [if_pos hargs, fsStep]
      cases fsWrite A (fullPath st.currentDirectory (takePath (skipSpaces arg)).1)
        (skipSpaces (takePath (skipSpaces arg)).2) st <;> rfl
  · refine Or.inl (reads_call ⟨[.string "Usage: write filepath content"], ?_⟩)
    rw [shellWrite]
    dsimp only
    rw [if_neg hargs]

theorem calls_twoPaths (h : IsText arg) (call : List UInt8 → List UInt8 → FsOp)
    {done failed usage : String}
    (hpaths : ∀ srcPath destPath, (call srcPath destPath).paths = [srcPath, destPath])
    (hsize : ∀ srcPath destPath, (call srcPath destPath).SizeLe libcMaxSize) :
    (Branch.call [.stay] (shellTwoPaths (fun srcPath destPath => fsStep A (call srcPath destPath))
        done failed usage arg)).Reads st ∨
      ∃ srcPath destPath, (Branch.call [.stay] (shellTwoPaths (fun srcPath destPath =>
        fsStep A (call srcPath destPath)) done failed usage arg)).Calls A st
          (call srcPath destPath) := by
  have hsrc := h.skipSpaces.takePath_fst
  have hdest := h.skipSpaces.takePath_snd.skipSpaces
  by_cases hargs : (takePath (skipSpaces arg)).1 ≠ [] ∧
      skipSpaces (takePath (skipSpaces arg)).2 ≠ []
  · refine Or.inr ⟨(takePath (skipSpaces arg)).1, skipSpaces (takePath (skipSpaces arg)).2, ?_⟩
    refine calls_call (g := fun r => [.string (if r = 0 then done else failed)]) ?_ (hsize _ _) ?_
    · intro path hpath
      rw [hpaths, List.mem_pair] at hpath
      rcases hpath with rfl | rfl
      · exact hsrc.isPath
      · exact hdest.isPath
    · rw [shellTwoPaths]
      dsimp only
      rw [hdest.cstr_strncpy, Option.bind_eq_bind, Option.bind_some, if_pos hargs]
      cases fsStep A (call (takePath (skipSpaces arg)).1
        (skipSpaces (takePath (skipSpaces arg)).2)) st <;> rfl
  · refine Or.inl (reads_call ⟨[.string usage], ?_⟩)
    rw [shellTwoPaths]
    dsimp only
    rw [hdest.cstr_strncpy, Option.bind_eq_bind, Option.bind_some, if_neg hargs]

end Calls

def Branch.Spec {σ : Type} (A : Allocator σ) (st : FsState σ) (command : List UInt8)
    (b : Branch σ) : Prop :=
  b.Reads st ∨ ∃ op, (∀ path, op = .mkdir path → command = asciiBytes "mkdir " ++ path) ∧
    b.Calls A st op

theorem Branch.Spec.ite {σ : Type} {A : Allocator σ} {st : FsState σ} {command : List UInt8}
    {p : Prop} [Decidable p] {a b : Branch σ} (ha : p → a.Spec A st command)
    (hb : ¬p → b.Spec A st command) : (if p then a else b).Spec A st command := by
  split
  · exact ha ‹_›
  · exact hb ‹_›

/-! ### Readers -/

section Readers

variable {σ : Type} {A : Allocator σ} {stack : Stack} {st : FsState σ} {command arg : List UInt8}
  {blocks : σ → Nat → Option Nat} {hand : Set Nat} {H : Holdings}
  (h : FsHeap (Allocator.Holds blocks) hand H st) (ha : IsText arg)

include h

theorem reads_ls {moves : List Move} (ha : IsText arg) :
    (Branch.call moves (shellLs arg)).Reads st := by
  refine reads_call ?_
  have hpath : IsPath (if skipSpaces arg = [] then st.currentDirectory else skipSpaces arg) := by
    split
    · exact h.cwd.toIsPath
    · exact ha.skipSpaces.isPath
  obtain ⟨⟨result, buffer⟩, hlist⟩ := h.tree.fsListDir_total hpath 1024
  rw [shellLs]
  dsimp only
  rw [hlist, Option.bind_eq_bind, Option.bind_some]
  dsimp only
  split
  · exact ⟨_, rfl⟩
  · exact ⟨_, rfl⟩

theorem reads_cat {moves : List Move} (ha : IsText arg) :
    (Branch.call moves (shellCat arg)).Reads st := by
  refine reads_call ?_
  have hread := h.fsRead_eq (ha.isPath_fullPath h.cwd) 1023
  obtain ⟨⟨bytesRead, buffer⟩, hr⟩ :
      ∃ r, fsRead (fullPath st.currentDirectory arg) 1023 st = some r := by
    rw [hread]
    split
    · exact ⟨_, rfl⟩
    · split
      · split <;> exact ⟨_, rfl⟩
      · exact ⟨_, rfl⟩
  rw [shellCat, hr, Option.bind_eq_bind, Option.bind_some]
  dsimp only
  split
  · exact ⟨_, rfl⟩
  · exact ⟨_, rfl⟩

theorem reads_stat {moves : List Move} (ha : IsText arg) :
    (Branch.call moves (shellStat arg)).Reads st := by
  refine reads_call ?_
  rw [shellStat, h.tree.fsStat_eq ha.isPath]
  split
  · exact ⟨_, rfl⟩
  · cases lookup st.fs arg <;> exact ⟨_, rfl⟩

theorem reads_tree {moves : List Move} (hstack : ∀ path depth, IsPath (stack.path path depth))
    (ha : IsText arg) : (Branch.call moves (shellTree stack.path arg)).Reads st := by
  refine reads_call ?_
  have hpath : IsPath (if arg = [] then [slash] else arg) := by
    split
    · exact isCwd_slash.toIsPath
    · exact ha.isPath
  obtain ⟨buffer, hb⟩ := h.tree.fsTree_total hpath hstack 2048
  rw [shellTree, hb]
  exact ⟨_, rfl⟩

theorem reads_find {moves : List Move} (ha : IsText arg) :
    (Branch.call moves (shellFind stack arg)).Reads st := by
  refine reads_call ?_
  have hlen : stack.results.toList.length = 1024 := Vector.length_toList
  have hpos : 0 < stack.results.toList.length := by omega
  have hu : stack.results.toList.length < 4294967296 := by omega
  have hbuffer : ∃ (n : Int) (buffer' : List UInt8) (text : List UInt8), 0 ≤ n ∧
      fsFindByName arg stack.results.toList 1024 st.fs = some (n, buffer') ∧
      cstr buffer' = some text := by
    by_cases hnone : matching st.fs arg = []
    · have hfind := fsFindByName_none h.tree ha.noNul hpos hu hnone
      rw [hlen] at hfind
      obtain ⟨text, htext⟩ := cstr_of_mem (show (0 : UInt8) ∈ strncpy (asciiBytes
        "No files found matching pattern\n") 1024 by decide +kernel)
      exact ⟨0, _, text, Int.le_refl _, hfind, htext⟩
    · obtain ⟨buffer', hfind, hcstr⟩ := fsFindByName_eq h.tree ha.noNul hpos hu
      rw [hlen] at hfind
      exact ⟨_, buffer', [], Int.natCast_nonneg _, hfind, hcstr hnone⟩
  obtain ⟨n, buffer', text, hn, hfind, hcstr⟩ := hbuffer
  rw [shellFind, hfind, Option.bind_eq_bind, Option.bind_some]
  dsimp only
  rw [if_pos hn, hcstr]
  exact ⟨_, rfl⟩

/-- **Every command** only reads, or makes one call, with paths and sizes as the file system
takes them. -/
theorem branchOf_spec (hstack : ∀ path depth, IsPath (stack.path path depth))
    (hc : IsText command) : (branchOf A stack command).Spec A st command := by
  have hreads : ∀ {b : Branch σ}, b.Reads st → b.Spec A st command := Or.inl
  have hcalls : ∀ op {b : Branch σ}, (∀ path, op ≠ .mkdir path) → b.Calls A st op →
      b.Spec A st command :=
    fun op _ hop hcalls => Or.inr ⟨op, fun path he => absurd he (hop path), hcalls⟩
  rw [branchOf]
  refine .ite (fun _ => hreads (reads_texts _)) fun _ => ?_
  refine .ite (fun _ => hreads fun s => ⟨_, rfl⟩) fun _ => ?_
  refine .ite (fun _ => hreads (reads_texts _)) fun _ => ?_
  refine .ite (fun _ => hreads (reads_texts _)) fun _ => ?_
  refine .ite (fun _ => hreads (reads_texts _)) fun _ => ?_
  refine .ite (fun _ => hreads (reads_ls h (hc.drop 3))) fun _ => ?_
  refine .ite (fun hmkdir => Or.inr ⟨.mkdir (command.drop 6), fun path he => ?_,
    calls_mkdir (hc.drop 6)⟩) fun _ => ?_
  · rw [← FsOp.mkdir.inj he, ← hmkdir, List.take_append_drop]
  refine .ite (fun _ => hcalls (.create _ _) (by simp) (calls_touch (hc.drop 6) h.cwd)) fun _ => ?_
  refine .ite (fun _ => hreads (reads_cat h (hc.drop 4))) fun _ => ?_
  refine .ite (fun _ => hcalls (.delete _) (by simp) (calls_rm (hc.drop 3))) fun _ => ?_
  refine .ite (fun _ => (calls_write (hc.drop 6) h.cwd).elim hreads
    fun ⟨path, data, hwrite⟩ => hcalls (.write path data) (by simp) hwrite) fun _ => ?_
  refine .ite (fun _ => hreads (reads_texts _)) fun _ => ?_
  refine .ite (fun _ => hreads (reads_call ⟨_, rfl⟩)) fun _ => ?_
  refine .ite (fun _ => hcalls (.changeDir _) (by simp) (calls_cd (hc.drop 3))) fun _ => ?_
  refine .ite (fun _ => hreads (reads_texts _)) fun _ => ?_
  refine .ite (fun _ => (calls_twoPaths (hc.drop 3) .copy (fun _ _ => rfl)
    fun _ _ => trivial).elim hreads
    fun ⟨srcPath, destPath, hcopy⟩ => hcalls (.copy srcPath destPath) (by simp) hcopy) fun _ => ?_
  refine .ite (fun _ => (calls_twoPaths (hc.drop 3) .move (fun _ _ => rfl)
    fun _ _ => trivial).elim hreads
    fun ⟨srcPath, destPath, hmove⟩ => hcalls (.move srcPath destPath) (by simp) hmove) fun _ => ?_
  refine .ite (fun _ => hreads (reads_find h (hc.drop 5))) fun _ => ?_
  refine .ite (fun _ => hreads (reads_tree h hstack (hc.drop 5))) fun _ => ?_
  refine .ite (fun _ => hreads (reads_stat h (hc.drop 5))) fun _ => ?_
  refine .ite (fun _ => hreads (reads_texts _)) fun _ => ?_
  refine .ite (fun _ => hreads (reads_texts _)) fun _ => ?_
  refine .ite (fun _ => hreads (reads_texts _)) fun _ => ?_
  refine .ite (fun _ => hreads (reads_texts _)) fun _ => ?_
  refine .ite (fun _ => hreads (reads_texts _)) fun _ => ?_
  refine .ite (fun _ => hreads (reads_texts _)) fun _ => ?_
  exact .ite (fun _ => hreads (reads_texts _)) fun _ => hreads (reads_texts _)

end Readers

/-! ### The session -/

/-- What a session keeps of the file system on the libc heap. -/
structure SessionInv (heap : Nat) (st : FsState LibcStatics) : Prop where
  held : ∃ H, FsHeap (LibcHolds heap) ∅ H st
  sizes : SizesLe libcMaxSize st.fs

theorem sessionInv_start (heap : Nat) (mem : Mem) :
    SessionInv heap (fsInitState ⟨0, false⟩ mem) :=
  ⟨⟨_, fsInitState_libcHeap heap mem⟩, sizesLe_fsInit _⟩

section Session

variable {heap : Nat} {stack : Stack} {st : FsState LibcStatics} {command : List UInt8}

theorem SessionInv.step (h₀ : 0 < heap) (h₁ : heap + heapSize < 4294967296)
    (h : SessionInv heap st) {op : FsOp} (hp : op.HasPaths) (hsize : op.SizeLe libcMaxSize)
    {r : Int} {st' : FsState LibcStatics}
    (hstep : fsStep (libcAllocator heap) op st = some (r, st')) : SessionInv heap st' := by
  obtain ⟨H, hheap⟩ := h.held
  have hfit := mkdirFits_of_step hheap.toFsInv hp hstep
  have hfits : Machine.Meets (fsStep (libcAllocator heap)) MkdirFits [op] st :=
    (meets_cons_of_step hstep).mpr ⟨hfit, trivial⟩
  obtain ⟨os, st₁, H₁, hrun, hheap', hsizes, -⟩ := fsRun_libcHeap h₀ h₁
    (fun _ hop => List.mem_singleton.mp hop ▸ hp) (fun _ hop => List.mem_singleton.mp hop ▸ hsize)
    hheap h.sizes hfits
  obtain ⟨r', t, os', ht, hnil, -⟩ := run_cons_some.mp hrun
  rw [hstep, Option.some.injEq, Prod.mk.injEq] at ht
  rw [run_nil, Option.some.injEq, Prod.mk.injEq] at hnil
  obtain rfl : st' = st₁ := ht.2.trans hnil.2
  exact ⟨⟨H₁, hheap'⟩, hsizes⟩

theorem keeps_sessionKernel (h₀ : 0 < heap) (h₁ : heap + heapSize < 4294967296)
    (hstack : ∀ path depth, IsPath (stack.path path depth)) :
    Console.Keeps (sessionKernel (libcAllocator heap) stack) (SessionInv heap) := by
  intro command screen kernel screen' kernel' h0 hlen hrow h hex
  obtain ⟨hrow', houtside⟩ := Branch.run_screen hrow hex
  refine ⟨hrow', ?_, houtside⟩
  obtain ⟨H, hheap⟩ := h.held
  rcases branchOf_spec hheap.holds hstack ⟨h0, hlen⟩ with hreads | ⟨op, -, hcalls⟩
  · obtain ⟨s', hs'⟩ := hreads screen
    obtain ⟨-, rfl⟩ := Prod.mk.inj (Option.some.inj (hs'.symm.trans hex))
    exact h
  · obtain ⟨shown, hrun⟩ := hcalls.run
    obtain ⟨⟨r, st'⟩, hstep, hpair⟩ := Option.map_eq_some_iff.mp ((hrun screen).symm.trans hex)
    rw [Prod.mk.injEq] at hpair
    exact hpair.2 ▸ h.step h₀ h₁ hcalls.paths hcalls.size hstep

/-- The only command that does not return: a directory is made behind the end of the table. -/
theorem SessionInv.stops (h : SessionInv heap st)
    (hstack : ∀ path depth, IsPath (stack.path path depth)) (hc : IsText command) {s : Screen}
    (hex : (branchOf (libcAllocator heap) stack command).run s st = none) :
    ∃ path, command = asciiBytes "mkdir " ++ path ∧ mkdirParent st.fs path ≠ none ∧
      st.fs.fileCount = fsMaxFiles := by
  obtain ⟨H, hheap⟩ := h.held
  rcases branchOf_spec hheap.holds hstack hc with hreads | ⟨op, hmkdir, hcalls⟩
  · obtain ⟨s', hs'⟩ := hreads s
    rw [hex] at hs'
    cases hs'
  · obtain ⟨shown, hrun⟩ := hcalls.run
    have hnone := Option.map_eq_none_iff.mp ((hrun s).symm.trans hex)
    have hfit : ¬MkdirFits op st := by
      intro hfit
      obtain ⟨r, st', hstep, -⟩ := fsStep_inv (A := libcAllocator heap) op hheap.toFsInv
        hcalls.paths hfit
      rw [hnone] at hstep
      cases hstep
    cases op with
    | mkdir path =>
        rw [MkdirFits, Classical.not_imp] at hfit
        have hle := hheap.tree.fileCount_le
        exact ⟨path, hmkdir path rfl, hfit.1, by omega⟩
    | _ => exact absurd trivial hfit

end Session

/-- **A session is safe.**  Whatever is typed, the shell takes it up to a `mkdir` that makes a
directory while all 128 entries are in use.  Then the tables of the file system are a tree, the
libc heap is intact and holds the files and nothing else, the screen shows the line that is
being typed, and only the video memory has been written by the console. -/
theorem session_safe (heap : Nat) (h₀ : 0 < heap) (h₁ : heap + heapSize < 4294967296)
    (stack : Stack) (hstack : ∀ path depth, IsPath (stack.path path depth))
    (command : Vector UInt8 maxCommandLength)
    (history : Vector (Vector UInt8 maxCommandLength) commandHistorySize) (video mem : Mem)
    (crtc : Crtc) (chars : List UInt8) : ∃ before after edits s r, chars = before ++ after ∧
      run (consoleStep (sessionKernel (libcAllocator heap) stack)) before
        (start (sessionKernel (libcAllocator heap) stack) command history video crtc
          (fsInitState ⟨0, false⟩ mem)) = some (edits, s) ∧
      FsConsistent s.terminal.kernel.fs ∧ OwnsLibcHeap heap s.terminal.kernel ∧
      s.terminal.line = edits.foldl Edit.apply [] ∧
      ShowsLine (sessionKernel (libcAllocator heap) stack) s r s.terminal.line ∧
      (∀ x, (x < videoMem ∨ videoMem + videoSize ≤ x) → s.video x = video x) ∧
      (after = [] ∨ ∃ rest path, after = 10 :: rest ∧
        s.terminal.line.takeWhile (· ≠ 0) = asciiBytes "mkdir " ++ path ∧
        mkdirParent s.terminal.kernel.fs path ≠ none ∧
        s.terminal.kernel.fs.fileCount = fsMaxFiles) := by
  have hK := keeps_sessionKernel h₀ h₁ hstack
  obtain ⟨before, after, edits, s, hchars, hrun, hstop⟩ :=
    run_prefix (consoleStep (sessionKernel (libcAllocator heap) stack)) chars
      (start (sessionKernel (libcAllocator heap) stack) command history video crtc
        (fsInitState ⟨0, false⟩ mem))
  have h := (consoleInv_start (sessionKernel (libcAllocator heap) stack) command history video crtc
    (sessionInv_start heap mem)).run hK hrun
  obtain ⟨r, hshows⟩ := h.shows
  obtain ⟨H, hheap⟩ := h.kernel.held
  have hline := h.terminal.line_eq
  refine ⟨before, after, edits, s, r, hchars, hrun, hheap.tree.consistent, hheap.ownsLibcHeap,
    hline, hline ▸ hshows, h.outside, hstop.imp_right ?_⟩
  rintro ⟨c, rest, rfl, hnone⟩
  rw [consoleStep, Option.map_eq_none_iff] at hnone
  obtain ⟨rfl, -, hex⟩ := h.stops hK hnone
  obtain ⟨path, hpath, hparent, hfull⟩ := h.kernel.stops hstack
    ⟨not_mem_command _, h.length_command_lt⟩ hex
  exact ⟨rest, path, rfl, hline ▸ hpath, hparent, hfull⟩

/-- The session over an empty memory. -/
abbrev bareKernel : ConsoleKernel (FsState LibcStatics) :=
  sessionKernel (libcAllocator 0x20000) ⟨fun _ _ => [slash], Vector.replicate _ 0⟩

abbrev bareStart : Console (FsState LibcStatics) :=
  start bareKernel (Vector.replicate _ 0) (Vector.replicate _ (Vector.replicate _ 0)) ⟨fun _ => 0⟩
    ⟨0, fun _ => 0⟩ (fsInitState ⟨0, false⟩ ⟨fun _ => 0⟩)

theorem session_safe_mkdir : ∃ before after edits s r,
    asciiBytes "mkdir a\ncd a\n" = before ++ after ∧
      run (consoleStep bareKernel) before bareStart = some (edits, s) ∧
      FsConsistent s.terminal.kernel.fs ∧ OwnsLibcHeap 0x20000 s.terminal.kernel ∧
      s.terminal.line = edits.foldl Edit.apply [] ∧ ShowsLine bareKernel s r s.terminal.line ∧
      (∀ x, (x < videoMem ∨ videoMem + videoSize ≤ x) → s.video x = 0) ∧
      (after = [] ∨ ∃ rest path, after = 10 :: rest ∧
        s.terminal.line.takeWhile (· ≠ 0) = asciiBytes "mkdir " ++ path ∧
        mkdirParent s.terminal.kernel.fs path ≠ none ∧
        s.terminal.kernel.fs.fileCount = fsMaxFiles) :=
  session_safe 0x20000 (by decide) (by decide) ⟨fun _ _ => [slash], Vector.replicate _ 0⟩
    (fun _ _ => isCwd_slash.toIsPath) (Vector.replicate _ 0)
    (Vector.replicate _ (Vector.replicate _ 0)) ⟨fun _ => 0⟩ ⟨fun _ => 0⟩ ⟨0, fun _ => 0⟩
    (asciiBytes "mkdir a\ncd a\n")

end AceOS.Kernel
