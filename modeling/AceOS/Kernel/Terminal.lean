import AceOS.Lib.Machine
import AceOS.Drivers.Fs.Path

/-!
# The command line of the shell (`terminal_putchar` in `src/kernel/kernel.c`)

Characters go into `current_command`; a newline runs the command and prints the prompt
again.  A backspace looks at the column of the cursor only, so that nothing is taken from an
empty line depends on where the prompt ends (`TerminalInv.column`).

The arrays are written through `writeAt`, which gives `none` outside of them.  What is on the
screen is left out, and `history_position`, which is never read.
-/

namespace AceOS.Kernel

open Machine Drivers.Fs

/-! ### The code -/

/-- `a[i] = x`. -/
def writeAt {α : Type} {n : Nat} (a : Vector α n) (i : Int) (x : α) : Option (Vector α n) :=
  if h : 0 ≤ i ∧ i.toNat < n then some (a.set i.toNat x h.2) else none

/-- `a[i]`. -/
def readAt {α : Type} {n : Nat} (a : Vector α n) (i : Int) : Option α :=
  if h : 0 ≤ i ∧ i.toNat < n then some (a.get ⟨i.toNat, h.2⟩) else none

abbrev columns : Int := 80
abbrev rows : Int := 25
abbrev maxCommandLength : Nat := 72
abbrev commandHistorySize : Nat := 10

structure Cursor where
  row : Int
  col : Int

/-- What the command line uses of the rest of the kernel: the text of the current directory,
and what a command leaves. -/
structure ShellKernel (σ : Type) where
  fsGetCurrentDir : σ → List UInt8
  executeCommand : List UInt8 → Cursor → σ → Cursor × σ

structure Terminal (σ : Type) where
  cursor : Cursor
  currentCommand : Vector UInt8 maxCommandLength
  commandLength : Int
  commandHistory : Vector (Vector UInt8 maxCommandLength) commandHistorySize
  historyCount : Int
  kernel : σ

/-- The row that `scroll_screen` leaves the cursor in, where it is called. -/
def scrolled (row : Int) : Int := if rows ≤ row then rows - 1 else row

/-- `k_print_string`, as far as `cursor_row` goes: a text that leaves the last row scrolls. -/
def kPrintString : (str : List UInt8) → (row col cursorRow : Int) → Int
  | [], _, _, cursorRow => cursorRow
  | ch :: str, row, col, cursorRow =>
      if ch = 10 then
        if rows ≤ row + 1 then kPrintString str (rows - 1) 0 (rows - 1)
        else kPrintString str (row + 1) 0 cursorRow
      else
        let cursorRow := if rows ≤ row then rows - 1 else cursorRow
        let row := scrolled row
        if columns ≤ col + 1 then
          if rows ≤ row + 1 then kPrintString str (rows - 1) 0 (rows - 1)
          else kPrintString str (row + 1) 0 cursorRow
        else kPrintString str row (col + 1) cursorRow

def updateCursor (cursor : Cursor) : Cursor :=
  let row := scrolled cursor.row
  if columns ≤ cursor.col then ⟨scrolled (row + 1), 0⟩ else ⟨row, cursor.col⟩

/-- The cursor after "aceOS", the current directory and ">". -/
def printShellPrompt (currentDir : List UInt8) (cursor : Cursor) : Cursor :=
  let row := scrolled (cursor.row + 1)
  let row := kPrintString [97, 99, 101, 79, 83] row 0 row
  let row := kPrintString currentDir row 5 row
  let col : Int := 5 + currentDir.length
  let row := kPrintString [62] row col row
  updateCursor ⟨row, col + 1⟩

/-- `for (; i < command_length && i < MAX_COMMAND_LENGTH - 1; i++)`, `n` characters before the
second bound; the result is `i` and the row of the history. -/
def copyCommand (command : Vector UInt8 maxCommandLength) (commandLength : Int) :
    (n : Nat) → (i : Nat) → Vector UInt8 maxCommandLength →
      Option (Nat × Vector UInt8 maxCommandLength)
  | 0, i, entry => some (i, entry)
  | n + 1, i, entry =>
      if i < commandLength then do
        let c ← readAt command i
        let entry ← writeAt entry i c
        copyCommand command commandLength n (i + 1) entry
      else some (i, entry)

section Shell

variable {σ : Type} (K : ShellKernel σ)

def addToHistory (t : Terminal σ) : Option (Terminal σ) := do
  let entry ← readAt t.commandHistory t.historyCount
  let (i, entry) ← copyCommand t.currentCommand t.commandLength (maxCommandLength - 1) 0 entry
  let entry ← writeAt entry i 0
  let history ← writeAt t.commandHistory t.historyCount entry
  some { t with
    commandHistory := history
    historyCount := (t.historyCount + 1) % commandHistorySize }

def processCommand (t : Terminal σ) : Option (Terminal σ) := do
  let command ← cstr t.currentCommand.toList
  let t ←
    if 0 < t.commandLength then do
      let t ← addToHistory t
      let (cursor, kernel) := K.executeCommand command t.cursor t.kernel
      some { t with cursor := cursor, kernel := kernel }
    else some t
  some { t with
    cursor := printShellPrompt (K.fsGetCurrentDir t.kernel) ⟨t.cursor.row + 1, 0⟩ }

def clearCommandBuffer (t : Terminal σ) : Terminal σ :=
  { t with currentCommand := Vector.replicate _ 0, commandLength := 0 }

def backspaceErases (t : Terminal σ) : Bool :=
  let promptLength : Int := 6 + (K.fsGetCurrentDir t.kernel).length + 2
  promptLength - 1 < t.cursor.col

def hasRoom (t : Terminal σ) : Bool :=
  t.commandLength < maxCommandLength - 1 ∧ t.cursor.col < columns - 1

def terminalPutchar (c : UInt8) (t : Terminal σ) : Option (Terminal σ) :=
  if c = 10 then do
    let command ← writeAt t.currentCommand t.commandLength 0
    let t ← processCommand K { t with currentCommand := command }
    some (clearCommandBuffer t)
  else do
    let t ←
      if c = 8 then
        if backspaceErases K t then do
          let command ← writeAt t.currentCommand (t.commandLength - 1) 0
          some { t with
            cursor := ⟨t.cursor.row, t.cursor.col - 1⟩
            commandLength := t.commandLength - 1
            currentCommand := command }
        else some t
      else if c = 9 then some t
      else if hasRoom t then do
        let command ← writeAt t.currentCommand t.commandLength c
        some { t with
          cursor := ⟨t.cursor.row, t.cursor.col + 1⟩
          commandLength := t.commandLength + 1
          currentCommand := command }
      else some t
    some { t with cursor := updateCursor t.cursor }

/-- The shell as `kernel_main` sets it up, whatever the command buffer and the history hold. -/
def shellStart (command : Vector UInt8 maxCommandLength)
    (history : Vector (Vector UInt8 maxCommandLength) commandHistorySize) (kernel : σ) :
    Terminal σ :=
  let t := clearCommandBuffer ⟨⟨16, 0⟩, command, 0, history, 0, kernel⟩
  { t with cursor := printShellPrompt (K.fsGetCurrentDir t.kernel) t.cursor }

end Shell

/-! ### Arrays -/

theorem writeAt_of_lt {α : Type} {n i : Nat} (a : Vector α n) (x : α) (h : i < n) :
    writeAt a (i : Int) x = some (a.set i x h) := by
  rw [writeAt, dif_pos ⟨Int.natCast_nonneg i, h⟩]
  simp only [Int.toNat_natCast]

theorem readAt_of_lt {α : Type} {n i : Nat} (a : Vector α n) (h : i < n) :
    ∃ x, readAt a (i : Int) = some x := by
  rw [readAt, dif_pos ⟨Int.natCast_nonneg i, h⟩]
  exact ⟨_, rfl⟩

theorem copyCommand_total (command : Vector UInt8 maxCommandLength) (commandLength : Int)
    (n i : Nat) (entry : Vector UInt8 maxCommandLength) (h : i + n < maxCommandLength) :
    ∃ j entry', copyCommand command commandLength n i entry = some (j, entry') ∧
      j < maxCommandLength := by
  induction n generalizing i entry with
  | zero => exact ⟨i, entry, rfl, h⟩
  | succ n ih =>
      rw [copyCommand]
      split
      · obtain ⟨c, hc⟩ := readAt_of_lt command (show i < maxCommandLength by omega)
        obtain ⟨j, entry', hcopy, hj⟩ := ih (i + 1) (entry.set i c) (by omega)
        refine ⟨j, entry', ?_, hj⟩
        rw [hc, Option.bind_eq_bind, Option.bind_some, writeAt_of_lt entry c (by omega),
          Option.bind_eq_bind, Option.bind_some]
        exact hcopy
      · exact ⟨i, entry, rfl, by omega⟩

theorem cstr_of_mem {buffer : List UInt8} (h : (0 : UInt8) ∈ buffer) :
    ∃ s, cstr buffer = some s := by
  induction buffer with
  | nil => cases h
  | cons c cs ih =>
      rw [cstr]
      split
      · exact ⟨[], rfl⟩
      · rename_i hc
        obtain ⟨s, hs⟩ := ih ((List.mem_cons.mp h).resolve_left (fun he => hc he.symm))
        exact ⟨c :: s, by rw [hs, Option.map_some]⟩

/-! ### Line editing -/

/-- What a character does to the line. -/
inductive Edit
  | enter
  | erase
  | accept (c : UInt8)
  | skip

def Edit.apply (line : List UInt8) : Edit → List UInt8
  | .enter => []
  | .erase => line.dropLast
  | .accept c => line ++ [c]
  | .skip => line

/-- The characters accepted since the last newline, in typing order. -/
def Edit.type (typed : List UInt8) : Edit → List UInt8
  | .enter => []
  | .erase => typed
  | .accept c => typed ++ [c]
  | .skip => typed

/-- A line holds typed characters in typing order. -/
theorem foldl_apply_sublist (edits : List Edit) {line typed : List UInt8}
    (h : line.Sublist typed) :
    (edits.foldl Edit.apply line).Sublist (edits.foldl Edit.type typed) := by
  induction edits generalizing line typed with
  | nil => exact h
  | cons e edits ih =>
      apply ih
      cases e with
      | enter => exact List.Sublist.refl []
      | erase => exact (List.dropLast_sublist line).trans h
      | accept c => exact h.append (List.Sublist.refl [c])
      | skip => exact h

section Run

variable {σ : Type} (K : ShellKernel σ)

/-- What `terminal_putchar` does with a character, by the tests it makes. -/
def editOf (c : UInt8) (t : Terminal σ) : Edit :=
  if c = 10 then .enter
  else if c = 8 then if backspaceErases K t then .erase else .skip
  else if c = 9 then .skip
  else if hasRoom t then .accept c
  else .skip

/-- One character, with what it did to the line. -/
def terminalStep (c : UInt8) (t : Terminal σ) : Option (Edit × Terminal σ) :=
  (terminalPutchar K c t).map fun t' => (editOf K c t, t')

/-- `current_command[0..command_length)`. -/
def Terminal.line (t : Terminal σ) : List UInt8 :=
  t.currentCommand.toList.take t.commandLength.toNat

/-! ### The invariant -/

/-- Where the prompt leaves the cursor: behind it, or in column 0 of the next row if that is
past the end of the row. -/
def promptColumn (currentDir : List UInt8) : Int :=
  if columns ≤ 6 + (currentDir.length : Int) then 0 else 6 + currentDir.length

/-- The line is in the buffer, and the cursor is as far behind the prompt as it is long. -/
structure TerminalInv (t : Terminal σ) (line : List UInt8) : Prop where
  length_eq : t.commandLength = line.length
  length_lt : line.length < maxCommandLength
  line_eq : t.line = line
  column : t.cursor.col = promptColumn (K.fsGetCurrentDir t.kernel) + line.length
  column_lt : t.cursor.col < columns
  history : ∃ n : Nat, t.historyCount = n ∧ n < commandHistorySize

variable {K} {t : Terminal σ} {line : List UInt8}

theorem updateCursor_col_of_lt {cursor : Cursor} (h : cursor.col < columns) :
    (updateCursor cursor).col = cursor.col := by
  rw [updateCursor, if_neg (by omega)]

theorem printShellPrompt_col (currentDir : List UInt8) (cursor : Cursor) :
    (printShellPrompt currentDir cursor).col = promptColumn currentDir := by
  rw [printShellPrompt, updateCursor, promptColumn]
  dsimp only
  split
  · rw [if_pos (by omega)]
  · rw [if_neg (by omega)]
    dsimp only
    omega

theorem promptColumn_lt (currentDir : List UInt8) : promptColumn currentDir < columns := by
  rw [promptColumn]
  split
  · decide
  · omega

/-- After the prompt is printed on a cleared buffer the line is empty. -/
theorem terminalInv_prompt {cursor : Cursor}
    (hcol : cursor.col = promptColumn (K.fsGetCurrentDir t.kernel))
    (hhistory : ∃ n : Nat, t.historyCount = n ∧ n < commandHistorySize) :
    TerminalInv K (clearCommandBuffer { t with cursor := cursor }) [] where
  length_eq := rfl
  length_lt := by decide
  line_eq := rfl
  column := by
    show cursor.col = _
    rw [hcol, List.length_nil, Int.natCast_zero, Int.add_zero]
    rfl
  column_lt := by
    show cursor.col < columns
    rw [hcol]
    exact promptColumn_lt _
  history := hhistory

namespace TerminalInv

variable (h : TerminalInv K t line)

include h

/-- **A backspace finds no character on an empty line.**  Where the prompt fits into its row
the cursor has to be two columns behind it; where it does not, no column is far enough. -/
theorem erases_ne_nil (he : backspaceErases K t = true) : line ≠ [] := by
  have hcol := h.column
  have hlt := h.column_lt
  rw [backspaceErases, decide_eq_true_eq] at he
  intro hnil
  rw [hnil, List.length_nil, promptColumn] at hcol
  split at hcol <;> omega

theorem erase (he : backspaceErases K t = true) : ∃ command,
    writeAt t.currentCommand (t.commandLength - 1) 0 = some command ∧
      TerminalInv K { t with
        cursor := ⟨t.cursor.row, t.cursor.col - 1⟩
        commandLength := t.commandLength - 1
        currentCommand := command } line.dropLast := by
  have hlt := h.length_lt
  have hpos : 0 < line.length := List.length_pos_iff.mpr (h.erases_ne_nil he)
  have hlen : t.commandLength - 1 = (line.length - 1 : Nat) := by
    rw [h.length_eq]
    omega
  refine ⟨_, by rw [hlen, writeAt_of_lt _ _ (by omega)], ?_⟩
  constructor
  · rw [List.length_dropLast]
    exact hlen
  · rw [List.length_dropLast]
    omega
  · have hline := h.line_eq
    rw [Terminal.line, h.length_eq, Int.toNat_natCast] at hline
    rw [Terminal.line]
    dsimp only
    have hdrop := List.dropLast_take (l := t.currentCommand.toList) (i := line.length)
      (by rw [Vector.length_toList]; exact hlt)
    rw [hline] at hdrop
    rw [hlen, Int.toNat_natCast, Vector.toList_set, List.take_set_of_le (Nat.le_refl _), hdrop]
  · show t.cursor.col - 1 = _
    rw [h.column, List.length_dropLast]
    dsimp only
    omega
  · show t.cursor.col - 1 < columns
    have hcol := h.column_lt
    omega
  · exact h.history

theorem accept (hr : hasRoom t = true) (c : UInt8) : ∃ command,
    writeAt t.currentCommand t.commandLength c = some command ∧
      TerminalInv K { t with
        cursor := ⟨t.cursor.row, t.cursor.col + 1⟩
        commandLength := t.commandLength + 1
        currentCommand := command } (line ++ [c]) := by
  rw [hasRoom, decide_eq_true_eq] at hr
  have hlt := h.length_lt
  have hroom : line.length + 1 < maxCommandLength := by
    have hlen := hr.1
    rw [h.length_eq] at hlen
    omega
  refine ⟨_, by rw [h.length_eq, writeAt_of_lt _ _ hlt], ?_⟩
  constructor
  · show t.commandLength + 1 = _
    rw [h.length_eq, List.length_append, List.length_singleton, Int.natCast_add]
    rfl
  · rw [List.length_append]
    exact hroom
  · have hline := h.line_eq
    rw [Terminal.line, h.length_eq, Int.toNat_natCast] at hline
    rw [Terminal.line]
    dsimp only
    have hnext : (t.commandLength + 1).toNat = line.length + 1 := by
      rw [h.length_eq]
      rfl
    rw [hnext, Vector.toList_set, List.take_add_one, List.take_set_of_le (Nat.le_refl _), hline,
      List.getElem?_set_self (by rw [Vector.length_toList]; exact hlt)]
    rfl
  · show t.cursor.col + 1 = _
    rw [h.column, List.length_append, List.length_singleton]
    dsimp only
    omega
  · show t.cursor.col + 1 < columns
    have hcol := hr.2
    omega
  · exact h.history

/-- The cursor stays in its row, so that `update_cursor` keeps the column. -/
theorem updateCursor : TerminalInv K { t with cursor := updateCursor t.cursor } line where
  length_eq := h.length_eq
  length_lt := h.length_lt
  line_eq := h.line_eq
  column := by
    show (Kernel.updateCursor t.cursor).col = _
    rw [updateCursor_col_of_lt h.column_lt]
    exact h.column
  column_lt := by
    show (Kernel.updateCursor t.cursor).col < columns
    rw [updateCursor_col_of_lt h.column_lt]
    exact h.column_lt
  history := h.history

theorem addToHistory : ∃ t', addToHistory t = some t' ∧ t'.currentCommand = t.currentCommand ∧
    t'.commandLength = t.commandLength ∧
    ∃ n : Nat, t'.historyCount = n ∧ n < commandHistorySize := by
  obtain ⟨n, hn, hlt⟩ := h.history
  obtain ⟨entry, hentry⟩ := readAt_of_lt t.commandHistory hlt
  obtain ⟨i, copied, hcopy, hi⟩ := copyCommand_total t.currentCommand t.commandLength
    (maxCommandLength - 1) 0 entry (by decide)
  refine ⟨{ t with
    commandHistory := t.commandHistory.set n (copied.set i 0 hi) hlt
    historyCount := (t.historyCount + 1) % commandHistorySize }, ?_, rfl, rfl,
    (n + 1) % commandHistorySize, ?_, Nat.mod_lt _ (by decide)⟩
  · rw [Kernel.addToHistory, hn, hentry]
    simp only [Option.bind_eq_bind, Option.bind_some, hcopy]
    rw [writeAt_of_lt _ _ hi, Option.bind_some, writeAt_of_lt _ _ hlt, Option.bind_some]
  · rw [hn]
    rfl

/-- A newline ends the string in the buffer, so the command runs and the next line is empty. -/
theorem enter : ∃ command, writeAt t.currentCommand t.commandLength 0 = some command ∧
    ∃ t', processCommand K { t with currentCommand := command } = some t' ∧
      TerminalInv K (clearCommandBuffer t') [] := by
  have hlt := h.length_lt
  refine ⟨_, by rw [h.length_eq, writeAt_of_lt _ _ hlt], ?_⟩
  have hnul : (0 : UInt8) ∈ (t.currentCommand.set line.length 0 hlt).toList := by
    rw [Vector.toList_set]
    exact List.mem_set (by rw [Vector.length_toList]; exact hlt) 0
  obtain ⟨s, hs⟩ := cstr_of_mem hnul
  have hinv : TerminalInv K { t with currentCommand := t.currentCommand.set line.length 0 hlt }
      line := by
    refine ⟨h.length_eq, hlt, ?_, h.column, h.column_lt, h.history⟩
    have hline := h.line_eq
    rw [Terminal.line, h.length_eq, Int.toNat_natCast] at hline
    rw [Terminal.line]
    dsimp only
    rw [h.length_eq, Int.toNat_natCast, Vector.toList_set, List.take_set_of_le (Nat.le_refl _),
      hline]
  rw [processCommand]
  dsimp only
  rw [hs, Option.bind_eq_bind, Option.bind_some]
  by_cases hpos : 0 < t.commandLength
  · obtain ⟨t', ht', -, -, hhistory⟩ := hinv.addToHistory
    rw [if_pos hpos, ht']
    exact ⟨_, rfl, terminalInv_prompt (printShellPrompt_col ..) hhistory⟩
  · rw [if_neg hpos]
    exact ⟨_, rfl, terminalInv_prompt (printShellPrompt_col ..) h.history⟩

/-- **One character** keeps the invariant and edits the line; no write leaves an array. -/
theorem terminalPutchar (c : UInt8) : ∃ t', terminalPutchar K c t = some t' ∧
    TerminalInv K t' ((editOf K c t).apply line) := by
  rw [Kernel.terminalPutchar, editOf]
  by_cases henter : c = 10
  · obtain ⟨command, hwrite, t', hprocess, hinv⟩ := h.enter
    rw [if_pos henter, if_pos henter, hwrite]
    simp only [Option.bind_eq_bind, Option.bind_some, hprocess]
    exact ⟨_, rfl, hinv⟩
  rw [if_neg henter, if_neg henter]
  by_cases herase : c = 8
  · rw [if_pos herase, if_pos herase]
    by_cases he : backspaceErases K t = true
    · obtain ⟨command, hwrite, hinv⟩ := h.erase he
      rw [if_pos he, if_pos he, hwrite]
      exact ⟨_, rfl, hinv.updateCursor⟩
    · rw [if_neg he, if_neg he]
      exact ⟨_, rfl, h.updateCursor⟩
  rw [if_neg herase, if_neg herase]
  by_cases htab : c = 9
  · rw [if_pos htab, if_pos htab]
    exact ⟨_, rfl, h.updateCursor⟩
  rw [if_neg htab, if_neg htab]
  by_cases hr : hasRoom t = true
  · obtain ⟨command, hwrite, hinv⟩ := h.accept hr c
    rw [if_pos hr, if_pos hr, hwrite]
    exact ⟨_, rfl, hinv.updateCursor⟩
  · rw [if_neg hr, if_neg hr]
    exact ⟨_, rfl, h.updateCursor⟩

/-- **Any characters** keep it. -/
theorem run (chars : List UInt8) : ∃ edits t', run (terminalStep K) chars t = some (edits, t') ∧
    TerminalInv K t' (edits.foldl Edit.apply line) := by
  induction chars generalizing t line with
  | nil => exact ⟨[], t, rfl, h⟩
  | cons c chars ih =>
      obtain ⟨t₁, hput, hinv⟩ := h.terminalPutchar c
      obtain ⟨edits, t', hrun, hinv'⟩ := ih hinv
      have hstep : terminalStep K c t = some (editOf K c t, t₁) := by
        rw [terminalStep, hput, Option.map_some]
      exact ⟨editOf K c t :: edits, t', run_cons_some.mpr ⟨_, t₁, edits, hstep, hrun, rfl⟩, hinv'⟩

end TerminalInv

theorem terminalInv_shellStart (K : ShellKernel σ) (command : Vector UInt8 maxCommandLength)
    (history : Vector (Vector UInt8 maxCommandLength) commandHistorySize) (kernel : σ) :
    TerminalInv K (shellStart K command history kernel) [] :=
  terminalInv_prompt (t := ⟨⟨16, 0⟩, command, 0, history, 0, kernel⟩) (printShellPrompt_col ..)
    ⟨0, rfl, by decide⟩

/-- **The command line stays in its buffer.**  Whatever is typed after the shell has started,
and whatever the commands do to the current directory, no write is outside an array, and the
buffer holds the characters accepted since the last newline, in typing order, without the ones
that a backspace took. -/
theorem terminal_line (K : ShellKernel σ) (command : Vector UInt8 maxCommandLength)
    (history : Vector (Vector UInt8 maxCommandLength) commandHistorySize) (kernel : σ)
    (chars : List UInt8) :
    ∃ edits t, Machine.run (terminalStep K) chars (shellStart K command history kernel)
        = some (edits, t) ∧
      0 ≤ t.commandLength ∧ t.commandLength ≤ maxCommandLength - 1 ∧
      t.line.length = t.commandLength ∧
      t.line = edits.foldl Edit.apply [] ∧ t.line.Sublist (edits.foldl Edit.type []) := by
  obtain ⟨edits, t, hrun, hinv⟩ := (terminalInv_shellStart K command history kernel).run chars
  have hlen := hinv.length_eq
  have hlt := hinv.length_lt
  refine ⟨edits, t, hrun, ?_, ?_, ?_, hinv.line_eq, ?_⟩
  · omega
  · omega
  · rw [hinv.line_eq, hlen]
  · rw [hinv.line_eq]
    exact foldl_apply_sublist edits (List.Sublist.refl [])

end Run

end AceOS.Kernel
