import AceOS.Kernel.Screen
import Mathlib.Data.List.TakeWhile

/-!
# The command line on the screen (`terminal_putchar` in `src/kernel/kernel.c`)

The terminal of `Kernel.Terminal` together with what it draws.  A character changes the
command line as it does there (`terminalPutchar_terminal`), and after every character the
screen shows the command line behind the prompt, with the cursor at its end
(`console_shows`), whatever the commands have printed before.
-/

namespace AceOS.Kernel

open Machine Drivers.Fs Memory Screen

/-! ### The code -/

/-- What the terminal uses of the rest of the kernel: the text of the current directory, and
what a command does, which may not return. -/
structure ConsoleKernel (σ : Type) where
  fsGetCurrentDir : σ → List UInt8
  executeCommand : List UInt8 → Screen → σ → Option (Screen × σ)

/-- The terminal and the screen, which share the cursor. -/
structure Console (σ : Type) where
  terminal : Terminal σ
  video : Mem
  crtc : Crtc

namespace Console

variable {σ : Type} (K : ConsoleKernel σ)

def screen (s : Console σ) : Screen := ⟨s.video, s.terminal.cursor, s.crtc⟩

def withScreen (screen : Screen) (s : Console σ) : Console σ where
  terminal := { s.terminal with cursor := screen.cursor }
  video := screen.video
  crtc := screen.crtc

def processCommand (s : Console σ) : Option (Console σ) := do
  let command ← cstr s.terminal.currentCommand.toList
  let s ←
    if 0 < s.terminal.commandLength then do
      let t ← addToHistory s.terminal
      let (screen, kernel) ← K.executeCommand command s.screen s.terminal.kernel
      some ({ s with terminal := { t with kernel := kernel } }.withScreen screen)
    else some s
  let cursor : Cursor := ⟨s.terminal.cursor.row + 1, 0⟩
  let screen := { s.screen with cursor := cursor }
  some (s.withScreen (screen.printShellPrompt (K.fsGetCurrentDir s.terminal.kernel)))

def clearCommandBuffer (s : Console σ) : Console σ :=
  { s with terminal := Kernel.clearCommandBuffer s.terminal }

def terminalPutchar (c : UInt8) (s : Console σ) : Option (Console σ) :=
  let t := s.terminal
  if c = 10 then do
    let command ← writeAt t.currentCommand t.commandLength 0
    let s ← processCommand K { s with terminal := { t with currentCommand := command } }
    some s.clearCommandBuffer
  else do
    let s ←
      if c = 8 then
        let promptLength : Int := 6 + (K.fsGetCurrentDir t.kernel).length + 2
        if promptLength - 1 < t.cursor.col then do
          let cursor : Cursor := ⟨t.cursor.row, t.cursor.col - 1⟩
          let screen :=
            { s.screen with cursor := cursor }.kPrintChar 32 whiteOnBlack cursor.row cursor.col
          let command ← writeAt t.currentCommand (t.commandLength - 1) 0
          some ({ s with terminal := { t with
            commandLength := t.commandLength - 1
            currentCommand := command } }.withScreen screen)
        else some s
      else if c = 9 then some s
      else if t.commandLength < maxCommandLength - 1 ∧ t.cursor.col < columns - 1 then do
        let command ← writeAt t.currentCommand t.commandLength c
        let screen := s.screen.kPrintChar c whiteOnBlack t.cursor.row t.cursor.col
        let cursor : Cursor := ⟨t.cursor.row, t.cursor.col + 1⟩
        some ({ s with terminal := { t with
          commandLength := t.commandLength + 1
          currentCommand := command } }.withScreen { screen with cursor := cursor })
      else some s
    some (s.withScreen s.screen.updateCursor)

/-- The console as `kernel_main` sets it up, whatever is on the screen. -/
def start (command : Vector UInt8 maxCommandLength)
    (history : Vector (Vector UInt8 maxCommandLength) commandHistorySize) (video : Mem)
    (crtc : Crtc) (kernel : σ) : Console σ :=
  let t := Kernel.clearCommandBuffer ⟨⟨16, 0⟩, command, 0, history, 0, kernel⟩
  let screen : Screen := ⟨video, t.cursor, crtc⟩
  (⟨t, video, crtc⟩ : Console σ).withScreen (screen.printShellPrompt (K.fsGetCurrentDir kernel))

/-! ### The terminal under the console -/

/-- The kernel as the terminal sees it, with the screen as it is in `s`. -/
def shell (s : Console σ) : ShellKernel σ where
  fsGetCurrentDir := K.fsGetCurrentDir
  executeCommand command cursor kernel :=
    match K.executeCommand command ⟨s.video, cursor, s.crtc⟩ kernel with
    | some r => (r.1.cursor, r.2)
    | none => (cursor, kernel)

/-- The command that a newline runs returns, and leaves the cursor no higher than `clear`
does. -/
def Executes (c : UInt8) (s : Console σ) : Prop :=
  c = 10 → 0 < s.terminal.commandLength → ∀ buffer command,
    writeAt s.terminal.currentCommand s.terminal.commandLength 0 = some buffer →
    cstr buffer.toList = some command →
    ∃ r, K.executeCommand command s.screen s.terminal.kernel = some r ∧ -2 ≤ r.1.cursor.row

variable {K} {s s' : Console σ} {c : UInt8}

@[simp] theorem withScreen_terminal (screen : Screen) (s : Console σ) :
    (s.withScreen screen).terminal = { s.terminal with cursor := screen.cursor } := rfl

@[simp] theorem withScreen_screen (screen : Screen) (s : Console σ) :
    (s.withScreen screen).screen = screen := rfl

theorem addToHistory_cursor {t t' : Terminal σ} (h : addToHistory t = some t') :
    t'.cursor = t.cursor ∧ t'.kernel = t.kernel := by
  simp only [addToHistory, Option.bind_eq_bind, Option.bind_eq_some_iff] at h
  obtain ⟨_, -, _, -, _, -, _, -, h⟩ := h
  rw [Option.some.injEq] at h
  subst h
  exact ⟨rfl, rfl⟩

theorem processCommand_terminal
    (h : 0 < s.terminal.commandLength → ∀ command,
      cstr s.terminal.currentCommand.toList = some command →
      ∃ r, K.executeCommand command s.screen s.terminal.kernel = some r) :
    (processCommand K s).map Console.terminal
      = Kernel.processCommand (shell K s) s.terminal := by
  rw [processCommand, Kernel.processCommand]
  cases hc : cstr s.terminal.currentCommand.toList with
  | none => rfl
  | some command =>
      simp only [Option.bind_eq_bind, Option.bind_some]
      by_cases hpos : 0 < s.terminal.commandLength
      · rw [if_pos hpos, if_pos hpos]
        cases ht : addToHistory s.terminal with
        | none => rfl
        | some t =>
            obtain ⟨hcur, hker⟩ := addToHistory_cursor ht
            obtain ⟨r, hr⟩ := h hpos command hc
            have hsame : K.executeCommand command ⟨s.video, s.terminal.cursor, s.crtc⟩
                s.terminal.kernel = some r := hr
            simp only [Option.bind_some, shell, hcur, hker, hsame, Option.map_some,
              withScreen_terminal, screen, printShellPrompt_cursor]
      · rw [if_neg hpos, if_neg hpos]
        simp only [Option.map_some, withScreen_terminal, screen, printShellPrompt_cursor]
        rfl

/-- **The console does to the command line what the terminal does.** -/
theorem terminalPutchar_terminal (h : Executes K c s) :
    (s.terminalPutchar K c).map Console.terminal
      = Kernel.terminalPutchar (shell K s) c s.terminal := by
  rw [terminalPutchar, Kernel.terminalPutchar]
  dsimp only
  by_cases hnl : c = 10
  · rw [if_pos hnl, if_pos hnl]
    cases hw : writeAt s.terminal.currentCommand s.terminal.commandLength 0 with
    | none => rfl
    | some buffer =>
        simp only [Option.bind_eq_bind, Option.bind_some]
        have hp := processCommand_terminal (K := K)
          (s := { s with terminal := { s.terminal with currentCommand := buffer } })
          fun hpos command hc => (h hnl hpos buffer command hw hc).imp fun _ hr => hr.1
        dsimp only at hp
        have hshell : shell K { s with terminal := { s.terminal with currentCommand := buffer } }
            = shell K s := rfl
        rw [hshell] at hp
        rw [← hp]
        cases processCommand K { s with terminal := { s.terminal with currentCommand := buffer } }
        · rfl
        · rfl
  · have hfinish : ∀ s : Console σ, (s.withScreen s.screen.updateCursor).terminal
        = { s.terminal with cursor := Kernel.updateCursor s.terminal.cursor } := by
      intro s
      rw [withScreen_terminal, updateCursor_cursor]
      rfl
    rw [if_neg hnl, if_neg hnl]
    by_cases hbs : c = 8
    · have hdir : (shell K s).fsGetCurrentDir = K.fsGetCurrentDir := rfl
      rw [if_pos hbs, if_pos hbs, backspaceErases, hdir]
      simp only [decide_eq_true_eq]
      by_cases herase : 6 + ((K.fsGetCurrentDir s.terminal.kernel).length : Int) + 2 - 1
          < s.terminal.cursor.col
      · rw [if_pos herase, if_pos herase]
        cases writeAt s.terminal.currentCommand (s.terminal.commandLength - 1) 0 with
        | none => rfl
        | some buffer =>
            simp only [Option.bind_some, Option.map_some, Option.bind_eq_bind, hfinish,
              withScreen_terminal, kPrintChar_cursor]
      · rw [if_neg herase, if_neg herase]
        simp only [Option.bind_some, Option.map_some, Option.bind_eq_bind, hfinish]
    · rw [if_neg hbs, if_neg hbs]
      by_cases htab : c = 9
      · rw [if_pos htab, if_pos htab]
        simp only [Option.bind_some, Option.map_some, Option.bind_eq_bind, hfinish]
      · rw [if_neg htab, if_neg htab, hasRoom]
        simp only [decide_eq_true_eq]
        by_cases hroom : s.terminal.commandLength < (maxCommandLength : Int) - 1 ∧
            s.terminal.cursor.col < columns - 1
        · rw [if_pos hroom, if_pos hroom]
          cases writeAt s.terminal.currentCommand s.terminal.commandLength c with
          | none => rfl
          | some buffer =>
              simp only [Option.bind_some, Option.map_some, Option.bind_eq_bind, hfinish,
                withScreen_terminal]
        · rw [if_neg hroom, if_neg hroom]
          simp only [Option.bind_some, Option.map_some, Option.bind_eq_bind, hfinish]

def withCommand (length : Int) (buffer : Vector UInt8 maxCommandLength) (s : Console σ) :
    Console σ :=
  { s with terminal := { s.terminal with commandLength := length, currentCommand := buffer } }

/-- The console with `ch` drawn at the cursor's row and `col`, and the cursor at `col'`. -/
def drawn (ch : UInt8) (col col' : Int) (s : Console σ) : Console σ :=
  s.withScreen { s.screen.kPrintChar ch whiteOnBlack s.terminal.cursor.row col with
    cursor := ⟨s.terminal.cursor.row, col'⟩ }

theorem kPrintChar_withCursor (ch attr : UInt8) (row col : Int) (screen : Screen)
    (cursor : Cursor) :
    ({ screen with cursor := cursor } : Screen).kPrintChar ch attr row col
      = { screen.kPrintChar ch attr row col with cursor := cursor } := by
  rw [kPrintChar, kPrintChar]
  dsimp only
  split <;> rfl

theorem terminalPutchar_cases (hnl : c ≠ 10) (he : s.terminalPutchar K c = some s') :
    ∃ s₁, s' = s₁.withScreen s₁.screen.updateCursor ∧
      ((backspaceErases (shell K s) s.terminal = true ∧ editOf (shell K s) c s.terminal = .erase ∧
          ∃ buffer, s₁ = drawn 32 (s.terminal.cursor.col - 1) (s.terminal.cursor.col - 1)
            (s.withCommand (s.terminal.commandLength - 1) buffer)) ∨
        (hasRoom s.terminal = true ∧ editOf (shell K s) c s.terminal = .accept c ∧
          ∃ buffer, s₁ = drawn c s.terminal.cursor.col (s.terminal.cursor.col + 1)
            (s.withCommand (s.terminal.commandLength + 1) buffer)) ∨
        (editOf (shell K s) c s.terminal = .skip ∧ s₁ = s)) := by
  have hdir : (shell K s).fsGetCurrentDir = K.fsGetCurrentDir := rfl
  rw [terminalPutchar] at he
  dsimp only at he
  rw [if_neg hnl] at he
  rw [editOf, if_neg hnl]
  by_cases hbs : c = 8
  · rw [if_pos hbs] at he ⊢
    by_cases herase : backspaceErases (shell K s) s.terminal = true
    · have herase' := herase
      rw [backspaceErases, hdir, decide_eq_true_eq] at herase'
      rw [if_pos herase'] at he
      simp only [Option.bind_eq_bind, Option.bind_eq_some_iff, Option.some.injEq] at he
      obtain ⟨buffer, -, s₁, hs₁, rfl⟩ := he
      refine ⟨s₁, rfl, Or.inl ⟨herase, if_pos herase, buffer, ?_⟩⟩
      rw [← hs₁, kPrintChar_withCursor]
      rfl
    · rw [if_neg herase]
      rw [backspaceErases, hdir, decide_eq_true_eq] at herase
      rw [if_neg herase, Option.bind_eq_bind, Option.bind_some, Option.some.injEq] at he
      exact ⟨s, he.symm, Or.inr (Or.inr ⟨rfl, rfl⟩)⟩
  · rw [if_neg hbs] at he ⊢
    by_cases htab : c = 9
    · rw [if_pos htab] at he ⊢
      rw [Option.bind_eq_bind, Option.bind_some, Option.some.injEq] at he
      exact ⟨s, he.symm, Or.inr (Or.inr ⟨rfl, rfl⟩)⟩
    · rw [if_neg htab] at he ⊢
      by_cases hroom : hasRoom s.terminal = true
      · have hroom' := hroom
        rw [hasRoom, decide_eq_true_eq] at hroom'
        rw [if_pos hroom'] at he
        simp only [Option.bind_eq_bind, Option.bind_eq_some_iff, Option.some.injEq] at he
        obtain ⟨buffer, -, s₁, hs₁, rfl⟩ := he
        exact ⟨s₁, rfl, Or.inr (Or.inl ⟨hroom, if_pos hroom, buffer, hs₁.symm⟩)⟩
      · rw [if_neg hroom]
        rw [hasRoom, decide_eq_true_eq] at hroom
        rw [if_neg hroom, Option.bind_eq_bind, Option.bind_some, Option.some.injEq] at he
        exact ⟨s, he.symm, Or.inr (Or.inr ⟨rfl, rfl⟩)⟩

/-! ### What the screen shows -/

/-- Row `r` of the screen has the prompt, where it fits, and the command line behind it. -/
structure HasText (K : ConsoleKernel σ) (s : Console σ) (r : Nat) (line : List UInt8) : Prop where
  prompt : PromptFits (K.fsGetCurrentDir s.terminal.kernel) → ∀ k x,
    (promptText (K.fsGetCurrentDir s.terminal.kernel))[k]? = some x →
    cell s.video r k = (x, whiteOnBlack)
  text : ∀ k x, (line)[k]? = some x →
    cell s.video r ((promptColumn (K.fsGetCurrentDir s.terminal.kernel)).toNat + k)
      = (x, whiteOnBlack)

/-- The cursor is in row `r` of the screen, behind the command line. -/
structure ShowsLine (K : ConsoleKernel σ) (s : Console σ) (r : Nat) (line : List UInt8) : Prop
    extends HasText K s r line where
  row_lt : r < 25
  row_eq : s.terminal.cursor.row = r
  position : s.crtc.position
    = r * 80 + ((promptColumn (K.fsGetCurrentDir s.terminal.kernel)).toNat + line.length)

/-- The command line is in the buffer and on the screen; of the memory only the video memory
has been written. -/
structure ConsoleInv (K : ConsoleKernel σ) (Inv : σ → Prop) (m : Mem) (s : Console σ)
    (line : List UInt8) : Prop where
  terminal : TerminalInv (shell K s) s.terminal line
  shows : ∃ r, ShowsLine K s r line
  kernel : Inv s.terminal.kernel
  outside : ∀ x, (x < videoMem ∨ videoMem + videoSize ≤ x) → s.video x = m x

/-- What the console asks of a command that returns: the cursor is no higher than `clear`
leaves it, and nothing but the video memory has been written. -/
def Keeps (K : ConsoleKernel σ) (Inv : σ → Prop) : Prop :=
  ∀ command screen kernel screen' kernel', (0 : UInt8) ∉ command →
    command.length < maxCommandLength → 0 ≤ screen.cursor.row → Inv kernel →
    K.executeCommand command screen kernel = some (screen', kernel') →
    -2 ≤ screen'.cursor.row ∧ Inv kernel' ∧
      ∀ x, (x < videoMem ∨ videoMem + videoSize ≤ x) → screen'.video x = screen.video x

theorem promptColumn_nonneg (currentDir : List UInt8) : 0 ≤ promptColumn currentDir := by
  rw [promptColumn]
  split <;> omega

theorem showsLine_prompt (screen : Screen) {kernel : σ} (hrow : -1 ≤ screen.cursor.row)
    (hkernel : s.terminal.kernel = kernel)
    (hscreen : s.screen = screen.printShellPrompt (K.fsGetCurrentDir kernel)) :
    ∃ r, ShowsLine K s r [] := by
  obtain ⟨r, c, hr, hc, hcol, hcursor⟩ := printShellPrompt_row (K.fsGetCurrentDir kernel) hrow
  have hcur : s.terminal.cursor = ⟨r, c⟩ := (congrArg Screen.cursor hscreen).trans hcursor
  refine ⟨r, ⟨?_, fun k x hx => absurd hx (by simp)⟩, hr, by rw [hcur], ?_⟩
  · intro hfits k x hx
    rw [hkernel] at hfits hx
    have hvideo : s.video = (screen.printShellPrompt (K.fsGetCurrentDir kernel)).video :=
      congrArg Screen.video hscreen
    rw [hvideo]
    exact printShellPrompt_text hrow hfits (by rw [hcursor]) hx
  · have hcrtc : s.crtc = (screen.printShellPrompt (K.fsGetCurrentDir kernel)).crtc :=
      congrArg Screen.crtc hscreen
    rw [hcrtc, hkernel, hcol, Int.toNat_natCast, List.length_nil, Nat.add_zero]
    exact updateCursor_position hr hc hcursor

/-- What a newline does: the command is executed if there is one, and a prompt is printed. -/
theorem processCommand_cases (hs : processCommand K s = some s') : ∃ command screen kernel,
    cstr s.terminal.currentCommand.toList = some command ∧
    (if 0 < s.terminal.commandLength then
      K.executeCommand command s.screen s.terminal.kernel = some (screen, kernel)
    else screen = s.screen ∧ kernel = s.terminal.kernel) ∧
    s'.terminal.kernel = kernel ∧
    s'.screen = { screen with cursor := ⟨screen.cursor.row + 1, 0⟩ }.printShellPrompt
      (K.fsGetCurrentDir kernel) := by
  rw [processCommand] at hs
  simp only [Option.bind_eq_bind, Option.bind_eq_some_iff] at hs
  obtain ⟨command, hc, hs⟩ := hs
  by_cases hpos : 0 < s.terminal.commandLength
  · simp only [if_pos hpos, Option.bind_eq_some_iff, Option.some.injEq] at hs
    obtain ⟨t, -, ⟨screen, kernel⟩, hr, _, rfl, rfl⟩ := hs
    refine ⟨command, screen, kernel, hc, by rw [if_pos hpos]; exact hr, rfl, ?_⟩
    rw [withScreen_screen, withScreen_screen]
    rfl
  · simp only [if_neg hpos, Option.bind_some, Option.some.injEq] at hs
    subst hs
    refine ⟨command, s.screen, s.terminal.kernel, hc, ?_, rfl, ?_⟩
    · rw [if_neg hpos]
      exact ⟨rfl, rfl⟩
    · rw [withScreen_screen]
      rfl

variable {line : List UInt8} {r : Nat}

theorem HasText.updateCursor (h : HasText K s r line) (hr : r < 25)
    (hlt : (promptColumn (K.fsGetCurrentDir s.terminal.kernel)).toNat + line.length < 80)
    (hcursor : s.terminal.cursor
      = ⟨r, promptColumn (K.fsGetCurrentDir s.terminal.kernel) + line.length⟩) :
    ShowsLine K (s.withScreen s.screen.updateCursor) r line := by
  have hcol := promptColumn_nonneg (K.fsGetCurrentDir s.terminal.kernel)
  have hcursor' : s.screen.cursor
      = ⟨r, ((promptColumn (K.fsGetCurrentDir s.terminal.kernel)).toNat + line.length : Nat)⟩ := by
    rw [Int.natCast_add, Int.toNat_of_nonneg hcol]
    exact hcursor
  obtain ⟨hcur, hvideo⟩ := updateCursor_inside hcursor' hr hlt
  refine ⟨⟨?_, ?_⟩, hr, congrArg Cursor.row hcur, updateCursor_position hr hlt hcur⟩
  · intro hfits k x hx
    have hv : (s.withScreen s.screen.updateCursor).video = s.video := hvideo
    rw [hv]
    exact h.prompt hfits k x hx
  · intro k x hx
    have hv : (s.withScreen s.screen.updateCursor).video = s.video := hvideo
    rw [hv]
    exact h.text k x hx

theorem length_promptText {currentDir : List UInt8} (h : PromptFits currentDir) :
    (promptText currentDir).length = (promptColumn currentDir).toNat := by
  have hlen := h.length_lt
  rw [promptText, promptColumn, if_neg (by simp only [columns]; omega)]
  simp only [List.length_append, List.length_cons, List.length_nil]
  omega

theorem HasText.withCommand (h : HasText K s r line) (length : Int)
    (buffer : Vector UInt8 maxCommandLength) : HasText K (s.withCommand length buffer) r line :=
  ⟨h.prompt, h.text⟩

/-- What is drawn behind the prompt leaves it, and leaves the line before it. -/
theorem HasText.drawn (h : HasText K s r line) (hr : r < 25) (ch : UInt8) {n : Nat} {col : Int}
    (col' : Int) (hrow : s.terminal.cursor.row = r)
    (hcol : col = ((promptColumn (K.fsGetCurrentDir s.terminal.kernel)).toNat + n : Nat))
    (hn : (promptColumn (K.fsGetCurrentDir s.terminal.kernel)).toNat + n < 80) :
    HasText K (drawn ch col col' s) r (line.take n) := by
  have hcell : ∀ c', c' < 80 →
      c' ≠ (promptColumn (K.fsGetCurrentDir s.terminal.kernel)).toNat + n →
      cell (Console.drawn ch col col' s).video r c' = cell s.video r c' := by
    intro c' hc' hne
    have hput : cell (s.screen.kPrintChar ch whiteOnBlack r
        ((promptColumn (K.fsGetCurrentDir s.terminal.kernel)).toNat + n : Nat)).video r c' = _ :=
      kPrintChar_cell s.screen ch whiteOnBlack hr hn hc'
    rw [if_neg fun h => hne h.2, ← hrow, ← hcol] at hput
    exact hput
  constructor
  · intro hfits k x hx
    have hfits' : PromptFits (K.fsGetCurrentDir s.terminal.kernel) := hfits
    have hk : k < (promptText (K.fsGetCurrentDir s.terminal.kernel)).length :=
      (List.getElem?_eq_some_iff.mp hx).1
    rw [length_promptText hfits'] at hk
    exact (hcell k (by omega) (by omega)).trans (h.prompt hfits k x hx)
  · intro k x hx
    have hk : k < n := by
      have hlen := (List.getElem?_eq_some_iff.mp hx).1
      rw [List.length_take] at hlen
      omega
    rw [List.getElem?_take_of_lt hk] at hx
    exact (hcell ((promptColumn (K.fsGetCurrentDir s.terminal.kernel)).toNat + k) (by omega)
      (by omega)).trans (h.text k x hx)

theorem drawn_cell (hr : r < 25) (ch : UInt8) {n : Nat} {col : Int} (col' : Int)
    (hrow : s.terminal.cursor.row = r) (hcol : col = (n : Nat)) (hn : n < 80) :
    cell (drawn ch col col' s).video r n = (ch, whiteOnBlack) := by
  have hput : cell (s.screen.kPrintChar ch whiteOnBlack r (n : Nat)).video r n = _ :=
    kPrintChar_cell s.screen ch whiteOnBlack hr hn hn
  rw [if_pos ⟨rfl, rfl⟩, ← hrow, ← hcol] at hput
  exact hput

theorem HasText.append (h : HasText K s r line)
    (hc : cell s.video r ((promptColumn (K.fsGetCurrentDir s.terminal.kernel)).toNat + line.length)
      = (c, whiteOnBlack)) : HasText K s r (line ++ [c]) := by
  refine ⟨h.prompt, ?_⟩
  intro k x hx
  by_cases hk : k < line.length
  · rw [List.getElem?_append_left hk] at hx
    exact h.text k x hx
  · rw [List.getElem?_append_right (Nat.not_lt.mp hk)] at hx
    have hlast := (List.getElem?_eq_some_iff.mp hx).1
    rw [List.length_singleton] at hlast
    obtain rfl : k = line.length := by omega
    rw [Nat.sub_self, List.getElem?_cons_zero, Option.some.injEq] at hx
    rw [hc, hx]

/-- **A character** other than a newline edits the line on the screen. -/
theorem ShowsLine.edit (hs : ShowsLine K s r line) (ht : TerminalInv (shell K s) s.terminal line)
    (hnl : c ≠ 10) (he : s.terminalPutchar K c = some s') :
    ShowsLine K s' r ((editOf (shell K s) c s.terminal).apply line) := by
  have hcolumn : s.terminal.cursor.col
      = promptColumn (K.fsGetCurrentDir s.terminal.kernel) + line.length := ht.column
  have hpc := promptColumn_nonneg (K.fsGetCurrentDir s.terminal.kernel)
  have hcl := ht.column_lt
  simp only [columns] at hcl
  have hrow := hs.row_eq
  obtain ⟨s₁, rfl, ⟨herase, hedit, buffer, rfl⟩ | ⟨hroom, hedit, buffer, rfl⟩ | ⟨hedit, rfl⟩⟩ :=
    terminalPutchar_cases hnl he
  · have hpos := List.length_pos_iff.mpr (ht.erases_ne_nil herase)
    have hcol : s.terminal.cursor.col - 1
        = ((promptColumn (K.fsGetCurrentDir s.terminal.kernel)).toNat
          + (line.length - 1) : Nat) := by
      omega
    have hlt : (promptColumn (K.fsGetCurrentDir s.terminal.kernel)).toNat + (line.length - 1)
        < 80 := by omega
    have hdraw := (hs.toHasText.withCommand (s.terminal.commandLength - 1) buffer).drawn
      hs.row_lt 32 (s.terminal.cursor.col - 1) hrow hcol hlt
    rw [← List.dropLast_eq_take] at hdraw
    rw [hedit]
    refine hdraw.updateCursor hs.row_lt ?_ ?_
    · rw [List.length_dropLast]
      exact hlt
    · rw [List.length_dropLast]
      have hcol' : s.terminal.cursor.col - 1
          = promptColumn (K.fsGetCurrentDir s.terminal.kernel) + (line.length - 1 : Nat) := by omega
      exact congrArg₂ Cursor.mk hrow hcol'
  · have hlt : (promptColumn (K.fsGetCurrentDir s.terminal.kernel)).toNat + line.length < 79 := by
      rw [hasRoom, decide_eq_true_eq] at hroom
      have hcol := hroom.2
      simp only [columns] at hcol
      omega
    have hcol : s.terminal.cursor.col
        = ((promptColumn (K.fsGetCurrentDir s.terminal.kernel)).toNat + line.length : Nat) := by
      omega
    have hdraw := (hs.toHasText.withCommand (s.terminal.commandLength + 1) buffer).drawn hs.row_lt c
      (s.terminal.cursor.col + 1) hrow hcol (Nat.lt_succ_of_lt hlt)
    rw [List.take_length] at hdraw
    rw [hedit]
    refine (hdraw.append (drawn_cell hs.row_lt c _ hrow hcol (Nat.lt_succ_of_lt hlt))).updateCursor
      hs.row_lt ?_ ?_
    · rw [List.length_append]
      exact Nat.succ_lt_succ hlt
    · rw [List.length_append, List.length_singleton]
      have hcol' : s.terminal.cursor.col + 1
          = promptColumn (K.fsGetCurrentDir s.terminal.kernel) + (line.length + 1 : Nat) := by omega
      exact congrArg₂ Cursor.mk hrow hcol'
  · rw [hedit]
    exact hs.toHasText.updateCursor hs.row_lt (by omega) (congrArg₂ Cursor.mk hrow hcolumn)

/-! ### A character -/

theorem terminalPutchar_kernel (hnl : c ≠ 10) (he : s.terminalPutchar K c = some s') :
    s'.terminal.kernel = s.terminal.kernel ∧
      ∀ x, (x < videoMem ∨ videoMem + videoSize ≤ x) → s'.video x = s.video x := by
  have hfinish : ∀ s₁ : Console σ, ∀ x, (x < videoMem ∨ videoMem + videoSize ≤ x) →
      (s₁.withScreen s₁.screen.updateCursor).video x = s₁.video x := by
    intro s₁ x hx
    exact updateCursor_outside (s := s₁.screen) hx
  have hdrawn : ∀ (ch : UInt8) (col col' : Int) (s₁ : Console σ) x,
      (x < videoMem ∨ videoMem + videoSize ≤ x) → (drawn ch col col' s₁).video x = s₁.video x := by
    intro ch col col' s₁ x hx
    exact kPrintChar_outside (s := s₁.screen) hx _ _
  obtain ⟨s₁, rfl, ⟨-, -, buffer, rfl⟩ | ⟨-, -, buffer, rfl⟩ | ⟨-, rfl⟩⟩ :=
    terminalPutchar_cases hnl he
  · exact ⟨rfl, fun x hx => (hfinish _ x hx).trans (hdrawn _ _ _ _ x hx)⟩
  · exact ⟨rfl, fun x hx => (hfinish _ x hx).trans (hdrawn _ _ _ _ x hx)⟩
  · exact ⟨rfl, hfinish _⟩

theorem cstr_line {t : Terminal σ} {L : ShellKernel σ} (h : TerminalInv L t line)
    {buffer : Vector UInt8 maxCommandLength}
    (hw : writeAt t.currentCommand t.commandLength 0 = some buffer) :
    cstr buffer.toList = some (line.takeWhile (· ≠ 0)) := by
  have hlt := h.length_lt
  have hline := h.line_eq
  rw [Terminal.line, h.length_eq, Int.toNat_natCast] at hline
  rw [h.length_eq, writeAt_of_lt _ _ hlt, Option.some.injEq] at hw
  have hsplit : buffer.toList
      = line ++ 0 :: t.currentCommand.toList.drop (line.length + 1) := by
    rw [← hw, Vector.toList_set, List.set_eq_take_append_cons_drop,
      if_pos (by rw [Vector.length_toList]; exact hlt), hline]
  have hcstr : ∀ line rest : List UInt8, cstr (line ++ 0 :: rest)
      = some (line.takeWhile (· ≠ 0)) := by
    intro line rest
    induction line with
    | nil => rfl
    | cons x line ih =>
        rw [List.cons_append, cstr, ih, Option.map_some]
        by_cases hx : x = 0
        · rw [if_pos hx, List.takeWhile_cons_of_neg (by simp [hx])]
        · rw [if_neg hx, List.takeWhile_cons_of_pos (by simp [hx])]
  rw [hsplit, hcstr]

theorem terminalPutchar_newline (he : s.terminalPutchar K 10 = some s')
    (ht : TerminalInv (shell K s) s.terminal line) : ∃ screen kernel,
    (if line ≠ [] then
      K.executeCommand (line.takeWhile (· ≠ 0)) s.screen s.terminal.kernel = some (screen, kernel)
    else screen = s.screen ∧ kernel = s.terminal.kernel) ∧
    s'.terminal.kernel = kernel ∧
    s'.screen = { screen with cursor := ⟨screen.cursor.row + 1, 0⟩ }.printShellPrompt
      (K.fsGetCurrentDir kernel) := by
  rw [terminalPutchar, if_pos rfl] at he
  simp only [Option.bind_eq_bind, Option.bind_eq_some_iff, Option.some.injEq] at he
  obtain ⟨buffer, hw, s₁, hp, rfl⟩ := he
  obtain ⟨command, screen, kernel, hc, hr, hkernel, hscreen⟩ := processCommand_cases hp
  have hcommand : command = line.takeWhile (· ≠ 0) :=
    Option.some.inj (hc.symm.trans (cstr_line ht hw))
  refine ⟨screen, kernel, ?_, hkernel, hscreen⟩
  have hpos : (0 < s.terminal.commandLength) ↔ line ≠ [] := by
    rw [ht.length_eq, ← List.length_pos_iff]
    exact Int.natCast_pos
  rw [← hcommand]
  by_cases hne : line ≠ []
  · rw [if_pos (hpos.mpr hne)] at hr
    rw [if_pos hne]
    exact hr
  · rw [if_neg (mt hpos.mp hne)] at hr
    rw [if_neg hne]
    exact hr

theorem not_mem_command (line : List UInt8) : (0 : UInt8) ∉ line.takeWhile (· ≠ 0) := by
  intro hmem
  have hne := List.mem_takeWhile_imp hmem
  rw [decide_eq_true_eq] at hne
  exact hne rfl

section Inv

variable {Inv : σ → Prop} {m : Mem} (h : ConsoleInv K Inv m s line) (hK : Keeps K Inv)

include h

theorem ConsoleInv.row_nonneg : 0 ≤ s.terminal.cursor.row := by
  obtain ⟨r, hr⟩ := h.shows
  rw [hr.row_eq]
  exact Int.natCast_nonneg r

theorem ConsoleInv.length_command_lt : (line.takeWhile (· ≠ 0)).length < maxCommandLength :=
  Nat.lt_of_le_of_lt (List.takeWhile_sublist _).length_le h.terminal.length_lt

include hK

theorem ConsoleInv.executes (hr : c = 10 → line ≠ [] →
    ∃ r, K.executeCommand (line.takeWhile (· ≠ 0)) s.screen s.terminal.kernel = some r) :
    Executes K c s := by
  intro hnl hpos buffer command hw hc
  obtain rfl := Option.some.inj (hc.symm.trans (cstr_line h.terminal hw))
  have hne : line ≠ [] := by
    rw [h.terminal.length_eq] at hpos
    exact List.length_pos_iff.mp (Int.natCast_pos.mp hpos)
  obtain ⟨⟨screen, kernel⟩, hex⟩ := hr hnl hne
  exact ⟨(screen, kernel), hex, (hK _ s.screen s.terminal.kernel screen kernel
    (not_mem_command line) h.length_command_lt h.row_nonneg h.kernel hex).1⟩

/-- **A character** that is taken edits the line, in the buffer and on the screen. -/
theorem ConsoleInv.step (he : s.terminalPutchar K c = some s') :
    ConsoleInv K Inv m s' ((editOf (shell K s) c s.terminal).apply line) := by
  have hex : Executes K c s := by
    refine h.executes hK ?_
    rintro rfl hne
    obtain ⟨screen, kernel, hr, -⟩ := terminalPutchar_newline he h.terminal
    rw [if_pos hne] at hr
    exact ⟨_, hr⟩
  obtain ⟨t', ht', hterminal⟩ := h.terminal.terminalPutchar c
  obtain rfl : s'.terminal = t' := by
    have hsim := terminalPutchar_terminal hex
    rw [he, ht', Option.map_some, Option.some.injEq] at hsim
    exact hsim
  have hterminal' : TerminalInv (shell K s') s'.terminal
      ((editOf (shell K s) c s.terminal).apply line) :=
    ⟨hterminal.length_eq, hterminal.length_lt, hterminal.line_eq, hterminal.column,
      hterminal.column_lt, hterminal.history⟩
  obtain ⟨r, hshows⟩ := h.shows
  by_cases hnl : c = 10
  · subst hnl
    obtain ⟨screen, kernel, hr, hkernel, hscreen⟩ := terminalPutchar_newline he h.terminal
    have hedit : (editOf (shell K s) 10 s.terminal).apply line = [] := by
      rw [editOf, if_pos rfl, Edit.apply]
    -- the empty line is not executed
    have hkeeps : -2 ≤ screen.cursor.row ∧ Inv kernel ∧
        ∀ x, (x < videoMem ∨ videoMem + videoSize ≤ x) → screen.video x = s.video x := by
      by_cases hne : line ≠ []
      · rw [if_pos hne] at hr
        exact hK _ s.screen s.terminal.kernel screen kernel (not_mem_command line)
          h.length_command_lt h.row_nonneg h.kernel hr
      · rw [if_neg hne] at hr
        obtain ⟨rfl, rfl⟩ := hr
        exact ⟨Int.le_trans (by decide) h.row_nonneg, h.kernel, fun x _ => rfl⟩
    obtain ⟨hrow, hinv, houtside⟩ := hkeeps
    refine ⟨hterminal', ?_, hkernel ▸ hinv, ?_⟩
    · rw [hedit]
      refine showsLine_prompt { screen with cursor := ⟨screen.cursor.row + 1, 0⟩ } ?_ hkernel
        hscreen
      have hrow' : -1 ≤ screen.cursor.row + 1 := by omega
      exact hrow'
    · intro x hx
      have hvideo := congrArg (fun screen : Screen => screen.video x) hscreen
      have hprompt := printShellPrompt_outside
        (s := { screen with cursor := ⟨screen.cursor.row + 1, 0⟩ }) hx (K.fsGetCurrentDir kernel)
      exact hvideo.trans (hprompt.trans ((houtside x hx).trans (h.outside x hx)))
  · obtain ⟨hkernel, houtside⟩ := terminalPutchar_kernel hnl he
    exact ⟨hterminal', ⟨r, hshows.edit h.terminal hnl he⟩, hkernel ▸ h.kernel,
      fun x hx => (houtside x hx).trans (h.outside x hx)⟩

/-- **Only a command can stop the console.** -/
theorem ConsoleInv.stops (he : s.terminalPutchar K c = none) : c = 10 ∧ line ≠ [] ∧
    K.executeCommand (line.takeWhile (· ≠ 0)) s.screen s.terminal.kernel = none := by
  by_contra hstop
  have hex : Executes K c s := by
    refine h.executes hK fun hnl hne => ?_
    rw [← Option.ne_none_iff_exists']
    exact fun hnone => hstop ⟨hnl, hne, hnone⟩
  obtain ⟨t', ht', -⟩ := h.terminal.terminalPutchar c
  have hsim := terminalPutchar_terminal hex
  rw [he, ht', Option.map_none] at hsim
  cases hsim

end Inv

theorem ConsoleInv.enter {Inv : σ → Prop} {m : Mem} (h : ConsoleInv K Inv m s line)
    (hK : Keeps K Inv) (hne : line ≠ []) (h0 : (0 : UInt8) ∉ line) {screen : Screen} {kernel : σ}
    (hex : K.executeCommand line s.screen s.terminal.kernel = some (screen, kernel)) :
    ∃ s', s.terminalPutchar K 10 = some s' ∧ ConsoleInv K Inv m s' [] ∧
      s'.terminal.kernel = kernel ∧
      s'.screen = { screen with cursor := ⟨screen.cursor.row + 1, 0⟩ }.printShellPrompt
        (K.fsGetCurrentDir kernel) := by
  have hline : line.takeWhile (· ≠ 0) = line := by
    rw [List.takeWhile_eq_self_iff]
    intro x hx
    rw [decide_eq_true_eq]
    rintro rfl
    exact h0 hx
  cases he : s.terminalPutchar K 10 with
  | none =>
      obtain ⟨-, -, hstop⟩ := h.stops hK he
      rw [hline, hex] at hstop
      cases hstop
  | some s' =>
      have h' := h.step hK he
      rw [editOf, if_pos rfl, Edit.apply] at h'
      obtain ⟨screen', kernel', hr, hkernel, hscreen⟩ := terminalPutchar_newline he h.terminal
      rw [if_pos hne, hline, hex, Option.some.injEq, Prod.mk.injEq] at hr
      obtain ⟨rfl, rfl⟩ := hr
      exact ⟨s', rfl, h', hkernel, hscreen⟩

/-! ### A run -/

def consoleStep (K : ConsoleKernel σ) (c : UInt8) (s : Console σ) : Option (Edit × Console σ) :=
  (s.terminalPutchar K c).map fun s' => (editOf (shell K s) c s.terminal, s')

theorem ConsoleInv.run {Inv : σ → Prop} {m : Mem} {chars : List UInt8} {edits : List Edit}
    (h : ConsoleInv K Inv m s line) (hK : Keeps K Inv)
    (hr : Machine.run (consoleStep K) chars s = some (edits, s')) :
    ConsoleInv K Inv m s' (edits.foldl Edit.apply line) := by
  induction chars generalizing s line edits with
  | nil =>
      rw [run_nil, Option.some.injEq, Prod.mk.injEq] at hr
      obtain ⟨rfl, rfl⟩ := hr
      exact h
  | cons c chars ih =>
      obtain ⟨edit, s₁, edits, hstep, hr, rfl⟩ := run_cons_some.mp hr
      rw [consoleStep, Option.map_eq_some_iff] at hstep
      obtain ⟨s₁, he, hpair⟩ := hstep
      rw [Prod.mk.injEq] at hpair
      obtain ⟨rfl, rfl⟩ := hpair
      have hinv := ih (h.step hK he) hr
      exact hinv

def Plain (w : List UInt8) : Prop := ∀ c ∈ w, c ≠ 0 ∧ c ≠ 8 ∧ c ≠ 9 ∧ c ≠ 10

instance : DecidablePred Plain := fun w => List.decidableBAll _ w

/-- **Typing** as many characters as there is room for appends them to the line. -/
theorem ConsoleInv.type {Inv : σ → Prop} {m : Mem} {w : List UInt8}
    (h : ConsoleInv K Inv m s line) (hK : Keeps K Inv) (hw : Plain w)
    (hlen : line.length + w.length < maxCommandLength)
    (hcol : promptColumn (K.fsGetCurrentDir s.terminal.kernel) + line.length + w.length < columns) :
    ∃ edits s', Machine.run (consoleStep K) w s = some (edits, s') ∧
      ConsoleInv K Inv m s' (line ++ w) ∧ s'.terminal.kernel = s.terminal.kernel := by
  induction w generalizing s line with
  | nil => exact ⟨[], s, rfl, by rwa [List.append_nil], rfl⟩
  | cons c w ih =>
      rw [List.length_cons] at hlen hcol
      obtain ⟨-, hbs, htab, hnl⟩ := hw c (List.mem_cons_self ..)
      have hroom : hasRoom s.terminal = true := by
        have hcolumn := h.terminal.column
        have hlength := h.terminal.length_eq
        have hdir : (shell K s).fsGetCurrentDir = K.fsGetCurrentDir := rfl
        rw [hdir] at hcolumn
        rw [hasRoom, decide_eq_true_eq]
        omega
      have hedit : editOf (shell K s) c s.terminal = .accept c := by
        rw [editOf, if_neg hnl, if_neg hbs, if_neg htab, if_pos hroom]
      cases he : s.terminalPutchar K c with
      | none => exact absurd (h.stops hK he).1 hnl
      | some s₁ =>
          have h₁ := h.step hK he
          rw [hedit, Edit.apply] at h₁
          obtain ⟨hkernel, -⟩ := terminalPutchar_kernel hnl he
          have hdir : K.fsGetCurrentDir s₁.terminal.kernel
              = K.fsGetCurrentDir s.terminal.kernel := by rw [hkernel]
          obtain ⟨edits, s', hrun, h', hkernel'⟩ := ih h₁
            (fun x hx => hw x (List.mem_cons_of_mem c hx))
            (by rw [List.length_append, List.length_singleton]; omega)
            (by rw [hdir, List.length_append, List.length_singleton]; omega)
          refine ⟨.accept c :: edits, s', ?_, ?_, hkernel'.trans hkernel⟩
          · refine run_cons_some.mpr ⟨.accept c, s₁, edits, ?_, hrun, rfl⟩
            rw [consoleStep, he, Option.map_some, hedit]
          · rwa [List.append_assoc] at h'

/-- **A command** that is typed and entered is executed on the screen as it then is. -/
theorem ConsoleInv.command {Inv : σ → Prop} {m : Mem} {w : List UInt8} {kernel : σ}
    {P : Screen → Prop} (h : ConsoleInv K Inv m s []) (hK : Keeps K Inv) (hw : Plain w)
    (hne : w ≠ []) (hlen : w.length < maxCommandLength)
    (hcol : promptColumn (K.fsGetCurrentDir s.terminal.kernel) + w.length < columns)
    (hex : ∀ (screen : Screen) (r : Nat), r < 25 → screen.cursor.row = r →
      ∃ screen', K.executeCommand w screen s.terminal.kernel = some (screen', kernel) ∧
        P screen') :
    ∃ edits s' screen', Machine.run (consoleStep K) (w ++ [10]) s = some (edits, s') ∧
      ConsoleInv K Inv m s' [] ∧ s'.terminal.kernel = kernel ∧ P screen' ∧
      s'.screen = { screen' with cursor := ⟨screen'.cursor.row + 1, 0⟩ }.printShellPrompt
        (K.fsGetCurrentDir kernel) := by
  obtain ⟨edits, s₁, hrun, h₁, hkernel₁⟩ := h.type hK hw
    (by rw [List.length_nil, Nat.zero_add]; exact hlen)
    (by rw [List.length_nil, Int.natCast_zero, Int.add_zero]; exact hcol)
  rw [List.nil_append] at h₁
  obtain ⟨r, hshows⟩ := h₁.shows
  obtain ⟨screen', hscreen, hP⟩ := hex s₁.screen r hshows.row_lt hshows.row_eq
  rw [← hkernel₁] at hscreen
  obtain ⟨s', he, h', hkernel, hs'⟩ := h₁.enter hK hne (fun h0 => (hw 0 h0).1 rfl) hscreen
  refine ⟨edits ++ [.enter], s', screen', ?_, h', hkernel, hP, hs'⟩
  refine run_append_some.mpr ⟨edits, s₁, [.enter], hrun, ?_, rfl⟩
  refine run_cons_some.mpr ⟨.enter, s', [], ?_, rfl, rfl⟩
  rw [consoleStep, he, Option.map_some, editOf, if_pos rfl]

theorem consoleInv_start (K : ConsoleKernel σ) {Inv : σ → Prop}
    (command : Vector UInt8 maxCommandLength)
    (history : Vector (Vector UInt8 maxCommandLength) commandHistorySize) (video : Mem)
    (crtc : Crtc) {kernel : σ} (hinv : Inv kernel) :
    ConsoleInv K Inv video (start K command history video crtc kernel) [] := by
  set s := start K command history video crtc kernel with hs
  let screen : Screen := ⟨video, ⟨16, 0⟩, crtc⟩
  have hscreen : s.screen = screen.printShellPrompt (K.fsGetCurrentDir kernel) := by
    rw [hs, start, withScreen_screen]
    rfl
  have hterminal : s.terminal = shellStart (shell K s) command history kernel := by
    rw [hs, start, withScreen_terminal, printShellPrompt_cursor]
    rfl
  refine ⟨?_, ?_, hinv, ?_⟩
  · rw [hterminal]
    exact terminalInv_shellStart (shell K s) command history kernel
  · exact showsLine_prompt screen (show (-1 : Int) ≤ 16 by decide)
      (congrArg Terminal.kernel hterminal) hscreen
  · intro x hx
    exact (congrArg (fun screen : Screen => screen.video x) hscreen).trans
      (printShellPrompt_outside (s := screen) hx _)

/-- **What is typed is on the screen.**  Whatever is typed, and whatever the commands do, the
console takes the characters up to a command that does not return.  Then the line is what the
characters since the last newline have left, it is in the buffer of the terminal, and the screen
shows it behind the prompt, with the cursor at its end.  Nothing but the video memory has been
written. -/
theorem console_shows (K : ConsoleKernel σ) {Inv : σ → Prop} (hK : Keeps K Inv)
    (command : Vector UInt8 maxCommandLength)
    (history : Vector (Vector UInt8 maxCommandLength) commandHistorySize) (video : Mem)
    (crtc : Crtc) {kernel : σ} (hinv : Inv kernel) (chars : List UInt8) :
    ∃ before after edits s r, chars = before ++ after ∧
      run (consoleStep K) before (start K command history video crtc kernel) = some (edits, s) ∧
      s.terminal.line = edits.foldl Edit.apply [] ∧ ShowsLine K s r s.terminal.line ∧
      Inv s.terminal.kernel ∧
      (∀ x, (x < videoMem ∨ videoMem + videoSize ≤ x) → s.video x = video x) ∧
      (after = [] ∨ (∃ rest, after = 10 :: rest) ∧ s.terminal.line ≠ [] ∧
        K.executeCommand (s.terminal.line.takeWhile (· ≠ 0)) s.screen s.terminal.kernel
          = none) := by
  obtain ⟨before, after, edits, s, hchars, hrun, hstop⟩ :=
    run_prefix (consoleStep K) chars (start K command history video crtc kernel)
  have h := (consoleInv_start K command history video crtc hinv).run hK hrun
  obtain ⟨r, hshows⟩ := h.shows
  have hline := h.terminal.line_eq
  refine ⟨before, after, edits, s, r, hchars, hrun, hline, hline ▸ hshows, h.kernel, h.outside, ?_⟩
  refine hstop.imp_right ?_
  rintro ⟨c, rest, rfl, hnone⟩
  rw [consoleStep, Option.map_eq_none_iff] at hnone
  obtain ⟨rfl, hne, hex⟩ := h.stops hK hnone
  rw [hline]
  exact ⟨⟨rest, rfl⟩, hne, hex⟩

/-- A kernel that knows `clear` only. -/
def clearOnly : ConsoleKernel Unit where
  fsGetCurrentDir _ := [slash]
  executeCommand command screen kernel :=
    if command = [99, 108, 101, 97, 114] then
      some ({ screen.clearScreen with cursor := ⟨-2, 0⟩ }, kernel)
    else none

theorem keeps_clearOnly : Keeps clearOnly fun _ => True := by
  intro command screen kernel screen' kernel' _ _ _ _ hex
  rw [clearOnly] at hex
  dsimp only at hex
  split at hex
  · rw [Option.some.injEq, Prod.mk.injEq] at hex
    obtain ⟨rfl, -⟩ := hex
    exact ⟨Int.le_refl _, trivial, fun x hx => clearScreen_outside hx⟩
  · cases hex

theorem console_shows_clear : ∃ before after edits s r,
    [99, 108, 101, 97, 114, 10, 97, 10] = before ++ after ∧
      run (consoleStep clearOnly) before (start clearOnly (Vector.replicate _ 0)
        (Vector.replicate _ (Vector.replicate _ 0)) ⟨fun _ => 0⟩ ⟨0, fun _ => 0⟩ ())
          = some (edits, s) ∧
      s.terminal.line = edits.foldl Edit.apply [] ∧
      ShowsLine clearOnly s r s.terminal.line ∧ True ∧
      (∀ x, (x < videoMem ∨ videoMem + videoSize ≤ x) → s.video x = 0) ∧
      (after = [] ∨ (∃ rest, after = 10 :: rest) ∧ s.terminal.line ≠ [] ∧
        clearOnly.executeCommand (s.terminal.line.takeWhile (· ≠ 0)) s.screen s.terminal.kernel
          = none) :=
  console_shows clearOnly keeps_clearOnly (Vector.replicate _ 0)
    (Vector.replicate _ (Vector.replicate _ 0)) ⟨fun _ => 0⟩ ⟨0, fun _ => 0⟩ trivial
    [99, 108, 101, 97, 114, 10, 97, 10]

end Console

end AceOS.Kernel
