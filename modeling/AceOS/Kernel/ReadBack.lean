import AceOS.Kernel.Session

/-!
# What is written can be read on the screen

A text that is typed goes through the command line, `execute_command`, the file system and
the libc heap, and back from there to the screen: after `write`, `cat` shows it
(`write_cat_shows`).

The cursor goes down by one row for each text, and a row that is below the screen is
scrolled in, so the rows above keep their distance (`say_row`, `printShellPrompt_above`).
-/

namespace AceOS.Kernel

open Machine Memory Libc Drivers.Fs Screen Console

/-! ### Rows -/

def HasRow (s : Screen) (r : Nat) (text : List UInt8) : Prop :=
  ∀ k x, text[k]? = some x → cell s.video r k = (x, whiteOnBlack)

/-- The rows of `s'` above row `r` are those of `s` that were `k` rows further down. -/
def Above (s s' : Screen) (r k : Nat) : Prop :=
  ∀ r' < r, ∀ c < 80, cell s'.video r' c = cell s.video (r' + k) c

structure FitsRow (text : List UInt8) : Prop where
  ne_nil : text ≠ []
  noNewline : (10 : UInt8) ∉ text
  length_lt : text.length < 80

theorem HasRow.above {s s' : Screen} {r r' k : Nat} {text : List UInt8} (h : HasRow s (r' + k) text)
    (ha : Above s s' r k) (hr : r' < r) (hlen : text.length < 80) : HasRow s' r' text := by
  intro j x hx
  have hj := (List.getElem?_eq_some_iff.mp hx).1
  rw [ha r' hr j (by omega)]
  exact h j x hx

section Rows

variable {s : Screen} {text : List UInt8}

theorem kPrintString_below (hne : text ≠ []) (hnl : (10 : UInt8) ∉ text) :
    s.kPrintString whiteOnBlack text 25 0 = s.scrollScreen.kPrintString whiteOnBlack text 24 0 := by
  obtain ⟨ch, text, rfl⟩ := List.exists_cons_of_ne_nil hne
  have hch : ch ≠ 10 := by
    rintro rfl
    exact hnl (List.mem_cons_self ..)
  have hbelow : rows ≤ (25 : Int) := by decide
  have hin : ¬rows ≤ (24 : Int) := by decide
  have hrow : s.scrollScreen.cursor.row = 24 := rfl
  simp only [Screen.kPrintString, if_neg hch, if_pos hbelow, if_neg hin, hrow]

/-- **A text in the next row.**  It is printed from the first column on, and the rows above
move up if the screen is full. -/
theorem say_row (ht : FitsRow text) {row : Nat} (hcursor : s.cursor = ⟨row, 0⟩) (hrow : row ≤ 25) :
    ∃ r k, r + k = row ∧ (k = 0 ∨ r = 24) ∧ r < 25 ∧ (s.say text).cursor = ⟨r, 0⟩ ∧
      HasRow (s.say text) r text ∧ Above s (s.say text) r k := by
  have hline : ∀ (s : Screen) (r : Nat), r < 25 →
      (s.kPrintString whiteOnBlack text r 0).cursor = s.cursor ∧
      HasRow (s.kPrintString whiteOnBlack text r 0) r text ∧
      Above s (s.kPrintString whiteOnBlack text r 0) r 0 := by
    intro s r hr
    obtain ⟨hcur, htext, hrest⟩ := kPrintString_line (s := s) (r := r) (c := 0) whiteOnBlack text
      ht.noNewline hr (by rw [Nat.zero_add]; exact ht.length_lt)
    refine ⟨hcur, fun k x hx => ?_, fun r' hr' c hc => hrest r' c hc fun he => by omega⟩
    have hcell := htext k x hx
    rwa [Nat.zero_add] at hcell
  rw [Screen.say, hcursor]
  dsimp only
  by_cases hlt : row < 25
  · obtain ⟨hcur, htext, habove⟩ := hline s row hlt
    exact ⟨row, 0, rfl, Or.inl rfl, hlt, hcur.trans hcursor, htext, habove⟩
  · obtain rfl : row = 25 := by omega
    have h25 : ((25 : Nat) : Int) = 25 := rfl
    have h24 : ((24 : Nat) : Int) = 24 := rfl
    rw [h25, kPrintString_below ht.ne_nil ht.noNewline, ← h24]
    obtain ⟨hcur, htext, habove⟩ := hline s.scrollScreen 24 (by decide)
    refine ⟨24, 1, rfl, Or.inr rfl, by decide, ?_, htext, fun r' hr' c hc => ?_⟩
    · rw [hcur, scrollScreen, hcursor]
      rfl
    · rw [habove r' hr' c hc, Nat.add_zero, scrollScreen_cell (by omega) hc, if_pos (by omega)]

theorem printShellPrompt_above {currentDir : List UInt8} (hfits : PromptFits currentDir) (row : Nat)
    (hcursor : s.cursor.row = row) (hrow : row ≤ 25) : ∃ r k, k ≤ 1 ∧
      (k = 0 ∨ r = 24) ∧ row ≤ r + k ∧ r + k ≤ row + 1 ∧ r < 25 ∧
      (s.printShellPrompt currentDir).cursor.row = r ∧
      Above s (s.printShellPrompt currentDir) r k := by
  obtain ⟨r, hr, hscrolled, hrow', -, hrest⟩ :=
    printShellPrompt_line (s := s) (by omega) hfits
  rw [scrolled] at hscrolled
  by_cases hbelow : rows ≤ s.cursor.row + 1
  · rw [if_pos hbelow] at hscrolled
    simp only [rows] at hscrolled hbelow
    refine ⟨r, 1, Nat.le_refl _, by omega, by omega, by omega, hr, hrow', fun r' hr' c hc => ?_⟩
    rw [hrest r' c hc (by omega), if_pos hbelow, scrollScreen_cell (by omega) hc,
      if_pos (by omega)]
  · rw [if_neg hbelow] at hscrolled
    refine ⟨r, 0, Nat.zero_le _, Or.inl rfl, by omega, by omega, hr, hrow', fun r' hr' c hc => ?_⟩
    rw [hrest r' c hc (by omega), if_neg hbelow, Nat.add_zero]

end Rows

/-! ### The commands -/

section Commands

variable {σ : Type} {st : FsState σ} {s : Screen} {p data : List UInt8}

theorem takeWhile_noNul (h0 : (0 : UInt8) ∉ data) : data.takeWhile (· ≠ 0) = data := by
  rw [List.takeWhile_eq_self_iff]
  intro x hx
  rw [decide_eq_true_eq]
  rintro rfl
  exact h0 hx

theorem fitsRow_heading : FitsRow (asciiBytes "File content:") :=
  ⟨by decide, by decide, by decide⟩

def ShowsFile (data : List UInt8) (s : Screen) : Prop :=
  ∃ r : Nat, r + 1 < 25 ∧ s.cursor = ⟨(r + 1 : Nat), 0⟩ ∧
    HasRow s r (asciiBytes "File content:") ∧ HasRow s (r + 1) data

theorem cat_rows (A : Allocator σ) (stack : Stack)
    (hread : fsRead (fullPath st.currentDirectory p) 1023 st = some ((data.length : Int), data))
    (hdata : FitsRow data) (h0 : (0 : UInt8) ∉ data)
    {row : Nat} (hlt : row < 25) (hrow : s.cursor.row = row) :
    ∃ s', (branchOf A stack (asciiBytes "cat " ++ p)).run s st = some (s', st) ∧
      ShowsFile data s' := by
  have hpos : (0 : Int) < data.length := Int.natCast_pos.mpr (List.length_pos_iff.mpr hdata.ne_nil)
  have hcat : shellCat p st = some ([.string "File content:", .text data], st) := by
    rw [shellCat, hread, Option.bind_eq_bind, Option.bind_some]
    dsimp only
    rw [if_pos (Int.le_of_lt hpos), if_pos hpos]
  have hbranch : branchOf A stack (asciiBytes "cat " ++ p) = .call [.stay, .down] (shellCat p) :=
    rfl
  refine ⟨_, by rw [hbranch, Branch.run, hcat, Option.map_some], ?_⟩
  -- the heading, then the data one row further down
  have hcursor₁ : ({ s with cursor := ⟨s.cursor.row + 1, 0⟩ } : Screen).cursor
      = ⟨(row + 1 : Nat), 0⟩ := by
    rw [hrow]
    rfl
  have hall : s.drawAll ([Move.stay, Move.down].zip [Printed.string "File content:", .text data])
      = Screen.say data { ({ s with cursor := ⟨s.cursor.row + 1, 0⟩ } : Screen).say
          (asciiBytes "File content:") with
        cursor := Move.down.apply (({ s with cursor := ⟨s.cursor.row + 1, 0⟩ } : Screen).say
          (asciiBytes "File content:")).cursor } := by
    simp only [Screen.drawAll, List.zip_cons_cons, List.zip_nil_left, List.foldl_cons,
      List.foldl_nil, draw_string, draw_text, takeWhile_noNul h0]
    rfl
  rw [hall]
  obtain ⟨r₁, k₁, hr₁, -, hlt₁, hcur₁, htext₁, -⟩ :=
    say_row fitsRow_heading hcursor₁ (Nat.succ_le_of_lt hlt)
  generalize ({ s with cursor := ⟨s.cursor.row + 1, 0⟩ } : Screen).say
    (asciiBytes "File content:") = s₁ at hcur₁ htext₁ ⊢
  have hcursor₂ : ({ s₁ with cursor := Move.down.apply s₁.cursor } : Screen).cursor
      = ⟨(r₁ + 1 : Nat), 0⟩ := by
    rw [hcur₁]
    rfl
  obtain ⟨r₂, k₂, hr₂, hk₂, hlt₂, hcur₂, htext₂, habove₂⟩ :=
    say_row hdata hcursor₂ (Nat.succ_le_of_lt hlt₁)
  obtain ⟨r, rfl⟩ : ∃ r, r₂ = r + 1 := ⟨r₂ - 1, by omega⟩
  refine ⟨r, hlt₂, hcur₂, ?_, htext₂⟩
  obtain rfl : r₁ = r + k₂ := by omega
  have hheading : HasRow { s₁ with cursor := Move.down.apply s₁.cursor } (r + k₂)
      (asciiBytes "File content:") := htext₁
  exact hheading.above habove₂ (Nat.lt_succ_self r) fitsRow_heading.length_lt

end Commands

/-! ### On the console -/

section Session

variable {heap : Nat} {stack : Stack} {m : Mem} {s : Console (FsState LibcStatics)}
  {p data : List UInt8}

/-- **`cat` on the console**: below the heading, above the new prompt. -/
theorem Console.ConsoleInv.cat_shows (h₀ : 0 < heap) (h₁ : heap + heapSize < 4294967296)
    (hstack : ∀ path depth, IsPath (stack.path path depth))
    (h : ConsoleInv (sessionKernel (libcAllocator heap) stack) (SessionInv heap) m s [])
    (hp : Plain p) (hdata : FitsRow data) (h0 : (0 : UInt8) ∉ data)
    (hfits : PromptFits s.terminal.kernel.currentDirectory) (hlen : 4 + p.length < maxCommandLength)
    (hcol : promptColumn s.terminal.kernel.currentDirectory + (4 + p.length : Nat) < columns)
    (hdel : Delivers (fullPath s.terminal.kernel.currentDirectory p) data s.terminal.kernel) :
    ∃ edits s' r, Machine.run (consoleStep (sessionKernel (libcAllocator heap) stack))
        (asciiBytes "cat " ++ p ++ [10]) s = some (edits, s') ∧
      ConsoleInv (sessionKernel (libcAllocator heap) stack) (SessionInv heap) m s' [] ∧
      s'.terminal.kernel = s.terminal.kernel ∧ ((r + 1 : Nat) : Int) < s'.terminal.cursor.row ∧
      HasRow s'.screen r (asciiBytes "File content:") ∧ HasRow s'.screen (r + 1) data := by
  have hcat : (asciiBytes "cat ").length = 4 := by decide
  have hread : fsRead (fullPath s.terminal.kernel.currentDirectory p) 1023 s.terminal.kernel
      = some ((data.length : Int), data) := by
    have hlt := hdata.length_lt
    rw [hdel.read 1023, Nat.min_eq_right (by omega), List.take_of_length_le (by omega)]
  have hplain : Plain (asciiBytes "cat " ++ p) := by
    intro c hc
    rcases List.mem_append.mp hc with hc | hc
    · exact (show Plain (asciiBytes "cat ") by decide) c hc
    · exact hp c hc
  obtain ⟨edits, s', screen', hrun, h', hkernel, ⟨r, hr, hcur, hheading, htext⟩, hscreen⟩ :=
    h.command (P := ShowsFile data) (keeps_sessionKernel h₀ h₁ hstack) hplain
      (List.append_ne_nil_of_left_ne_nil (by decide) p)
      (by rw [List.length_append, hcat]; exact hlen)
      (by rw [List.length_append, hcat]; exact hcol)
      (fun screen row hlt hrow => cat_rows (libcAllocator heap) stack hread hdata h0 hlt
        hrow)
  obtain ⟨r', k, hk, hfull, hlow, hhigh, -, hrow', habove⟩ := printShellPrompt_above hfits
    (s := { screen' with cursor := ⟨screen'.cursor.row + 1, 0⟩ }) (r + 2) (by rw [hcur]; rfl)
    (by omega)
  have hrow : s'.terminal.cursor.row = r' := (congrArg (fun s => s.cursor.row) hscreen).trans hrow'
  obtain ⟨r₀, rfl⟩ : ∃ r₀, r = r₀ + k := ⟨r - k, by omega⟩
  refine ⟨edits, s', r₀, hrun, h', hkernel, ?_, ?_, ?_⟩
  · rw [hrow]
    omega
  · rw [hscreen]
    exact HasRow.above hheading habove (by omega) fitsRow_heading.length_lt
  · rw [hscreen]
    refine HasRow.above (k := k) ?_ habove (by omega) hdata.length_lt
    rw [Nat.add_right_comm]
    exact htext

/-- **`write` on the console** leaves the data in the file. -/
theorem Console.ConsoleInv.write_delivers (h₀ : 0 < heap) (h₁ : heap + heapSize < 4294967296)
    (hstack : ∀ path depth, IsPath (stack.path path depth))
    (h : ConsoleInv (sessionKernel (libcAllocator heap) stack) (SessionInv heap) m s [])
    (hp : Plain p) (harg : IsArg p) (hdata : Plain data) (hne : data ≠ [])
    (hspace : data.head? ≠ some space) (hlen : 7 + p.length + data.length < maxCommandLength)
    (hcol : promptColumn s.terminal.kernel.currentDirectory
      + (7 + p.length + data.length : Nat) < columns) {st₁ : FsState LibcStatics}
    (hwrite : fsWrite (libcAllocator heap) (fullPath s.terminal.kernel.currentDirectory p) data
      s.terminal.kernel = some (0, st₁)) :
    ∃ edits s₁, Machine.run (consoleStep (sessionKernel (libcAllocator heap) stack))
        (asciiBytes "write " ++ (p ++ space :: data) ++ [10]) s = some (edits, s₁) ∧
      ConsoleInv (sessionKernel (libcAllocator heap) stack) (SessionInv heap) m s₁ [] ∧
      s₁.terminal.kernel = st₁ ∧ st₁.currentDirectory = s.terminal.kernel.currentDirectory ∧
      Delivers (fullPath s.terminal.kernel.currentDirectory p) data st₁ := by
  obtain ⟨H, hheap⟩ := h.kernel.held
  have hpath : IsPath (fullPath s.terminal.kernel.currentDirectory p) :=
    (isCwd_fsTargetPath hheap.cwd harg.noNul).toIsPath
  have hlt : data.length < 72 := by
    rw [show maxCommandLength = 72 from rfl] at hlen
    omega
  have hlength : (asciiBytes "write " ++ (p ++ space :: data)).length
      = 7 + p.length + data.length := by
    have hwr : (asciiBytes "write ").length = 6 := by decide
    rw [List.length_append, List.length_append, List.length_cons, hwr]
    omega
  have hplain : Plain (asciiBytes "write " ++ (p ++ space :: data)) := by
    intro c hc
    simp only [List.mem_append, List.mem_cons] at hc
    rcases hc with hc | hc | rfl | hc
    · exact (show Plain (asciiBytes "write ") by decide) c hc
    · exact hp c hc
    · decide
    · exact hdata c hc
  have hskip : skipSpaces (space :: data) = data := by
    obtain ⟨c, data, rfl⟩ := List.exists_cons_of_ne_nil hne
    rw [skipSpaces, List.dropWhile_cons_of_pos (by decide), List.dropWhile_cons_of_neg]
    rw [decide_eq_true_eq]
    rintro rfl
    exact hspace rfl
  have hshell : shellWrite (libcAllocator heap) (p ++ space :: data) s.terminal.kernel
      = some ([.string "File written successfully"], st₁) := by
    rw [shellWrite_line harg, hskip, if_pos hne, hwrite]
    rfl
  have hbranch : branchOf (libcAllocator heap) stack (asciiBytes "write " ++ (p ++ space :: data))
      = .call [.stay] (shellWrite (libcAllocator heap) (p ++ space :: data)) := rfl
  have hex : ∀ screen : Screen, ∃ screen', (sessionKernel (libcAllocator heap) stack).executeCommand
      (asciiBytes "write " ++ (p ++ space :: data)) screen s.terminal.kernel
        = some (screen', st₁) := by
    intro screen
    refine ⟨screen.drawAll ([.stay].zip [.string "File written successfully"]), ?_⟩
    rw [sessionKernel_executeCommand, hbranch, Branch.run, hshell, Option.map_some]
  obtain ⟨edits, s₁, -, hrun, h', hkernel, -, -⟩ :=
    h.command (P := fun _ => True) (keeps_sessionKernel h₀ h₁ hstack) hplain
      (List.append_ne_nil_of_left_ne_nil (by decide) _) (by rw [hlength]; exact hlen)
      (by rw [hlength]; exact hcol)
      (fun screen _ _ _ => (hex screen).imp fun _ hs => ⟨hs, trivial⟩)
  refine ⟨edits, s₁, hrun, h', hkernel, ?_, ?_⟩
  · rcases hheap.tree.fsWrite_cases (A := libcAllocator heap) hpath data with
      ⟨hfail, -⟩ | ⟨i, -, -, hdone⟩
    · obtain ⟨hcode, -⟩ := Prod.mk.inj (Option.some.inj (hwrite.symm.trans hfail))
      exact absurd hcode (by decide)
    · have hst : st₁ = (s.terminal.kernel.writeData (libcAllocator heap) i data).2 :=
        (congrArg Prod.snd (Option.some.inj (hwrite.symm.trans hdone)) :)
      rw [hst, FsState.writeData_currentDirectory]
  · obtain ⟨i, ptr, H₁, hheap', -, -, -, -, hl₁, hdata₁, hH⟩ := hheap.write_onLibc h₀ h₁ hpath
      (Nat.le_trans (Nat.le_of_lt hlt) (by decide)) hwrite
    exact hheap'.holds.delivers hpath hl₁ hdata₁ hH (Nat.lt_trans hlt (by decide))

end Session

/-- **What is written can be read on the screen.**  In every state that typing leads to, with an
empty line: if `write` succeeds, `cat` of the same file then shows the data, in one of the rows
above the new prompt and below its heading. -/
theorem write_cat_shows (heap : Nat) (h₀ : 0 < heap) (h₁ : heap + heapSize < 4294967296)
    (stack : Stack) (hstack : ∀ path depth, IsPath (stack.path path depth))
    (command : Vector UInt8 maxCommandLength)
    (history : Vector (Vector UInt8 maxCommandLength) commandHistorySize) (video mem : Mem)
    (crtc : Crtc) (chars : List UInt8) (edits : List Edit) (s : Console (FsState LibcStatics))
    (hrun : run (consoleStep (sessionKernel (libcAllocator heap) stack)) chars
      (start (sessionKernel (libcAllocator heap) stack) command history video crtc
        (fsInitState ⟨0, false⟩ mem)) = some (edits, s))
    (hline : s.terminal.line = []) (p data : List UInt8) (hp : Plain p) (harg : IsArg p)
    (hdata : Plain data) (hne : data ≠ []) (hspace : data.head? ≠ some space)
    (hdir : (10 : UInt8) ∉ s.terminal.kernel.currentDirectory)
    (hlen : 7 + p.length + data.length < maxCommandLength)
    (hcol : 13 + s.terminal.kernel.currentDirectory.length + p.length + data.length < 80)
    (st₁ : FsState LibcStatics)
    (hwrite : fsWrite (libcAllocator heap) (fullPath s.terminal.kernel.currentDirectory p) data
      s.terminal.kernel = some (0, st₁)) :
    ∃ edits' s' r, run (consoleStep (sessionKernel (libcAllocator heap) stack))
        (asciiBytes "write " ++ (p ++ space :: data) ++ [10]
          ++ (asciiBytes "cat " ++ p ++ [10])) s = some (edits', s') ∧
      s'.terminal.line = [] ∧ ((r + 1 : Nat) : Int) < s'.terminal.cursor.row ∧
      HasRow s'.screen r (asciiBytes "File content:") ∧ HasRow s'.screen (r + 1) data := by
  have h := (consoleInv_start (sessionKernel (libcAllocator heap) stack) command history video crtc
    (sessionInv_start heap mem)).run (keeps_sessionKernel h₀ h₁ hstack) hrun
  rw [← h.terminal.line_eq, hline] at h
  have hfits : PromptFits s.terminal.kernel.currentDirectory := ⟨hdir, by omega⟩
  have hprompt : promptColumn s.terminal.kernel.currentDirectory
      = 6 + s.terminal.kernel.currentDirectory.length := by
    rw [promptColumn, if_neg]
    simp only [columns]
    omega
  obtain ⟨edits₁, s₁, hrun₁, hs₁, hkernel, hcwd, hdel⟩ := h.write_delivers h₀ h₁ hstack hp harg
    hdata hne hspace hlen (by rw [hprompt]; simp only [columns]; omega) hwrite
  have hcwd₁ : s₁.terminal.kernel.currentDirectory = s.terminal.kernel.currentDirectory := by
    rw [hkernel, hcwd]
  obtain ⟨edits₂, s₂, r, hrun₂, hs₂, -, hrow, hheading, htext⟩ := hs₁.cat_shows h₀ h₁ hstack hp
    ⟨hne, fun hmem => (hdata 10 hmem).2.2.2 rfl, by omega⟩ (fun hmem => (hdata 0 hmem).1 rfl)
    (hcwd₁ ▸ hfits) (by omega) (by rw [hcwd₁, hprompt]; simp only [columns]; omega)
    (by rw [hcwd₁, hkernel]; exact hdel)
  exact ⟨edits₁ ++ edits₂, s₂, r, run_append_some.mpr ⟨edits₁, s₁, edits₂, hrun₁, hrun₂, rfl⟩,
    hs₂.terminal.line_eq, hrow, hheading, htext⟩

/-- After `touch a`, `write a hello` and `cat a` show "hello". -/
theorem write_cat_shows_hello : ∃ edits s edits' s' r,
    run (consoleStep bareKernel) (asciiBytes "touch a\n") bareStart = some (edits, s) ∧
    run (consoleStep bareKernel) (asciiBytes "write " ++ ([97] ++ space :: asciiBytes "hello")
      ++ [10] ++ (asciiBytes "cat " ++ [97] ++ [10])) s = some (edits', s') ∧
    s'.terminal.line = [] ∧ ((r + 1 : Nat) : Int) < s'.terminal.cursor.row ∧
    HasRow s'.screen r (asciiBytes "File content:") ∧
    HasRow s'.screen (r + 1) (asciiBytes "hello") := by
  have hcode : (run (consoleStep bareKernel) (asciiBytes "touch a\n") bareStart).map (fun r =>
      (r.2.terminal.line, r.2.terminal.kernel.currentDirectory,
        (fsWrite (libcAllocator 0x20000) (fullPath r.2.terminal.kernel.currentDirectory [97])
          (asciiBytes "hello") r.2.terminal.kernel).map Prod.fst))
        = some ([], [slash], some 0) := by decide +kernel
  obtain ⟨⟨edits, s⟩, hrun, hfacts⟩ := Option.map_eq_some_iff.mp hcode
  simp only [Prod.mk.injEq] at hfacts
  obtain ⟨hline, hcwd, hwrite⟩ := hfacts
  obtain ⟨⟨r, st₁⟩, hwrite, hr⟩ := Option.map_eq_some_iff.mp hwrite
  obtain rfl : r = 0 := hr
  obtain ⟨edits', s', r, hshows⟩ := write_cat_shows 0x20000 (by decide) (by decide)
    ⟨fun _ _ => [slash], Vector.replicate _ 0⟩ (fun _ _ => isCwd_slash.toIsPath)
    (Vector.replicate _ 0) (Vector.replicate _ (Vector.replicate _ 0)) ⟨fun _ => 0⟩ ⟨fun _ => 0⟩
    ⟨0, fun _ => 0⟩ (asciiBytes "touch a\n") edits s hrun hline [97] (asciiBytes "hello")
    (by decide) ⟨⟨by decide, by decide⟩, by decide, by decide⟩
    (by decide) (by decide) (by decide) (by rw [hcwd]; decide) (by decide)
    (by rw [hcwd]; decide) st₁ hwrite
  exact ⟨edits, s, edits', s', r, hrun, hshows⟩

end AceOS.Kernel
