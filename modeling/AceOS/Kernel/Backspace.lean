import AceOS.Kernel.Terminal

/-!
# Backspace (`terminal_putchar` in `src/kernel/kernel.c`)

The prompt is "aceOS", the current directory and ">", six characters and the directory;
`terminal_putchar` takes it for eight and the directory, and asks for a column behind its last
character.  So a backspace takes a character from a line of two or more, and never the last one
(`backspaceErases_iff`).  Ordinary line editing is the same until the one character of a line is
to be erased, and never again after that (`terminal_backspace_iff`).
-/

namespace AceOS.Kernel

open Machine Drivers.Fs

/-! ### Line editing -/

/-- The byte `'\b'`. -/
abbrev backspace : UInt8 := 8

def Edit.accepted : Edit → List UInt8
  | .accept c => [c]
  | .enter | .erase | .skip => []

/-- A character as a line editor takes it: a backspace takes the last one, if there is one, and
what is accepted is appended. -/
def lineEdit (line : List UInt8) (c : UInt8) (e : Edit) : List UInt8 :=
  if c = backspace then line.dropLast else line ++ e.accepted

def ordinaryLine : (line typed : List UInt8) → List Edit → List UInt8
  | line, c :: typed, e :: edits => ordinaryLine (lineEdit line c e) typed edits
  | line, _, _ => line

/-- The characters that fit behind a prompt. -/
def lineRoom (currentDir : List UInt8) : Nat := min 71 (73 - currentDir.length)

/-- Ordinary editing of a line with room for so many characters. -/
def lineStep (room : Nat) (line : List UInt8) (c : UInt8) : List UInt8 :=
  if c = backspace then line.dropLast else if line.length < room then line ++ [c] else line

def lineAfter (room : Nat) (typed : List UInt8) : List UInt8 := typed.foldl (lineStep room) []

/-- The line of `terminal_putchar` and the ordinary one, side by side. -/
def bothStep (room : Nat) (p : List UInt8 × List UInt8) (c : UInt8) : List UInt8 × List UInt8 :=
  if c = backspace then (if 2 ≤ p.1.length then p.1.dropLast else p.1, p.2.dropLast)
  else if p.1.length < room then (p.1 ++ [c], p.2 ++ [c])
  else p

section Both

variable {room : Nat} {line : List UInt8} {typed : List UInt8}

theorem bothStep_diverged (x : UInt8) (line typed : List UInt8) :
    ∃ line', typed.foldl (bothStep room) (x :: line, line) = (x :: line', line') := by
  induction typed generalizing line with
  | nil => exact ⟨line, rfl⟩
  | cons c typed ih =>
      have hstep : ∃ line', bothStep room (x :: line, line) c = (x :: line', line') := by
        rw [bothStep]
        split
        · cases line with
          | nil => exact ⟨[], rfl⟩
          | cons y line =>
              refine ⟨(y :: line).dropLast, ?_⟩
              rw [if_pos (by simp)]
              rfl
        · split
          · exact ⟨line ++ [c], rfl⟩
          · exact ⟨line, rfl⟩
      obtain ⟨line', hline'⟩ := hstep
      rw [List.foldl_cons, hline']
      exact ih line'

theorem bothStep_same {c : UInt8} (h : c = backspace → line.length ≠ 1) :
    bothStep room (line, line) c = (lineStep room line c, lineStep room line c) := by
  rw [bothStep, lineStep]
  by_cases hc : c = backspace
  · rw [if_pos hc, if_pos hc]
    dsimp only
    split
    · rfl
    · have hnil : line = [] := by
        have := h hc
        exact List.eq_nil_of_length_eq_zero (by omega)
      rw [hnil]
      rfl
  · rw [if_neg hc, if_neg hc]
    dsimp only
    split <;> rfl

theorem forall_backspace_cons {P : List UInt8 → Prop} {c : UInt8} :
    (∀ pre, pre ++ [backspace] <+: c :: typed → P pre) ↔
      (c = backspace → P []) ∧ ∀ pre, pre ++ [backspace] <+: typed → P (c :: pre) := by
  constructor
  · intro h
    refine ⟨?_, fun pre hpre => h (c :: pre) (List.cons_prefix_cons.mpr ⟨rfl, hpre⟩)⟩
    rintro rfl
    exact h [] (List.cons_prefix_cons.mpr ⟨rfl, List.nil_prefix⟩)
  · rintro ⟨hnil, hcons⟩ pre hpre
    cases pre with
    | nil => exact hnil (List.cons_prefix_cons.mp hpre).1.symm
    | cons d pre =>
        obtain ⟨rfl, hpre'⟩ := List.cons_prefix_cons.mp hpre
        exact hcons pre hpre'

/-- **The two lines are the same** if and only if no backspace is typed on a line of one
character. -/
theorem bothStep_eq_iff :
    (typed.foldl (bothStep room) (line, line)).1 = (typed.foldl (bothStep room) (line, line)).2 ↔
      ∀ pre, pre ++ [backspace] <+: typed → (pre.foldl (lineStep room) line).length ≠ 1 := by
  induction typed generalizing line with
  | nil => simp
  | cons c typed ih =>
      rw [forall_backspace_cons, List.foldl_cons]
      by_cases h : c = backspace → line.length ≠ 1
      · rw [bothStep_same h, ih]
        exact (and_iff_right h).symm
      · obtain ⟨rfl, hone⟩ := Classical.not_imp.mp h
        obtain ⟨x, rfl⟩ := List.length_eq_one_iff.mp (not_not.mp hone)
        obtain ⟨line', hline'⟩ :
            ∃ line', typed.foldl (bothStep room) ([x], []) = (x :: line', line') :=
          bothStep_diverged x [] typed
        have hleft : bothStep room ([x], [x]) backspace = (x :: [], []) := rfl
        rw [hleft, hline']
        exact iff_of_false (List.cons_ne_self x line') (fun h' => h'.1 rfl rfl)

end Both

/-! ### The terminal -/

section Terminal

variable {σ : Type} {K : ShellKernel σ} {t : Terminal σ} {line : List UInt8}

def Typeable (c : UInt8) : Prop := c = backspace ∨ 32 ≤ c ∧ c ≤ 126

theorem Typeable.ne_control {c : UInt8} (h : Typeable c) : c ≠ 10 ∧ c ≠ 9 := by
  constructor
  · rintro rfl
    exact h.elim (by decide) (by decide)
  · rintro rfl
    exact h.elim (by decide) (by decide)

section Invariant

variable (h : TerminalInv K t line) (hdir : (K.fsGetCurrentDir t.kernel).length ≤ 60)

include h hdir

theorem TerminalInv.column_eq :
    t.cursor.col = 6 + ((K.fsGetCurrentDir t.kernel).length : Int) + line.length := by
  have hcolumns : columns = 80 := rfl
  rw [h.column, promptColumn, if_neg (by omega)]

/-- **A backspace takes a character** from a line of two or more. -/
theorem TerminalInv.backspaceErases_iff : backspaceErases K t = true ↔ 2 ≤ line.length := by
  rw [backspaceErases, decide_eq_true_eq, h.column_eq hdir]
  omega

theorem TerminalInv.hasRoom_iff :
    hasRoom t = true ↔ line.length < lineRoom (K.fsGetCurrentDir t.kernel) := by
  have hcolumns : columns = 80 := rfl
  have hlength : (maxCommandLength : Int) = 72 := rfl
  rw [hasRoom, decide_eq_true_eq, h.column_eq hdir, h.length_eq, lineRoom]
  omega

end Invariant

theorem terminalPutchar_kernel {c : UInt8} {t' : Terminal σ} (hc : c ≠ 10)
    (hput : terminalPutchar K c t = some t') : t'.kernel = t.kernel := by
  rw [terminalPutchar, if_neg hc] at hput
  simp only [Option.bind_eq_bind, Option.bind_some] at hput
  split at hput
  · split at hput
    · obtain ⟨command, -, hput⟩ := Option.bind_eq_some_iff.mp hput
      rw [← Option.some.inj hput]
    · rw [← Option.some.inj hput]
  · split at hput
    · rw [← Option.some.inj hput]
    · split at hput
      · obtain ⟨command, -, hput⟩ := Option.bind_eq_some_iff.mp hput
        rw [← Option.some.inj hput]
      · rw [← Option.some.inj hput]

/-- **One character** moves the two lines by one step. -/
theorem TerminalInv.typeOne (h : TerminalInv K t line)
    (hdir : (K.fsGetCurrentDir t.kernel).length ≤ 60) {c : UInt8} (hc : Typeable c)
    (other : List UInt8) :
    (editOf K c t).apply line
        = (bothStep (lineRoom (K.fsGetCurrentDir t.kernel)) (line, other) c).1 ∧
      lineEdit other c (editOf K c t)
        = (bothStep (lineRoom (K.fsGetCurrentDir t.kernel)) (line, other) c).2 := by
  obtain ⟨hnewline, htab⟩ := hc.ne_control
  rw [bothStep]
  by_cases hb : c = backspace
  · rw [editOf, if_neg hnewline, if_pos hb, lineEdit, if_pos hb, if_pos hb]
    by_cases he : 2 ≤ line.length
    · rw [if_pos ((h.backspaceErases_iff hdir).mpr he), if_pos he]
      exact ⟨rfl, rfl⟩
    · rw [if_neg (mt (h.backspaceErases_iff hdir).mp he), if_neg he]
      exact ⟨rfl, rfl⟩
  · rw [lineEdit, if_neg hb, if_neg hb]
    by_cases hr : line.length < lineRoom (K.fsGetCurrentDir t.kernel)
    · have hedit : editOf K c t = .accept c := by
        rw [editOf, if_neg hnewline, if_neg hb, if_neg htab, if_pos ((h.hasRoom_iff hdir).mpr hr)]
      rw [hedit, if_pos hr]
      exact ⟨rfl, rfl⟩
    · have hedit : editOf K c t = .skip := by
        rw [editOf, if_neg hnewline, if_neg hb, if_neg htab,
          if_neg (mt (h.hasRoom_iff hdir).mp hr)]
      rw [hedit, if_neg hr]
      exact ⟨rfl, List.append_nil other⟩

/-- **Any characters.** -/
theorem TerminalInv.type (h : TerminalInv K t line)
    (hdir : (K.fsGetCurrentDir t.kernel).length ≤ 60) {typed : List UInt8}
    (htyped : ∀ c ∈ typed, Typeable c) (other : List UInt8) :
    ∃ edits t', Machine.run (terminalStep K) typed t = some (edits, t') ∧ t'.kernel = t.kernel ∧
      TerminalInv K t' (typed.foldl (bothStep (lineRoom (K.fsGetCurrentDir t.kernel)))
        (line, other)).1 ∧
      ordinaryLine other typed edits = (typed.foldl
        (bothStep (lineRoom (K.fsGetCurrentDir t.kernel))) (line, other)).2 := by
  induction typed generalizing t line other with
  | nil => exact ⟨[], t, rfl, rfl, h, rfl⟩
  | cons c typed ih =>
      obtain ⟨hc, htyped⟩ := List.forall_mem_cons.mp htyped
      obtain ⟨t₁, hput, hinv⟩ := h.terminalPutchar c
      have hkernel := terminalPutchar_kernel hc.ne_control.1 hput
      obtain ⟨hline, hother⟩ := h.typeOne hdir hc other
      rw [hline] at hinv
      rw [← hkernel] at hdir
      obtain ⟨edits, t', hrun, hkernel', hinv', hordinary⟩ := ih hinv hdir htyped
        (lineEdit other c (editOf K c t))
      have hstep : terminalStep K c t = some (editOf K c t, t₁) := by
        rw [terminalStep, hput, Option.map_some]
      refine ⟨editOf K c t :: edits, t', run_cons_some.mpr ⟨_, t₁, edits, hstep, hrun, rfl⟩,
        hkernel'.trans hkernel, ?_, ?_⟩
      · rw [hkernel, hother] at hinv'
        exact hinv'
      · rw [hkernel, hother] at hordinary
        rw [ordinaryLine, hother]
        exact hordinary

theorem terminalInv_fresh {command : Vector UInt8 maxCommandLength}
    {history : Vector (Vector UInt8 maxCommandLength) commandHistorySize} {kernel : σ}
    {before : List UInt8} {edits : List Edit}
    (hrun : run (terminalStep K) before (shellStart K command history kernel) = some (edits, t))
    (hfresh : before = [] ∨ before.getLast? = some 10) : TerminalInv K t [] := by
  have hstart := terminalInv_shellStart K command history kernel
  rcases hfresh with rfl | hlast
  · rw [run_nil, Option.some.injEq, Prod.mk.injEq] at hrun
    rw [← hrun.2]
    exact hstart
  · obtain ⟨pre, rfl⟩ := List.getLast?_eq_some_iff.mp hlast
    obtain ⟨edits₁, t₁, edits₂, hpre, henter, -⟩ := run_append_some.mp hrun
    obtain ⟨edits₁', t₁', hpre', hinv⟩ := hstart.run pre
    rw [hpre, Option.some.injEq, Prod.mk.injEq] at hpre'
    obtain ⟨rfl, rfl⟩ := hpre'
    obtain ⟨t₂, hput, hinv₂⟩ := hinv.terminalPutchar 10
    obtain ⟨e, t₃, os, hstep, hnil, -⟩ := run_cons_some.mp henter
    rw [terminalStep, hput, Option.map_some, Option.some.injEq, Prod.mk.injEq] at hstep
    rw [run_nil, Option.some.injEq, Prod.mk.injEq] at hnil
    rw [← hnil.2, ← hstep.2]
    exact hinv₂

/-- **Backspace undoes the last character** on a prompt with a directory of at most 60 characters,
if and only if no backspace is typed on a line of one character.  The cursor is always where the
line ends. -/
theorem terminal_backspace_iff {command : Vector UInt8 maxCommandLength}
    {history : Vector (Vector UInt8 maxCommandLength) commandHistorySize} {kernel : σ}
    {before typed : List UInt8} {edits₀ : List Edit}
    (hrun : run (terminalStep K) before (shellStart K command history kernel) = some (edits₀, t))
    (hfresh : before = [] ∨ before.getLast? = some 10)
    (hdir : (K.fsGetCurrentDir t.kernel).length ≤ 60) (htyped : ∀ c ∈ typed, Typeable c) :
    ∃ edits t', run (terminalStep K) typed t = some (edits, t') ∧
      ((t'.line = ordinaryLine [] typed edits ∧
          t'.cursor.col = 6 + ((K.fsGetCurrentDir t.kernel).length : Int) + t'.commandLength) ↔
        ∀ pre, pre ++ [backspace] <+: typed →
          (lineAfter (lineRoom (K.fsGetCurrentDir t.kernel)) pre).length ≠ 1) := by
  obtain ⟨edits, t', hrun', hkernel, hinv, hordinary⟩ :=
    (terminalInv_fresh hrun hfresh).type hdir htyped []
  refine ⟨edits, t', hrun', ?_⟩
  rw [← hkernel] at hdir
  have hcol := hinv.column_eq hdir
  rw [hkernel] at hcol
  rw [hinv.line_eq, hordinary, hinv.length_eq, and_iff_left hcol]
  exact bothStep_eq_iff

/-- A shell in the root directory whose commands do nothing, on cleared buffers. -/
def idleShell : ShellKernel Unit := ⟨fun _ => [slash], fun _ cursor s => (cursor, s)⟩

def idleStart : Terminal Unit :=
  shellStart idleShell (Vector.replicate _ 0) (Vector.replicate _ (Vector.replicate _ 0)) ()

/-- "ab" and a backspace. -/
theorem terminal_backspace_two : ∃ edits t',
    run (terminalStep idleShell) [97, 98, 8] idleStart = some (edits, t') ∧
    t'.line = ordinaryLine [] [97, 98, 8] edits ∧ t'.cursor.col = 7 + t'.commandLength := by
  have hprompt : run (terminalStep idleShell) [] idleStart = some ([], idleStart) := run_nil _
  have htyped : ∀ c ∈ [97, 98, 8], Typeable c := by
    simp only [List.forall_mem_cons]
    exact ⟨Or.inr (by decide), Or.inr (by decide), Or.inl rfl,
      fun _ hc => absurd hc List.not_mem_nil⟩
  obtain ⟨edits, t', hrun, hiff⟩ := terminal_backspace_iff hprompt (Or.inl rfl) (by decide) htyped
  have hnever : ∀ pre, pre ++ [backspace] <+: [97, 98, 8] →
      (lineAfter (lineRoom [slash]) pre).length ≠ 1 := by
    simp only [forall_backspace_cons]
    refine ⟨by decide, by decide, by decide, fun pre hpre => ?_⟩
    exact absurd (List.prefix_nil.mp hpre) (by simp)
  obtain ⟨hline, hcol⟩ := hiff.mpr hnever
  exact ⟨edits, t', hrun, hline, hcol⟩

/-- "a", a backspace and "b": the line is "ab". -/
theorem terminal_backspace_one : ∃ edits t',
    run (terminalStep idleShell) [97, 8, 98] idleStart = some (edits, t') ∧
    t'.line = [97, 98] ∧ ordinaryLine [] [97, 8, 98] edits = [98] := by
  have htyped : ∀ c ∈ [97, 8, 98], Typeable c := by
    simp only [List.forall_mem_cons]
    exact ⟨Or.inr (by decide), Or.inl rfl, Or.inr (by decide),
      fun _ hc => absurd hc List.not_mem_nil⟩
  obtain ⟨edits, t', hrun, -, hinv, hordinary⟩ :=
    (terminalInv_shellStart idleShell (Vector.replicate _ 0)
      (Vector.replicate _ (Vector.replicate _ 0)) ()).type (by decide) htyped []
  exact ⟨edits, t', hrun, hinv.line_eq, hordinary⟩

end Terminal

end AceOS.Kernel
