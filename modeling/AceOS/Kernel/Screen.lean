import AceOS.Kernel.Terminal
import AceOS.Lib.Memory
import AceOS.Lib.Teletype
import Mathlib.Logic.Function.Basic

/-!
# The screen (`src/kernel/kernel.c`)

The video memory of the text mode: 25 rows of 80 cells, a character and an attribute each.
`k_print_string` wraps at the end of a row and scrolls at the end of the screen, so that the
screen is a window on an endless page (`kPrintString_shows`), and it writes nowhere else
(`kPrintString_outside`).

The rows and columns are those of the shell (`Kernel.kPrintString` is the part of this one
that the command line depends on, `kPrintString_cursor`).
-/

namespace AceOS.Kernel

open Memory

/-! ### The code -/

/-- `REAL_MODE_VIDEO_MEM`. -/
abbrev videoMem : Nat := 0xB8000

/-- `row_bytes`. -/
abbrev rowBytes : Nat := 160

/-- `COLUMNS * ROWS * 2`. -/
abbrev videoSize : Nat := 4000

abbrev whiteOnBlack : UInt8 := 0x07

/-- The registers of the display controller, and the one that `0x3D5` writes. -/
structure Crtc where
  index : UInt8
  regs : UInt8 → UInt8

def Crtc.outb (port : Nat) (value : UInt8) (v : Crtc) : Crtc :=
  if port = 0x3D4 then { v with index := value }
  else if port = 0x3D5 then { v with regs := Function.update v.regs v.index value }
  else v

/-- The cell in which the cursor blinks: registers `0x0E` and `0x0F`. -/
def Crtc.position (v : Crtc) : Nat := (v.regs 0x0E).toNat * 256 + (v.regs 0x0F).toNat

structure Screen where
  video : Mem
  cursor : Cursor
  crtc : Crtc

namespace Screen

def vgaMoveCursor (row col : Int) (s : Screen) : Screen :=
  let pos := row * columns + col
  let v := s.crtc.outb 0x3D4 0x0F
  let v := v.outb 0x3D5 (UInt8.ofNat (pos % 256).toNat)
  let v := v.outb 0x3D4 0x0E
  { s with crtc := v.outb 0x3D5 (UInt8.ofNat (pos / 256 % 256).toNat) }

/-- The first `n` bytes of row `r + 1` are copied to row `r`. -/
def copyRow (r : Nat) : (n : Nat) → Mem → Mem
  | 0, m => m
  | c + 1, m =>
      let m := copyRow r c m
      store8 m (videoMem + (r * rowBytes + c)) (m (videoMem + ((r + 1) * rowBytes + c)))

/-- The first `n` rows get the rows below them. -/
def moveRows : (n : Nat) → Mem → Mem
  | 0, m => m
  | r + 1, m => copyRow r rowBytes (moveRows r m)

/-- The first `n` cells from `base` on get a space each. -/
def blankCells (base : Nat) : (n : Nat) → Mem → Mem
  | 0, m => m
  | c + 1, m =>
      let m := blankCells base c m
      store8 (store8 m (videoMem + (base + c * 2)) 32) (videoMem + (base + c * 2 + 1)) whiteOnBlack

def scrollScreen (s : Screen) : Screen :=
  { s with
    video := blankCells (24 * rowBytes) 80 (moveRows 24 s.video)
    cursor := ⟨rows - 1, s.cursor.col⟩ }

def clearScreen (s : Screen) : Screen := { s with video := blankCells 0 2000 s.video }

def kPrintChar (c attr : UInt8) (row col : Int) (s : Screen) : Screen :=
  let offset := (row * columns + col) * 2
  if offset < 0 ∨ (videoSize : Int) ≤ offset then s
  else
    let video := store8 s.video (videoMem + offset.toNat) c
    { s with video := store8 video (videoMem + offset.toNat + 1) attr }

/-- The loop of `k_print_string`, at `row` and `col`. -/
def kPrintString (attr : UInt8) : (str : List UInt8) → (row col : Int) → Screen → Screen
  | [], _, _, s => s
  | ch :: str, row, col, s =>
      if ch = 10 then
        if rows ≤ row + 1 then
          let s := scrollScreen s
          kPrintString attr str s.cursor.row 0 s
        else kPrintString attr str (row + 1) 0 s
      else
        let s := if rows ≤ row then scrollScreen s else s
        let row := if rows ≤ row then s.cursor.row else row
        let s :=
          if 0 ≤ col ∧ col < columns ∧ 0 ≤ row ∧ row < rows then kPrintChar ch attr row col s
          else s
        if columns ≤ col + 1 then
          if rows ≤ row + 1 then
            let s := scrollScreen s
            kPrintString attr str s.cursor.row 0 s
          else kPrintString attr str (row + 1) 0 s
        else kPrintString attr str row (col + 1) s

def updateCursor (s : Screen) : Screen :=
  let s := if rows ≤ s.cursor.row then scrollScreen s else s
  let s :=
    if columns ≤ s.cursor.col then
      let s := { s with cursor := ⟨s.cursor.row + 1, 0⟩ }
      if rows ≤ s.cursor.row then scrollScreen s else s
    else s
  vgaMoveCursor s.cursor.row s.cursor.col s

def printShellPrompt (currentDir : List UInt8) (s : Screen) : Screen :=
  let s := { s with cursor := ⟨s.cursor.row + 1, s.cursor.col⟩ }
  let s := if rows ≤ s.cursor.row then scrollScreen s else s
  let s := kPrintString whiteOnBlack [97, 99, 101, 79, 83] s.cursor.row 0 s
  let s := { s with cursor := ⟨s.cursor.row, 5⟩ }
  let s := kPrintString whiteOnBlack currentDir s.cursor.row s.cursor.col s
  let s := { s with cursor := ⟨s.cursor.row, s.cursor.col + currentDir.length⟩ }
  let s := kPrintString whiteOnBlack [62] s.cursor.row s.cursor.col s
  let s := { s with cursor := ⟨s.cursor.row, s.cursor.col + 1⟩ }
  updateCursor s

end Screen

/-! ### Bytes -/

namespace Screen

variable {m : Mem} {x n r c : Nat}

theorem copyRow_apply (r n : Nat) (hn : n ≤ rowBytes) (m : Mem) (x : Nat) : copyRow r n m x =
    if videoMem + r * rowBytes ≤ x ∧ x < videoMem + (r * rowBytes + n) then m (x + rowBytes)
    else m x := by
  induction n generalizing x with
  | zero => rw [copyRow, if_neg (by omega)]
  | succ n ih =>
      have ih := fun x => ih (Nat.le_of_succ_le hn) x
      rw [copyRow]
      by_cases hx : x = videoMem + (r * rowBytes + n)
      · have hsrc : videoMem + ((r + 1) * rowBytes + n) = x + rowBytes := by
          rw [hx, Nat.succ_mul]
          omega
        rw [hx, store8_self, ← hx, hsrc, ih, if_neg (by omega), if_pos (by omega)]
      · rw [store8_of_ne hx, ih]
        congr 1
        exact propext (and_congr_right fun _ => by omega)

theorem moveRows_apply (n : Nat) (m : Mem) (x : Nat) : moveRows n m x =
    if videoMem ≤ x ∧ x < videoMem + n * rowBytes then m (x + rowBytes) else m x := by
  induction n generalizing x with
  | zero => rw [moveRows, if_neg (by omega)]
  | succ n ih =>
      have hmul : (n + 1) * rowBytes = n * rowBytes + rowBytes := Nat.succ_mul n rowBytes
      rw [moveRows, copyRow_apply _ _ (Nat.le_refl _)]
      by_cases hx : videoMem + n * rowBytes ≤ x ∧ x < videoMem + (n * rowBytes + rowBytes)
      · rw [if_pos hx, ih, if_neg (by omega), if_pos (by omega)]
      · rw [if_neg hx, ih]
        congr 1
        exact propext (and_congr_right fun _ => by omega)

theorem blankCells_apply (base n : Nat) (m : Mem) (x : Nat) : blankCells base n m x =
    if videoMem + base ≤ x ∧ x < videoMem + base + n * 2 then
      if (x - videoMem - base) % 2 = 0 then 32 else whiteOnBlack
    else m x := by
  induction n generalizing x with
  | zero => rw [blankCells, if_neg (by omega)]
  | succ n ih =>
      rw [blankCells]
      by_cases h₁ : x = videoMem + (base + n * 2 + 1)
      · rw [h₁, store8_self, if_pos (by omega), if_neg (by omega)]
      · rw [store8_of_ne h₁]
        by_cases h₂ : x = videoMem + (base + n * 2)
        · rw [h₂, store8_self, if_pos (by omega), if_pos (by omega)]
        · rw [store8_of_ne h₂, ih]
          congr 1
          exact propext (and_congr_right fun _ => by omega)

/-! ### Cells -/

def cell (m : Mem) (r c : Nat) : UInt8 × UInt8 :=
  (m (videoMem + (r * rowBytes + c * 2)), m (videoMem + (r * rowBytes + c * 2 + 1)))

abbrev blank : UInt8 × UInt8 := (32, whiteOnBlack)

variable {s : Screen} {ch attr : UInt8} {str : List UInt8} {row col : Int}

theorem scrollScreen_apply (s : Screen) (x : Nat) : s.scrollScreen.video x =
    if videoMem ≤ x ∧ x < videoMem + 24 * rowBytes then s.video (x + rowBytes)
    else if videoMem + 24 * rowBytes ≤ x ∧ x < videoMem + videoSize then
      if (x - videoMem) % 2 = 0 then 32 else whiteOnBlack
    else s.video x := by
  simp only [scrollScreen, blankCells_apply, moveRows_apply, rowBytes, videoSize]
  by_cases h₁ : videoMem + 24 * 160 ≤ x ∧ x < videoMem + 4000
  · have h₀ : ¬(videoMem ≤ x ∧ x < videoMem + 24 * 160) := by omega
    have h₂ : videoMem + 24 * 160 ≤ x ∧ x < videoMem + 24 * 160 + 80 * 2 := by omega
    have hmod : (x - videoMem - 24 * 160) % 2 = (x - videoMem) % 2 := by omega
    rw [if_pos h₂, if_neg h₀, if_pos h₁, hmod]
  · have h₂ : ¬(videoMem + 24 * 160 ≤ x ∧ x < videoMem + 24 * 160 + 80 * 2) := by omega
    rw [if_neg h₂, if_neg h₁]

theorem scrollScreen_cell (hr : r < 25) (hc : c < 80) : cell s.scrollScreen.video r c =
    if r + 1 < 25 then cell s.video (r + 1) c else blank := by
  simp only [cell, scrollScreen_apply, rowBytes, videoSize]
  by_cases hlast : r + 1 < 25
  · have h₀ : videoMem + (r * 160 + c * 2) + 160 = videoMem + ((r + 1) * 160 + c * 2) := by omega
    have h₁ : videoMem + (r * 160 + c * 2 + 1) + 160 = videoMem + ((r + 1) * 160 + c * 2 + 1) := by
      omega
    rw [if_pos (by omega), if_pos (by omega), if_pos hlast, h₀, h₁]
  · rw [if_neg (by omega), if_pos (by omega), if_pos (by omega), if_neg (by omega),
      if_pos (by omega), if_neg (by omega), if_neg hlast]

theorem kPrintChar_cell (s : Screen) (ch attr : UInt8) (hr : r < 25) (hc : c < 80) {r' c' : Nat}
    (hc' : c' < 80) :
    cell (s.kPrintChar ch attr r c).video r' c' =
      if r' = r ∧ c' = c then (ch, attr) else cell s.video r' c' := by
  have hoff : ¬(((r : Int) * columns + c) * 2 < 0 ∨
      (videoSize : Int) ≤ ((r : Int) * columns + c) * 2) := by
    simp only [columns, videoSize]
    omega
  have haddr : (((r : Int) * columns + c) * 2).toNat = r * rowBytes + c * 2 := by
    simp only [columns, rowBytes]
    omega
  simp only [kPrintChar, if_neg hoff, haddr, cell, rowBytes]
  by_cases he : r' = r ∧ c' = c
  · obtain ⟨rfl, rfl⟩ := he
    rw [if_pos ⟨rfl, rfl⟩, store8_of_ne (by omega), store8_self, Nat.add_assoc, store8_self]
  · rw [if_neg he, store8_of_ne (by omega), store8_of_ne (by omega), store8_of_ne (by omega),
      store8_of_ne (by omega)]

/-! ### Bytes outside -/

variable (hx : x < videoMem ∨ videoMem + videoSize ≤ x)

include hx

theorem blankCells_outside {base n : Nat} (h : base + n * 2 ≤ videoSize) (m : Mem) :
    blankCells base n m x = m x := by
  rw [blankCells_apply, if_neg (by omega)]

theorem scrollScreen_outside : s.scrollScreen.video x = s.video x := by
  rw [scrollScreen]
  dsimp only
  simp only [videoSize] at hx
  rw [blankCells_outside hx (by decide), moveRows_apply, if_neg]
  simp only [rowBytes]
  omega

theorem clearScreen_outside : s.clearScreen.video x = s.video x :=
  blankCells_outside hx (by decide) s.video

theorem kPrintChar_outside (row col : Int) :
    (s.kPrintChar ch attr row col).video x = s.video x := by
  rw [kPrintChar]
  dsimp only
  split
  · rfl
  · dsimp only
    simp only [columns, videoSize] at *
    rw [store8_of_ne (by omega), store8_of_ne (by omega)]

theorem kPrintString_outside (row col : Int) :
    (s.kPrintString attr str row col).video x = s.video x := by
  induction str generalizing s row col with
  | nil => rfl
  | cons ch str ih =>
      have hput : ∀ (s : Screen) row col, (if 0 ≤ col ∧ col < columns ∧ 0 ≤ row ∧ row < rows then
          s.kPrintChar ch attr row col else s).video x = s.video x := by
        intro s row col
        split
        · exact kPrintChar_outside hx row col
        · rfl
      rw [kPrintString]
      split
      · split
        · rw [ih, scrollScreen_outside hx]
        · exact ih _ _
      · have hscroll : (if rows ≤ row then s.scrollScreen else s).video x = s.video x := by
          split
          · exact scrollScreen_outside hx
          · rfl
        generalize (if rows ≤ row then s.scrollScreen else s) = s₁ at hscroll ⊢
        dsimp only
        generalize (if rows ≤ row then s₁.cursor.row else row) = row₁
        rw [← hscroll, ← hput s₁ row₁ col]
        split
        · split
          · rw [ih, scrollScreen_outside hx]
          · exact ih _ _
        · exact ih _ _

theorem updateCursor_outside : s.updateCursor.video x = s.video x := by
  have hscroll : ∀ s : Screen, (if rows ≤ s.cursor.row then s.scrollScreen else s).video x
      = s.video x := by
    intro s
    split
    · exact scrollScreen_outside hx
    · rfl
  rw [updateCursor]
  have hs := hscroll s
  generalize (if rows ≤ s.cursor.row then s.scrollScreen else s) = s₁ at hs ⊢
  dsimp only [vgaMoveCursor]
  rw [← hs]
  split
  · exact hscroll { s₁ with cursor := ⟨s₁.cursor.row + 1, 0⟩ }
  · rfl

theorem printShellPrompt_outside (currentDir : List UInt8) :
    (s.printShellPrompt currentDir).video x = s.video x := by
  rw [printShellPrompt]
  dsimp only
  rw [updateCursor_outside hx]
  dsimp only
  rw [kPrintString_outside hx]
  dsimp only
  rw [kPrintString_outside hx]
  dsimp only
  rw [kPrintString_outside hx]
  split
  · rw [scrollScreen_outside hx]
  · rfl

omit hx

/-! ### The cursor -/

theorem scrollScreen_row (s : Screen) : (if rows ≤ s.cursor.row then s.scrollScreen else s).cursor
    = ⟨scrolled s.cursor.row, s.cursor.col⟩ := by
  rw [scrolled]
  split <;> rfl

theorem kPrintChar_cursor (ch attr : UInt8) (row col : Int) :
    (s.kPrintChar ch attr row col).cursor = s.cursor := by
  rw [kPrintChar]
  dsimp only
  split <;> rfl

/-- What `k_print_string` does to the cursor: the part of it that the command line knows. -/
theorem kPrintString_cursor (s : Screen) (row col : Int) : (s.kPrintString attr str row col).cursor
    = ⟨Kernel.kPrintString str row col s.cursor.row, s.cursor.col⟩ := by
  induction str generalizing s row col with
  | nil => rfl
  | cons ch str ih =>
      have hput : ∀ (s : Screen) row col, (if 0 ≤ col ∧ col < columns ∧ 0 ≤ row ∧ row < rows then
          s.kPrintChar ch attr row col else s).cursor = s.cursor := by
        intro s row col
        split
        · exact kPrintChar_cursor ..
        · rfl
      rw [kPrintString, Kernel.kPrintString]
      split
      · split
        · exact ih _ _ _
        · exact ih _ _ _
      · have hscroll : (if rows ≤ row then s.scrollScreen else s).cursor
            = ⟨if rows ≤ row then rows - 1 else s.cursor.row, s.cursor.col⟩ := by
          split <;> rfl
        have hrow : (if rows ≤ row then
            (if rows ≤ row then s.scrollScreen else s).cursor.row else row) = scrolled row := by
          rw [scrolled, hscroll]
          split <;> rfl
        dsimp only
        rw [hrow]
        generalize (if rows ≤ row then s.scrollScreen else s) = s₁ at hscroll ⊢
        have hs₂ := (hput s₁ (scrolled row) col).trans hscroll
        generalize (if 0 ≤ col ∧ col < columns ∧ 0 ≤ scrolled row ∧ scrolled row < rows then
          s₁.kPrintChar ch attr (scrolled row) col else s₁) = s₂ at hs₂ ⊢
        split
        · split
          · rw [ih]
            have hcol : s₂.cursor.col = s.cursor.col := by rw [hs₂]
            exact congrArg (Cursor.mk _) hcol
          · rw [ih, hs₂]
        · rw [ih, hs₂]

theorem updateCursor_cursor (s : Screen) :
    s.updateCursor.cursor = Kernel.updateCursor s.cursor := by
  rw [updateCursor, Kernel.updateCursor]
  have hs := scrollScreen_row s
  generalize (if rows ≤ s.cursor.row then s.scrollScreen else s) = s₁ at hs ⊢
  dsimp only [vgaMoveCursor]
  rw [hs]
  dsimp only
  split
  · exact scrollScreen_row { s₁ with cursor := ⟨scrolled s.cursor.row + 1, 0⟩ }
  · exact hs

theorem printShellPrompt_cursor (currentDir : List UInt8) (s : Screen) :
    (s.printShellPrompt currentDir).cursor = Kernel.printShellPrompt currentDir s.cursor := by
  rw [printShellPrompt, Kernel.printShellPrompt]
  dsimp only
  rw [updateCursor_cursor, kPrintString_cursor]
  dsimp only
  rw [kPrintString_cursor]
  dsimp only
  rw [kPrintString_cursor]
  have hs := scrollScreen_row { s with cursor := ⟨s.cursor.row + 1, s.cursor.col⟩ }
  dsimp only at hs
  rw [hs]

theorem vgaMoveCursor_position {r c : Nat} (hr : r < 25) (hc : c < 80) :
    (s.vgaMoveCursor r c).crtc.position = r * 80 + c := by
  have hlo : (((r : Int) * columns + c) % 256).toNat = (r * 80 + c) % 256 := by
    simp only [columns]
    omega
  have hhi : (((r : Int) * columns + c) / 256 % 256).toNat = (r * 80 + c) / 256 := by
    simp only [columns]
    omega
  simp only [vgaMoveCursor, Crtc.position, Crtc.outb, hlo, hhi]
  simp [UInt8.toNat_ofNat']
  omega

theorem updateCursor_position {r c : Nat} (hr : r < 25) (hc : c < 80)
    (hcursor : s.updateCursor.cursor = ⟨r, c⟩) : s.updateCursor.crtc.position = r * 80 + c := by
  rw [updateCursor] at hcursor ⊢
  generalize (if rows ≤ s.cursor.row then s.scrollScreen else s) = s₁ at hcursor ⊢
  dsimp only at hcursor ⊢
  generalize (if columns ≤ s₁.cursor.col then
    if rows ≤ s₁.cursor.row + 1 then
      ({ s₁ with cursor := ⟨s₁.cursor.row + 1, 0⟩ } : Screen).scrollScreen
    else { s₁ with cursor := ⟨s₁.cursor.row + 1, 0⟩ } else s₁) = s₂ at hcursor ⊢
  have hcursor₂ : s₂.cursor = ⟨r, c⟩ := hcursor
  rw [hcursor₂]
  exact vgaMoveCursor_position hr hc

/-- `k_print_string` leaves the cursor in its row, or in the last one. -/
theorem kPrintString_row (str : List UInt8) (row col cursorRow : Int) :
    Kernel.kPrintString str row col cursorRow = cursorRow ∨
      Kernel.kPrintString str row col cursorRow = rows - 1 := by
  induction str generalizing row col cursorRow with
  | nil => exact Or.inl rfl
  | cons ch str ih =>
      have hlast : ∀ row col, Kernel.kPrintString str row col (rows - 1) = rows - 1 :=
        fun row col => (ih row col _).elim id id
      rw [Kernel.kPrintString]
      split
      · split
        · exact Or.inr (hlast _ _)
        · exact ih _ _ _
      · have hscroll : ∀ row' col', Kernel.kPrintString str row' col'
            (if rows ≤ row then rows - 1 else cursorRow) = cursorRow ∨ Kernel.kPrintString str row'
            col' (if rows ≤ row then rows - 1 else cursorRow) = rows - 1 := by
          intro row' col'
          split
          · exact Or.inr (hlast _ _)
          · exact ih _ _ _
        dsimp only
        split
        · split
          · exact Or.inr (hlast _ _)
          · exact hscroll _ _
        · exact hscroll _ _

/-! ### Text on a page -/

/-- The characters of a string, `none` for a newline. -/
def glyphs (attr : UInt8) (str : List UInt8) : List (Option (UInt8 × UInt8)) :=
  str.map fun ch => if ch = 10 then none else some (ch, attr)

/-- The screen shows this page from row `top` on. -/
abbrev Shows (s : Screen) (P : Teletype.Page (UInt8 × UInt8)) (top : Nat) : Prop :=
  Teletype.Shows 25 80 blank (cell s.video) P top

theorem Shows.scroll {P : Teletype.Page (UInt8 × UInt8)} {top : Nat} (h : s.Shows P top) :
    s.scrollScreen.Shows P (top + 1) :=
  Teletype.Shows.scroll h fun _ hr _ hc => scrollScreen_cell hr hc

theorem Shows.kPrintChar {P : Teletype.Page (UInt8 × UInt8)} {top : Nat} (h : s.Shows P top)
    (ch attr : UInt8) (hr : r < 25) (hc : c < 80) :
    (s.kPrintChar ch attr r c).Shows (P.put ⟨top + r, c⟩ (ch, attr)) top :=
  Teletype.Shows.put h hr fun _ _ _ hc' => kPrintChar_cell s ch attr hr hc hc'

/-- **The screen is a window on an endless page.**  A text printed on the screen is a text
written on the page the screen shows, and the window follows the end of the text. -/
theorem kPrintString_shows {P : Teletype.Page (UInt8 × UInt8)} {top : Nat} (h : s.Shows P top)
    (attr : UInt8) (str : List UInt8) (hr : r < 25) (hc : c < 80) :
    (s.kPrintString attr str r c).Shows (Teletype.write 80 (glyphs attr str) P ⟨top + r, c⟩).1
      (max top ((Teletype.write 80 (glyphs attr str) P ⟨top + r, c⟩).2.row - 24)) := by
  induction str generalizing s P top r c with
  | nil =>
      rw [glyphs, List.map_nil, Teletype.write_nil, Nat.max_eq_left (by dsimp only; omega)]
      exact h
  | cons ch str ih =>
      -- the text goes on in the next row, which may have to be scrolled in
      have hnext : ∀ {s : Screen} {P} {top r : Nat}, r < 25 → s.Shows P top →
          (if rows ≤ (r : Int) + 1 then
              s.scrollScreen.kPrintString attr str s.scrollScreen.cursor.row 0
            else s.kPrintString attr str (r + 1) 0).Shows
          (Teletype.write 80 (glyphs attr str) P ⟨top + r + 1, 0⟩).1
          (max top ((Teletype.write 80 (glyphs attr str) P ⟨top + r + 1, 0⟩).2.row - 24)) := by
        intro s P top r hr h
        split
        · obtain rfl : r = 24 := by
            simp only [rows] at *
            omega
          have hrow := Teletype.row_le_write (w := 80) (glyphs attr str) P ⟨top + 24 + 1, 0⟩
          have hscroll := ih h.scroll (r := 24) (c := 0) (by decide) (by decide)
          rw [Nat.add_right_comm] at hscroll
          dsimp only at hrow
          rw [Nat.max_eq_right (by omega)] at hscroll ⊢
          exact hscroll
        · have hrow := ih h (r := r + 1) (c := 0) (by simp only [rows] at *; omega) (by decide)
          rw [← Nat.add_assoc] at hrow
          exact hrow
      rw [kPrintString]
      by_cases hnl : ch = 10
      · rw [if_pos hnl, glyphs, List.map_cons, if_pos hnl]
        exact hnext hr h
      · have hrows : ¬rows ≤ (r : Int) := by
          simp only [rows]
          omega
        have hin : 0 ≤ (c : Int) ∧ (c : Int) < columns ∧ 0 ≤ (r : Int) ∧ (r : Int) < rows := by
          simp only [rows, columns]
          omega
        have hput := h.kPrintChar ch attr hr hc
        simp only [if_neg hnl, if_neg hrows, if_pos hin, glyphs, List.map_cons]
        rw [Teletype.write_some, Teletype.Pos.next]
        by_cases hwrap : columns ≤ (c : Int) + 1
        · have hlast : ¬c + 1 < 80 := by
            simp only [columns] at hwrap
            omega
          rw [if_pos hwrap, if_neg hlast]
          exact hnext hr hput
        · have hlast : c + 1 < 80 := by
            simp only [columns] at hwrap
            omega
          rw [if_neg hwrap, if_pos hlast]
          exact ih hput hr hlast

def blankScreen : Screen :=
  ⟨⟨fun x => if x % 2 = 0 then 32 else whiteOnBlack⟩, ⟨0, 0⟩, ⟨0, fun _ => 0⟩⟩

theorem blankScreen_shows : blankScreen.Shows (fun _ _ => blank) 0 where
  cell_eq := by
    intro r _ c _
    simp only [cell, blankScreen, videoMem, rowBytes]
    rw [if_pos (by omega), if_neg (by omega)]
  fresh := fun _ _ _ _ => rfl

/-- From the last cell of the screen on: the text wraps, and the screen scrolls twice. -/
theorem kPrintString_shows_scroll :
    (blankScreen.kPrintString whiteOnBlack [97, 10, 98] (24 : Nat) (79 : Nat)).Shows
      (Teletype.write 80 (glyphs whiteOnBlack [97, 10, 98]) (fun _ _ => blank) ⟨0 + 24, 79⟩).1
      (max 0 ((Teletype.write 80 (glyphs whiteOnBlack [97, 10, 98]) (fun _ _ => blank)
        ⟨0 + 24, 79⟩).2.row - 24)) :=
  kPrintString_shows blankScreen_shows whiteOnBlack [97, 10, 98] (by decide) (by decide)

/-! ### Text in a row -/

/-- A text that ends before the last column changes the cells it covers. -/
theorem kPrintString_line (attr : UInt8) (str : List UInt8) (hstr : (10 : UInt8) ∉ str)
    (hr : r < 25) (hc : c + str.length < 80) :
    (s.kPrintString attr str r c).cursor = s.cursor ∧
      (∀ k x, str[k]? = some x → cell (s.kPrintString attr str r c).video r (c + k) = (x, attr)) ∧
      ∀ r' c', c' < 80 → (r' = r → c' < c ∨ c + str.length ≤ c') →
        cell (s.kPrintString attr str r c).video r' c' = cell s.video r' c' := by
  induction str generalizing s c with
  | nil => exact ⟨rfl, fun k x hx => absurd hx (by simp), fun _ _ _ _ => rfl⟩
  | cons ch str ih =>
      rw [List.mem_cons, not_or] at hstr
      rw [List.length_cons] at hc
      have hrows : ¬rows ≤ (r : Int) := by
        simp only [rows]
        omega
      have hin : 0 ≤ (c : Int) ∧ (c : Int) < columns ∧ 0 ≤ (r : Int) ∧ (r : Int) < rows := by
        simp only [rows, columns]
        omega
      have hlast : ¬columns ≤ (c : Int) + 1 := by
        simp only [columns]
        omega
      have hstep : s.kPrintString attr (ch :: str) r c
          = (s.kPrintChar ch attr r c).kPrintString attr str r (c + 1 : Nat) := by
        simp only [kPrintString, if_neg (Ne.symm hstr.1), if_neg hrows, if_pos hin, if_neg hlast]
        rfl
      obtain ⟨hcur, htext, hrest⟩ :=
        ih (s := s.kPrintChar ch attr r c) (c := c + 1) hstr.2 (by omega)
      rw [hstep]
      refine ⟨hcur.trans (kPrintChar_cursor ..), ?_, ?_⟩
      · intro k x hx
        cases k with
        | zero =>
            rw [List.getElem?_cons_zero, Option.some.injEq] at hx
            subst hx
            have hfirst := hrest r c (by omega) (by omega)
            rw [kPrintChar_cell _ _ _ hr (by omega) (by omega), if_pos ⟨rfl, rfl⟩] at hfirst
            exact hfirst
        | succ k =>
            rw [List.getElem?_cons_succ] at hx
            rw [← htext k x hx, Nat.add_assoc, Nat.add_comm 1]
      · intro r' c' hc' hout
        rw [List.length_cons] at hout
        rw [hrest r' c' hc' (by omega), kPrintChar_cell _ _ _ hr (by omega) hc', if_neg (by omega)]

/-! ### The prompt -/

def promptText (currentDir : List UInt8) : List UInt8 :=
  [97, 99, 101, 79, 83] ++ (currentDir ++ [62])

/-- The prompt and a character behind it fit in a row. -/
structure PromptFits (currentDir : List UInt8) : Prop where
  noNewline : (10 : UInt8) ∉ currentDir
  length_lt : 6 + currentDir.length < 80

theorem updateCursor_inside {r c : Nat} (hcursor : s.cursor = ⟨r, c⟩) (hr : r < 25) (hc : c < 80) :
    s.updateCursor.cursor = ⟨r, c⟩ ∧ s.updateCursor.video = s.video := by
  have hrow : ¬rows ≤ s.cursor.row := by
    rw [hcursor]
    simp only [rows]
    omega
  have hcol : ¬columns ≤ s.cursor.col := by
    rw [hcursor]
    simp only [columns]
    omega
  rw [updateCursor, if_neg hrow]
  dsimp only
  rw [if_neg hcol]
  exact ⟨hcursor, rfl⟩

theorem printShellPrompt_row (currentDir : List UInt8) (hrow : -1 ≤ s.cursor.row) :
    ∃ r c : Nat, r < 25 ∧ c < 80 ∧ promptColumn currentDir = c ∧
      (s.printShellPrompt currentDir).cursor = ⟨r, c⟩ := by
  have hscrolled : ∀ row : Int, 0 ≤ row → 0 ≤ scrolled row ∧ scrolled row < rows := by
    intro row hr
    rw [scrolled]
    simp only [rows]
    split <;> omega
  have hprint : ∀ (str : List UInt8) row col cursorRow, 0 ≤ cursorRow ∧ cursorRow < rows →
      0 ≤ Kernel.kPrintString str row col cursorRow ∧
        Kernel.kPrintString str row col cursorRow < rows := by
    intro str row col cursorRow h
    rcases kPrintString_row str row col cursorRow with he | he <;> rw [he]
    · exact h
    · exact ⟨by decide, by decide⟩
  have hcolumn := promptColumn_lt currentDir
  have hcol := printShellPrompt_col currentDir s.cursor
  have hcol₀ : 0 ≤ promptColumn currentDir := by
    rw [promptColumn]
    split <;> omega
  have hin : 0 ≤ (Kernel.printShellPrompt currentDir s.cursor).row ∧
      (Kernel.printShellPrompt currentDir s.cursor).row < rows := by
    have h₀ := hscrolled (s.cursor.row + 1) (by omega)
    rw [Kernel.printShellPrompt]
    generalize scrolled (s.cursor.row + 1) = row₀ at h₀ ⊢
    have h₁ := hprint [97, 99, 101, 79, 83] row₀ 0 row₀ h₀
    generalize Kernel.kPrintString [97, 99, 101, 79, 83] row₀ 0 row₀ = row₁ at h₁ ⊢
    have h₂ := hprint currentDir row₁ 5 row₁ h₁
    generalize Kernel.kPrintString currentDir row₁ 5 row₁ = row₂ at h₂ ⊢
    have h₃ := hprint [62] row₂ (5 + currentDir.length) row₂ h₂
    generalize Kernel.kPrintString [62] row₂ (5 + currentDir.length) row₂ = row₃ at h₃ ⊢
    have h₄ := hscrolled row₃ h₃.1
    rw [Kernel.updateCursor]
    dsimp only
    split
    · exact hscrolled _ (by omega)
    · exact h₄
  rw [printShellPrompt_cursor]
  refine ⟨(Kernel.printShellPrompt currentDir s.cursor).row.toNat, (promptColumn currentDir).toNat,
    ?_, ?_, ?_, ?_⟩
  · simp only [rows] at hin
    omega
  · simp only [columns] at hcolumn
    omega
  · omega
  · rw [← hcol] at hcol₀ ⊢
    rw [Int.toNat_of_nonneg hin.1, Int.toNat_of_nonneg hcol₀]

/-- Where the prompt fits, it is put into one row, scrolled in if need be; the others stay. -/
theorem printShellPrompt_line {currentDir : List UInt8} (hrow : -1 ≤ s.cursor.row)
    (hfits : PromptFits currentDir) : ∃ r : Nat, r < 25 ∧ scrolled (s.cursor.row + 1) = r ∧
      (s.printShellPrompt currentDir).cursor.row = r ∧
      (∀ k ch, (promptText currentDir)[k]? = some ch →
        cell (s.printShellPrompt currentDir).video r k = (ch, whiteOnBlack)) ∧
      ∀ r' c', c' < 80 → r' ≠ r → cell (s.printShellPrompt currentDir).video r' c'
        = cell (if rows ≤ s.cursor.row + 1 then s.scrollScreen else s).video r' c' := by
  have hlen := hfits.length_lt
  rw [printShellPrompt]
  have hscroll := scrollScreen_row { s with cursor := ⟨s.cursor.row + 1, s.cursor.col⟩ }
  have hvideo₁ : (if rows ≤ s.cursor.row + 1 then s.scrollScreen else s).video
      = (if rows ≤ s.cursor.row + 1 then
          ({ s with cursor := ⟨s.cursor.row + 1, s.cursor.col⟩ } : Screen).scrollScreen
        else { s with cursor := ⟨s.cursor.row + 1, s.cursor.col⟩ }).video := by
    split <;> rfl
  rw [hvideo₁]
  dsimp only at hscroll ⊢
  generalize (if rows ≤ s.cursor.row + 1 then
      ({ s with cursor := ⟨s.cursor.row + 1, s.cursor.col⟩ } : Screen).scrollScreen
    else { s with cursor := ⟨s.cursor.row + 1, s.cursor.col⟩ }) = s₁ at hscroll ⊢
  obtain ⟨r₀, hr₀, hlt⟩ : ∃ r₀ : Nat, s₁.cursor.row = r₀ ∧ r₀ < 25 := by
    have hscrolled : 0 ≤ s₁.cursor.row ∧ s₁.cursor.row < 25 := by
      rw [hscroll, scrolled]
      simp only [rows]
      split <;> omega
    exact ⟨s₁.cursor.row.toNat, by omega, by omega⟩
  refine ⟨r₀, hlt, by rw [← hr₀, hscroll], ?_⟩
  -- the three texts, one behind the other
  obtain ⟨hcur₁, htext₁, hrest₁⟩ := kPrintString_line (s := s₁) (r := r₀) (c := 0) whiteOnBlack
    [97, 99, 101, 79, 83] (by decide) hlt (by decide)
  rw [Int.natCast_zero] at hcur₁ htext₁ hrest₁
  rw [hr₀]
  generalize s₁.kPrintString whiteOnBlack [97, 99, 101, 79, 83] r₀ 0 = s₂ at hcur₁ htext₁ hrest₁ ⊢
  rw [hcur₁, hr₀]
  obtain ⟨hcur₂, htext₂, hrest₂⟩ := kPrintString_line (s := { s₂ with cursor := ⟨r₀, 5⟩ }) (r := r₀)
    (c := 5) whiteOnBlack currentDir hfits.noNewline hlt (by omega)
  have h5 : ((5 : Nat) : Int) = 5 := rfl
  rw [h5] at hcur₂ htext₂ hrest₂
  generalize ({ s₂ with cursor := ⟨r₀, 5⟩ } : Screen).kPrintString whiteOnBlack currentDir r₀ 5 = s₃
    at hcur₂ htext₂ hrest₂ ⊢
  have hcol : (5 : Int) + (currentDir.length : Int) = (5 + currentDir.length : Nat) := by omega
  rw [hcur₂, hcol]
  obtain ⟨hcur₃, htext₃, hrest₃⟩ := kPrintString_line
    (s := { s₃ with cursor := ⟨r₀, (5 + currentDir.length : Nat)⟩ }) (r := r₀)
    (c := 5 + currentDir.length) whiteOnBlack [62] (by decide) hlt
    (by rw [List.length_singleton]; omega)
  generalize ({ s₃ with cursor := ⟨r₀, (5 + currentDir.length : Nat)⟩ } : Screen).kPrintString
    whiteOnBlack [62] r₀ (5 + currentDir.length : Nat) = s₄ at hcur₃ htext₃ hrest₃ ⊢
  rw [hcur₃]
  obtain ⟨hcur₅, hvideo⟩ := updateCursor_inside
    (s := { s₄ with cursor := ⟨r₀, (5 + currentDir.length + 1 : Nat)⟩ }) rfl hlt (by omega)
  have hcell : ∀ r' c', cell (({ s₄ with
      cursor := ⟨r₀, (5 + currentDir.length : Nat) + 1⟩ } : Screen).updateCursor).video r' c'
        = cell s₄.video r' c' := fun r' c' => congrArg (fun m => cell m r' c') hvideo
  refine ⟨congrArg Cursor.row hcur₅, ?_, ?_⟩
  · intro k ch hk
    rw [hcell]
    rw [promptText] at hk
    by_cases h₁ : k < 5
    · rw [List.getElem?_append_left h₁] at hk
      rw [hrest₃ r₀ k (by omega) fun _ => Or.inl (by omega)]
      refine (hrest₂ r₀ k (by omega) fun _ => Or.inl h₁).trans ?_
      have hfirst := htext₁ k ch hk
      rwa [Nat.zero_add] at hfirst
    · obtain ⟨j, rfl⟩ := Nat.exists_eq_add_of_le (Nat.not_lt.mp h₁)
      rw [List.getElem?_append_right (Nat.le_add_right 5 j)] at hk
      change (currentDir ++ [62])[5 + j - 5]? = some ch at hk
      rw [Nat.add_sub_cancel_left] at hk
      by_cases h₂ : j < currentDir.length
      · rw [List.getElem?_append_left h₂] at hk
        rw [hrest₃ r₀ (5 + j) (by omega) fun _ => Or.inl (by omega)]
        exact htext₂ j ch hk
      · rw [List.getElem?_append_right (Nat.not_lt.mp h₂)] at hk
        have hj : j - currentDir.length = 0 := by
          have hlt₃ := (List.getElem?_eq_some_iff.mp hk).1
          rw [List.length_singleton] at hlt₃
          omega
        obtain rfl : j = currentDir.length := by omega
        rw [hj] at hk
        exact htext₃ 0 ch hk
  · intro r' c' hc' hne
    rw [hcell, hrest₃ r' c' hc' fun he => absurd he hne]
    refine (hrest₂ r' c' hc' fun he => absurd he hne).trans ?_
    exact hrest₁ r' c' hc' fun he => absurd he hne

theorem printShellPrompt_text {currentDir : List UInt8} (hrow : -1 ≤ s.cursor.row)
    (hfits : PromptFits currentDir) (hr : (s.printShellPrompt currentDir).cursor.row = r) {k : Nat}
    (hk : (promptText currentDir)[k]? = some ch) :
    cell (s.printShellPrompt currentDir).video r k = (ch, whiteOnBlack) := by
  obtain ⟨r₀, -, -, hrow₀, htext, -⟩ := printShellPrompt_line hrow hfits
  obtain rfl : r₀ = r := Int.ofNat.inj (hrow₀.symm.trans hr)
  exact htext k ch hk

end Screen

end AceOS.Kernel
