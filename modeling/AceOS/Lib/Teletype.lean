import Mathlib.Tactic.Common

/-!
# A window on an endless page

A teletype writes on a page that has a first row but no last one.  A screen of `h` rows
shows the page from some row `top` on, and nothing has been written below (`Shows`).
Putting a character into a cell of the screen is putting it on the page (`Shows.put`), and
moving all rows up by one is looking one row further down (`Shows.scroll`).
-/

namespace Teletype

universe u

abbrev Page (α : Type u) := Nat → Nat → α

structure Pos where
  row : Nat
  col : Nat
  deriving DecidableEq, Repr

variable {α : Type u} {w h top r c : Nat} {blank x : α} {cell cell' : Nat → Nat → α} {P : Page α}

/-! ### Writing -/

/-- The page with `x` in one place. -/
def Page.put (P : Page α) (p : Pos) (x : α) : Page α :=
  fun r c => if r = p.row ∧ c = p.col then x else P r c

def Pos.newline (p : Pos) : Pos := ⟨p.row + 1, 0⟩

/-- The place after this one, rows being `w` wide. -/
def Pos.next (w : Nat) (p : Pos) : Pos :=
  if p.col + 1 < w then ⟨p.row, p.col + 1⟩ else p.newline

/-- Write a text, `none` being the end of a line. -/
def write (w : Nat) : List (Option α) → Page α → Pos → Page α × Pos
  | [], P, p => (P, p)
  | none :: text, P, p => write w text P p.newline
  | some x :: text, P, p => write w text (P.put p x) (p.next w)

@[simp] theorem write_nil (P : Page α) (p : Pos) : write w [] P p = (P, p) := rfl

@[simp] theorem write_none (text : List (Option α)) (P : Page α) (p : Pos) :
    write w (none :: text) P p = write w text P p.newline := rfl

@[simp] theorem write_some (x : α) (text : List (Option α)) (P : Page α) (p : Pos) :
    write w (some x :: text) P p = write w text (P.put p x) (p.next w) := rfl

theorem Pos.row_le_next (w : Nat) (p : Pos) : p.row ≤ (p.next w).row := by
  rw [Pos.next]
  split
  · exact Nat.le_refl _
  · exact Nat.le_succ _

theorem row_le_write (text : List (Option α)) (P : Page α) (p : Pos) :
    p.row ≤ (write w text P p).2.row := by
  induction text generalizing P p with
  | nil => exact Nat.le_refl _
  | cons x text ih =>
      cases x with
      | none => exact Nat.le_trans (Nat.le_succ _) (ih P p.newline)
      | some x => exact Nat.le_trans (p.row_le_next w) (ih (P.put p x) (p.next w))

/-! ### The window -/

/-- The screen shows the rows of the page from `top` on, and below them the page is blank. -/
structure Shows (h w : Nat) (blank : α) (cell : Nat → Nat → α) (P : Page α) (top : Nat) :
    Prop where
  cell_eq : ∀ r < h, ∀ c < w, cell r c = P (top + r) c
  fresh : ∀ r, top + h ≤ r → ∀ c < w, P r c = blank

theorem Shows.put (hs : Shows h w blank cell P top) (hr : r < h)
    (hcell : ∀ r' < h, ∀ c' < w, cell' r' c' = if r' = r ∧ c' = c then x else cell r' c') :
    Shows h w blank cell' (P.put ⟨top + r, c⟩ x) top where
  cell_eq := by
    intro r' hr' c' hc'
    rw [hcell r' hr' c' hc', Page.put, hs.cell_eq r' hr' c' hc']
    simp only [Nat.add_left_cancel_iff]
  fresh := by
    intro r' hr' c' hc'
    rw [Page.put, if_neg fun he => by dsimp only at he; omega]
    exact hs.fresh r' hr' c' hc'

theorem Shows.scroll (hs : Shows h w blank cell P top)
    (hcell : ∀ r < h, ∀ c < w, cell' r c = if r + 1 < h then cell (r + 1) c else blank) :
    Shows h w blank cell' P (top + 1) where
  cell_eq := by
    intro r hr c hc
    rw [hcell r hr c hc]
    split
    · rename_i hlt
      rw [hs.cell_eq (r + 1) hlt c hc, Nat.add_assoc, Nat.add_comm 1]
    · exact (hs.fresh (top + 1 + r) (by omega) c hc).symm
  fresh := fun r hr c hc => hs.fresh r (by omega) c hc

end Teletype
