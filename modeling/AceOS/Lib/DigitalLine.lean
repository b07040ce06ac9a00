import Mathlib.Algebra.Order.Field.Basic
import Mathlib.Data.Rat.Cast.Order
import Mathlib.Tactic.FieldSimp
import Mathlib.Tactic.Ring
import Mathlib.Tactic.Linarith
import Mathlib.Tactic.Common

/-!
# Digital lines

A line from the origin to `(a, b)` is drawn by steps of one pixel, and an error term decides
which coordinates advance.  The rule is symmetric in the two directions (`walk_swap`), so that
one octant settles them all: in the longer direction every step advances (`Near.advances`), and
the shorter coordinate stays within half a pixel of the line (`Near.step`).  The walk is at
`(a, b)` after `max a b` steps and not before (`walk_tracks`, `Tracks.ne_last`).
-/

namespace DigitalLine

/-- The error term at a point of a line to `(a, b)`. -/
def error (a b : ℤ) (p : ℤ × ℤ) : ℤ := (p.2 + 1) * a - (p.1 + 1) * b

def step (a b : ℤ) (p : ℤ × ℤ) : ℤ × ℤ :=
  (if -b < 2 * error a b p then p.1 + 1 else p.1, if 2 * error a b p < a then p.2 + 1 else p.2)

def walk (a b : ℤ) : ℕ → ℤ × ℤ
  | 0 => (0, 0)
  | n + 1 => step a b (walk a b n)

variable {a b : ℤ} {p : ℤ × ℤ}

/-! ### Symmetry -/

theorem error_swap (a b : ℤ) (p : ℤ × ℤ) : error b a p.swap = -error a b p := by
  rw [error, error, Prod.fst_swap, Prod.snd_swap]
  ring

theorem step_swap (a b : ℤ) (p : ℤ × ℤ) : step b a p.swap = (step a b p).swap := by
  have hfst : -a < 2 * -error a b p ↔ 2 * error a b p < a := by omega
  have hsnd : 2 * -error a b p < b ↔ -b < 2 * error a b p := by omega
  simp only [step, error_swap, Prod.fst_swap, Prod.snd_swap, Prod.swap_prod_mk, hfst, hsnd]

theorem walk_swap (a b : ℤ) (n : ℕ) : walk b a n = (walk a b n).swap := by
  induction n with
  | zero => rfl
  | succ n ih => rw [walk, ih, step_swap, walk]

theorem step_fst (a b : ℤ) (p : ℤ × ℤ) :
    (step a b p).1 = p.1 + 1 ∨ (step a b p).1 = p.1 := by
  by_cases h : -b < 2 * error a b p
  · exact Or.inl (if_pos h)
  · exact Or.inr (if_neg h)

theorem step_snd (a b : ℤ) (p : ℤ × ℤ) :
    (step a b p).2 = p.2 + 1 ∨ (step a b p).2 = p.2 := by
  by_cases h : 2 * error a b p < a
  · exact Or.inl (if_pos h)
  · exact Or.inr (if_neg h)

/-! ### One octant -/

/-- The second coordinate is within half a pixel of the line, and exact on a diagonal. -/
structure Near (a b : ℤ) (p : ℤ × ℤ) : Prop where
  low : -a ≤ 2 * (p.2 * a - p.1 * b)
  high : 2 * (p.2 * a - p.1 * b) ≤ a
  diagonal : a = b → p.1 = p.2

theorem error_eq (a b : ℤ) (p : ℤ × ℤ) : error a b p = p.2 * a - p.1 * b + a - b := by
  rw [error]
  ring

/-- **Every step advances in the longer direction.** -/
theorem Near.advances (ha : 0 < a) (hba : b ≤ a) (h : Near a b p) : -b < 2 * error a b p := by
  rw [error_eq]
  by_cases hdiag : a = b
  · have hzero : p.2 * a - p.1 * b = 0 := by
      rw [h.diagonal hdiag, hdiag, Int.sub_self]
    omega
  · have hlow := h.low
    omega

/-- **One step** keeps within half a pixel. -/
theorem Near.step (ha : 0 < a) (hb : 0 ≤ b) (hba : b ≤ a) (h : Near a b p) :
    (step a b p).1 = p.1 + 1 ∧ Near a b (step a b p) := by
  have hadvances := h.advances ha hba
  have hlow := h.low
  have hhigh := h.high
  have hfst : (p.1 + 1) * b = p.1 * b + b := by ring
  have hsnd : (p.2 + 1) * a = p.2 * a + a := by ring
  have herr := error_eq a b p
  rw [DigitalLine.step, if_pos hadvances]
  refine ⟨rfl, ?_⟩
  by_cases hup : 2 * error a b p < a
  · rw [if_pos hup]
    refine ⟨?_, ?_, fun hdiag => ?_⟩
    · show -a ≤ 2 * ((p.2 + 1) * a - (p.1 + 1) * b)
      omega
    · show 2 * ((p.2 + 1) * a - (p.1 + 1) * b) ≤ a
      omega
    · show p.1 + 1 = p.2 + 1
      rw [h.diagonal hdiag]
  · rw [if_neg hup]
    refine ⟨?_, ?_, fun hdiag => ?_⟩
    · show -a ≤ 2 * (p.2 * a - (p.1 + 1) * b)
      omega
    · show 2 * (p.2 * a - (p.1 + 1) * b) ≤ a
      omega
    · -- on a diagonal the second coordinate always advances
      have hzero : p.2 * a - p.1 * b = 0 := by
        rw [h.diagonal hdiag, hdiag, Int.sub_self]
      omega

theorem walk_near (hb : 0 ≤ b) (hba : b ≤ a) {n : ℕ} (hn : n ≤ a) :
    (walk a b n).1 = n ∧ Near a b (walk a b n) := by
  induction n with
  | zero =>
      have hzero : 0 * a - 0 * b = 0 := by ring
      refine ⟨rfl, ?_, ?_, fun _ => rfl⟩
      · show -a ≤ 2 * (0 * a - 0 * b)
        omega
      · show 2 * (0 * a - 0 * b) ≤ a
        omega
  | succ n ih =>
      rw [Nat.cast_succ] at hn
      obtain ⟨hfst, hnear⟩ := ih (by omega)
      obtain ⟨hadv, hstep⟩ := hnear.step (by omega) hb hba
      exact ⟨by rw [walk, hadv, hfst, Nat.cast_succ], hstep⟩

/-- The second coordinate stays between 0 and `b`. -/
theorem Near.bounds (hb : 0 ≤ b) (hba : b ≤ a) (h : Near a b p) (h₀ : 0 ≤ p.1) (h₁ : p.1 ≤ a) :
    0 ≤ p.2 ∧ p.2 ≤ b := by
  have hlow := h.low
  have hhigh := h.high
  have hprod : 0 ≤ p.1 * b := Int.mul_nonneg h₀ hb
  have hprod' : p.1 * b ≤ a * b := Int.mul_le_mul_of_nonneg_right h₁ hb
  rcases Int.lt_or_eq_of_le (Int.le_trans hb hba) with ha | ha
  · constructor
    · by_contra hneg
      have hle : p.2 * a ≤ -1 * a := Int.mul_le_mul_of_nonneg_right (by omega) (by omega)
      omega
    · by_contra hgt
      have hle : (b + 1) * a ≤ p.2 * a := Int.mul_le_mul_of_nonneg_right (by omega) (by omega)
      have hexp : (b + 1) * a = a * b + a := by ring
      omega
  · have hdiag := h.diagonal (by omega)
    omega

/-- The end of the line is met exactly. -/
theorem Near.eq_of_fst_eq (hb : 0 ≤ b) (hba : b ≤ a) (h : Near a b p) (ha : p.1 = a) : p.2 = b := by
  have hlow := h.low
  rw [ha] at hlow
  obtain ⟨-, hle⟩ := h.bounds hb hba (by omega) (by omega)
  by_contra hne
  have hmul : p.2 * a ≤ (b - 1) * a := Int.mul_le_mul_of_nonneg_right (by omega) (by omega)
  have hexp : (b - 1) * a = a * b - a := by ring
  have hpos : 0 < a := by
    by_contra h0
    have hdiag := h.diagonal (by omega)
    omega
  omega

/-! ### Both directions -/

/-- What holds of the `n`-th point of the walk. -/
structure Tracks (a b : ℤ) (n : ℕ) (p : ℤ × ℤ) : Prop where
  fst_nonneg : 0 ≤ p.1
  fst_le : p.1 ≤ a
  snd_nonneg : 0 ≤ p.2
  snd_le : p.2 ≤ b
  low : -max a b ≤ 2 * (p.2 * a - p.1 * b)
  high : 2 * (p.2 * a - p.1 * b) ≤ max a b
  fst_eq : b ≤ a → p.1 = n
  snd_eq : a ≤ b → p.2 = n
  last : n = max a b → p = (a, b)

theorem Near.tracks (hb : 0 ≤ b) (hba : b ≤ a) {n : ℕ} (hn : n ≤ a) (hfst : p.1 = n)
    (h : Near a b p) : Tracks a b n p := by
  have hlow := h.low
  have hhigh := h.high
  obtain ⟨hsnd, hsnd'⟩ := h.bounds hb hba (by omega) (by omega)
  refine ⟨by omega, by omega, hsnd, hsnd', by omega, by omega, fun _ => hfst, fun hab => ?_,
    fun hlast => ?_⟩
  · have hdiag := h.diagonal (by omega)
    omega
  · rw [max_eq_left hba] at hlast
    exact Prod.ext (hfst.trans hlast) (h.eq_of_fst_eq hb hba (hfst.trans hlast))

theorem Tracks.swap {n : ℕ} (h : Tracks a b n p) : Tracks b a n p.swap := by
  have hlow := h.low
  have hhigh := h.high
  refine ⟨h.snd_nonneg, h.snd_le, h.fst_nonneg, h.fst_le, ?_, ?_, h.snd_eq, h.fst_eq,
    fun hlast => ?_⟩
  · show -max b a ≤ 2 * (p.1 * b - p.2 * a)
    omega
  · show 2 * (p.1 * b - p.2 * a) ≤ max b a
    omega
  · rw [h.last (hlast.trans (max_comm b a)), Prod.swap_prod_mk]

/-- **The walk follows the line** in every octant. -/
theorem walk_tracks (ha : 0 ≤ a) (hb : 0 ≤ b) {n : ℕ} (hn : n ≤ max a b) :
    Tracks a b n (walk a b n) := by
  rcases Int.le_total b a with hba | hab
  · rw [max_eq_left hba] at hn
    obtain ⟨hfst, hnear⟩ := walk_near hb hba hn
    exact hnear.tracks hb hba hn hfst
  · rw [max_eq_right hab] at hn
    obtain ⟨hfst, hnear⟩ := walk_near ha hab hn
    rw [walk_swap b a]
    exact (hnear.tracks ha hab hn hfst).swap

theorem Tracks.ne_last {n : ℕ} (h : Tracks a b n p) (hn : n < max a b) : p ≠ (a, b) := by
  rintro rfl
  have hfst := h.fst_eq
  have hsnd := h.snd_eq
  omega

theorem Tracks.error_bounds (ha : 0 ≤ a) (hb : 0 ≤ b) {n : ℕ} (h : Tracks a b n p) :
    -(3 * max a b) ≤ 2 * error a b p ∧ 2 * error a b p ≤ 3 * max a b := by
  have hlow := h.low
  have hhigh := h.high
  rw [error_eq]
  constructor <;> omega

/-! ### The ideal line -/

/-- Half a pixel, in both coordinates' own directions. -/
theorem Tracks.abs_sub_le {n : ℕ} (hb : 0 ≤ b) (hba : b ≤ a) (h : Tracks a b n p) {s t : ℤ}
    (hs : s = 1 ∨ s = -1) (ht : t = 1 ∨ t = -1) :
    |(t * p.2 : ℚ) - s * p.1 * (t * b / (s * a))| ≤ 1 / 2 := by
  have hsign : |(t * p.2 : ℚ) - s * p.1 * (t * b / (s * a))| = |p.2 - p.1 * (b / a : ℚ)| := by
    have hs' : (s : ℚ) ≠ 0 := by rcases hs with rfl | rfl <;> norm_num
    have ht' : |(t : ℚ)| = 1 := by rcases ht with rfl | rfl <;> norm_num
    have hratio : (s * p.1 * (t * b / (s * a)) : ℚ) = t * (p.1 * (b / a)) := by
      rw [mul_div_mul_comm]
      field_simp
    rw [hratio, ← mul_sub, abs_mul, ht', one_mul]
  rw [hsign]
  rcases Int.lt_or_eq_of_le (Int.le_trans hb hba) with ha | ha
  · have hlow := h.low
    have hhigh := h.high
    rw [max_eq_left hba] at hlow hhigh
    have ha' : (0 : ℚ) < a := Int.cast_pos.mpr ha
    have hlow' : (-a : ℚ) ≤ 2 * (p.2 * a - p.1 * b) := by exact_mod_cast hlow
    have hhigh' : (2 * (p.2 * a - p.1 * b) : ℚ) ≤ a := by exact_mod_cast hhigh
    have hdiv : (p.2 - p.1 * (b / a) : ℚ) = (p.2 * a - p.1 * b) / a := by
      field_simp
    rw [hdiv, abs_le, le_div_iff₀ ha', div_le_iff₀ ha']
    constructor <;> linarith
  · -- the line is a point
    have hsnd := h.snd_nonneg
    have hsnd' := h.snd_le
    have hzero : p.2 = 0 := by omega
    rw [hzero, ← ha]
    norm_num

end DigitalLine
