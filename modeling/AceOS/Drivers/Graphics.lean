import Mathlib.Analysis.Real.Sqrt
import Mathlib.Data.List.Range
import AceOS.Lib.Memory
import AceOS.Lib.Signed
import AceOS.Lib.DigitalLine

/-!
# Drawing (`src/drivers/graphics.c`)

Lines and circles are drawn by integer loops over 32-bit words, whose visits are part of their
results here.  The line loop ends only when it meets the end point exactly; it is a digital line
walked in the directions of the signs (`LineState.step`), so it does.  The decision variable of
the circle is the distance of a midpoint from it, and is exact in every round (`CircleState.step`).
-/

namespace AceOS.Drivers

open Memory DigitalLine

/-! ### Pixels -/

def vgaWidth : Int32 := 320

def vgaHeight : Int32 := 200

def vgaMemory : Nat := 0xA0000

def graphicsPutPixel (x y : Int32) (color : UInt8) (m : Mem) : Mem :=
  if 0 ≤ x ∧ x < vgaWidth ∧ 0 ≤ y ∧ y < vgaHeight then
    let offset := y * vgaWidth + x
    store8 m (vgaMemory + offset.toInt.toNat) color
  else m

def putPixels (color : UInt8) (points : List (Int32 × Int32)) (m : Mem) : Mem :=
  points.foldl (fun m p => graphicsPutPixel p.1 p.2 color m) m

theorem pixel_offset {x y : Int32} (h : 0 ≤ x ∧ x < vgaWidth ∧ 0 ≤ y ∧ y < vgaHeight) :
    (y * vgaWidth + x).toInt = y.toInt * 320 + x.toInt ∧
      0 ≤ y.toInt * 320 + x.toInt ∧ y.toInt * 320 + x.toInt < 64000 := by
  have hwidth : vgaWidth.toInt = 320 := rfl
  have hheight : vgaHeight.toInt = 200 := rfl
  have hzero : (0 : Int32).toInt = 0 := rfl
  rw [Int32.le_iff_toInt_le, Int32.lt_iff_toInt_lt, Int32.le_iff_toInt_le, Int32.lt_iff_toInt_lt,
    hwidth, hheight, hzero] at h
  have hmul : (y * vgaWidth).toInt = y.toInt * 320 := by
    rw [Signed.toInt_mul_of, hwidth] <;> rw [hwidth] <;> omega
  refine ⟨?_, by omega, by omega⟩
  rw [Signed.toInt_add_of, hmul] <;> rw [hmul] <;> omega

theorem graphicsPutPixel_outside {a : Nat} (h : a < vgaMemory ∨ vgaMemory + 64000 ≤ a)
    (x y : Int32) (color : UInt8) (m : Mem) : graphicsPutPixel x y color m a = m a := by
  rw [graphicsPutPixel]
  split
  · rename_i hin
    obtain ⟨hoffset, hlow, hhigh⟩ := pixel_offset hin
    exact store8_of_ne (by omega)
  · rfl

/-- **Drawing stays in the frame buffer**, wherever the points are. -/
theorem putPixels_outside {a : Nat} (h : a < vgaMemory ∨ vgaMemory + 64000 ≤ a) (color : UInt8)
    (points : List (Int32 × Int32)) (m : Mem) : putPixels color points m a = m a := by
  induction points generalizing m with
  | nil => rfl
  | cons p points ih =>
      rw [putPixels, List.foldl_cons]
      exact (ih _).trans (graphicsPutPixel_outside h p.1 p.2 color m)

/-! ### `graphics_draw_line` -/

/-- The loop behind the pixel: `x`, `y` and `err` of the next round. -/
def lineRound (absDx absDy sx sy x y err : Int32) : Int32 × Int32 × Int32 :=
  let e2 := 2 * err
  let (err, x) := if -absDy < e2 then (err - absDy, x + sx) else (err, x)
  let (err, y) := if e2 < absDx then (err + absDx, y + sy) else (err, y)
  (x, y, err)

/-- `while (1)`: the points visited and the memory. -/
def graphicsDrawLineLoop (x2 y2 absDx absDy sx sy : Int32) (color : UInt8) :
    (fuel : Nat) → (x y err : Int32) → Mem → Option (List (Int32 × Int32) × Mem)
  | 0, _, _, _, _ => none
  | fuel + 1, x, y, err, m =>
      let m := graphicsPutPixel x y color m
      if x = x2 ∧ y = y2 then some ([(x, y)], m)
      else do
        let (x', y', err) := lineRound absDx absDy sx sy x y err
        let (points, m) ← graphicsDrawLineLoop x2 y2 absDx absDy sx sy color fuel x' y' err m
        some ((x, y) :: points, m)

def graphicsDrawLine (fuel : Nat) (x1 y1 x2 y2 : Int32) (color : UInt8) (m : Mem) :
    Option (List (Int32 × Int32) × Mem) :=
  let dx := x2 - x1
  let dy := y2 - y1
  let absDx := if dx < 0 then -dx else dx
  let absDy := if dy < 0 then -dy else dy
  let sx : Int32 := if 0 < dx then 1 else -1
  let sy : Int32 := if 0 < dy then 1 else -1
  graphicsDrawLineLoop x2 y2 absDx absDy sx sy color fuel x1 y1 (absDx - absDy) m

/-! ### One direction of a line -/

/-- The words of one direction: from `c1` to `c2` by steps of `s`, `absD` pixels apart. -/
structure Leg (c1 c2 s absD : Int32) : Prop where
  start_le : |c1.toInt| ≤ 2 ^ 28
  end_le : |c2.toInt| ≤ 2 ^ 28
  sign : s.toInt = 1 ∨ s.toInt = -1
  nonneg : 0 ≤ absD.toInt
  end_eq : c2.toInt = c1.toInt + s.toInt * absD.toInt

variable {c1 c2 c s absD : Int32}

theorem leg_of (h1 : |c1.toInt| ≤ 2 ^ 28) (h2 : |c2.toInt| ≤ 2 ^ 28) :
    Leg c1 c2 (if 0 < c2 - c1 then 1 else -1) (if c2 - c1 < 0 then -(c2 - c1) else c2 - c1) := by
  have h1' := abs_le.mp h1
  have h2' := abs_le.mp h2
  have hsub : (c2 - c1).toInt = c2.toInt - c1.toInt := Signed.toInt_sub_of (by omega) (by omega)
  have hneg : (-(c2 - c1)).toInt = -(c2.toInt - c1.toInt) := by
    rw [Signed.toInt_neg_of (by omega), hsub]
  have hlt : c2 - c1 < 0 ↔ c2.toInt - c1.toInt < 0 := by
    rw [Int32.lt_iff_toInt_lt, hsub]
    rfl
  have hgt : 0 < c2 - c1 ↔ 0 < c2.toInt - c1.toInt := by
    rw [Int32.lt_iff_toInt_lt, hsub]
    rfl
  have hone : (1 : Int32).toInt = 1 := rfl
  have hminus : (-1 : Int32).toInt = -1 := rfl
  rcases Int.lt_trichotomy (c2.toInt - c1.toInt) 0 with hd | hd | hd
  · rw [if_neg (mt hgt.mp (by omega)), if_pos (hlt.mpr hd)]
    exact ⟨h1, h2, Or.inr hminus, by omega, by rw [hminus, hneg]; omega⟩
  · rw [if_neg (mt hgt.mp (by omega)), if_neg (mt hlt.mp (by omega))]
    exact ⟨h1, h2, Or.inr hminus, by omega, by rw [hminus, hsub]; omega⟩
  · rw [if_pos (hgt.mpr hd), if_neg (mt hlt.mp (by omega))]
    exact ⟨h1, h2, Or.inl hone, by omega, by rw [hone, hsub]; omega⟩

theorem Leg.distance (h : Leg c1 c2 s absD) : |c2.toInt - c1.toInt| = absD.toInt := by
  have hnonneg := h.nonneg
  rw [h.end_eq, add_sub_cancel_left, abs_mul, abs_of_nonneg hnonneg]
  rcases h.sign with hs | hs <;> rw [hs] <;> simp

theorem Leg.distance_le (h : Leg c1 c2 s absD) : absD.toInt ≤ 2 ^ 29 := by
  have hstart := abs_le.mp h.start_le
  have hend := abs_le.mp h.end_le
  have heq := h.end_eq
  rcases h.sign with hs | hs <;> rw [hs] at heq <;> omega

theorem Leg.advance (h : Leg c1 c2 s absD) {k : ℤ} (hk : 0 ≤ k) (hk' : k ≤ absD.toInt)
    (hc : c.toInt = c1.toInt + s.toInt * k) : (c + s).toInt = c1.toInt + s.toInt * (k + 1) := by
  have hstart := abs_le.mp h.start_le
  have hend := abs_le.mp h.end_le
  have heq := h.end_eq
  rcases h.sign with hs | hs <;> rw [hs] at heq hc ⊢ <;>
    rw [Signed.toInt_add_of] <;> omega

/-! ### The line as a walk -/

section Line

variable {x1 y1 x2 y2 absDx absDy sx sy : Int32}

/-- The words of the loop at a point of the walk. -/
structure LineState (x1 y1 absDx absDy sx sy : Int32) (p : ℤ × ℤ) (x y err : Int32) : Prop where
  x_eq : x.toInt = x1.toInt + sx.toInt * p.1
  y_eq : y.toInt = y1.toInt + sy.toInt * p.2
  err_eq : err.toInt = error absDx.toInt absDy.toInt p

variable {p : ℤ × ℤ} {x y err : Int32} {n : ℕ}

theorem LineState.init (hx : Leg x1 x2 sx absDx) (hy : Leg y1 y2 sy absDy) :
    LineState x1 y1 absDx absDy sx sy (0, 0) x1 y1 (absDx - absDy) := by
  have hdx := hx.distance_le
  have hdy := hy.distance_le
  have hdx' := hx.nonneg
  have hdy' := hy.nonneg
  refine ⟨by simp, by simp, ?_⟩
  rw [Signed.toInt_sub_of (by omega) (by omega), error_eq]
  simp

theorem LineState.eq_end_iff (hx : Leg x1 x2 sx absDx) (hy : Leg y1 y2 sy absDy)
    (h : LineState x1 y1 absDx absDy sx sy p x y err) :
    x = x2 ∧ y = y2 ↔ p = (absDx.toInt, absDy.toInt) := by
  have hfst := h.x_eq
  have hsnd := h.y_eq
  rw [← Int32.toInt_inj, ← Int32.toInt_inj, hx.end_eq, hy.end_eq, hfst, hsnd, Prod.ext_iff]
  rcases hx.sign with hs | hs <;> rcases hy.sign with ht | ht <;> rw [hs, ht] <;> omega

theorem LineState.compare_iff (hx : Leg x1 x2 sx absDx) (hy : Leg y1 y2 sy absDy)
    (ht : Tracks absDx.toInt absDy.toInt n p) (h : LineState x1 y1 absDx absDy sx sy p x y err) :
    (-absDy < 2 * err ↔ -absDy.toInt < 2 * error absDx.toInt absDy.toInt p) ∧
      (2 * err < absDx ↔ 2 * error absDx.toInt absDy.toInt p < absDx.toInt) := by
  have hdx := hx.distance_le
  have hdy := hy.distance_le
  have hdy' := hy.nonneg
  obtain ⟨hlow, hhigh⟩ := ht.error_bounds hx.nonneg hdy'
  have herr := h.err_eq
  have htwo : (2 : Int32).toInt = 2 := rfl
  have he2 : (2 * err).toInt = 2 * error absDx.toInt absDy.toInt p := by
    rw [Signed.toInt_mul_of, htwo, herr] <;> rw [htwo, herr] <;> omega
  constructor
  · rw [Int32.lt_iff_toInt_lt, Signed.toInt_neg_of (by omega), he2]
  · rw [Int32.lt_iff_toInt_lt, he2]

/-- **One round of the loop** is one step of the walk. -/
theorem LineState.step (hx : Leg x1 x2 sx absDx) (hy : Leg y1 y2 sy absDy)
    (ht : Tracks absDx.toInt absDy.toInt n p) (h : LineState x1 y1 absDx absDy sx sy p x y err) :
    LineState x1 y1 absDx absDy sx sy (DigitalLine.step absDx.toInt absDy.toInt p)
      (lineRound absDx absDy sx sy x y err).1 (lineRound absDx absDy sx sy x y err).2.1
      (lineRound absDx absDy sx sy x y err).2.2 := by
  have hdx := hx.nonneg
  have hdy := hy.nonneg
  have hdx' := hx.distance_le
  have hdy' := hy.distance_le
  obtain ⟨hlow, hhigh⟩ := ht.error_bounds hdx hdy
  obtain ⟨hmoveX, hmoveY⟩ := h.compare_iff hx hy ht
  have herr := h.err_eq
  have hX := hx.advance ht.fst_nonneg ht.fst_le h.x_eq
  have hY := hy.advance ht.snd_nonneg ht.snd_le h.y_eq
  have hsub : (err - absDy).toInt = error absDx.toInt absDy.toInt p - absDy.toInt := by
    rw [Signed.toInt_sub_of, herr] <;> rw [herr] <;> omega
  have hadd : ∀ e : Int32, -2 ^ 30 ≤ e.toInt → e.toInt < 2 ^ 30 →
      (e + absDx).toInt = e.toInt + absDx.toInt := by
    intro e he he'
    exact Signed.toInt_add_of (by omega) (by omega)
  simp only [lineRound, DigitalLine.step, hmoveX, hmoveY]
  by_cases hmx : -absDy.toInt < 2 * error absDx.toInt absDy.toInt p
  · by_cases hmy : 2 * error absDx.toInt absDy.toInt p < absDx.toInt
    · simp only [if_pos hmx, if_pos hmy]
      refine ⟨hX, hY, ?_⟩
      rw [hadd _ (by omega) (by omega), hsub, error_eq, error_eq]
      ring
    · simp only [if_pos hmx, if_neg hmy]
      refine ⟨hX, h.y_eq, ?_⟩
      rw [hsub, error_eq, error_eq]
      ring
  · by_cases hmy : 2 * error absDx.toInt absDy.toInt p < absDx.toInt
    · simp only [if_neg hmx, if_pos hmy]
      refine ⟨h.x_eq, hY, ?_⟩
      rw [hadd _ (by omega) (by omega), herr, error_eq, error_eq]
      ring
    · simp only [if_neg hmx, if_neg hmy]
      exact ⟨h.x_eq, h.y_eq, herr⟩

def coordinates (p : Int32 × Int32) : ℤ × ℤ := (p.1.toInt, p.2.toInt)

def linePoint (x1 y1 sx sy : Int32) (p : ℤ × ℤ) : ℤ × ℤ :=
  (x1.toInt + sx.toInt * p.1, y1.toInt + sy.toInt * p.2)

/-- **The loop visits the rest of the walk**, `k` steps, and stops at the end point. -/
theorem graphicsDrawLineLoop_eq (hx : Leg x1 x2 sx absDx) (hy : Leg y1 y2 sy absDy)
    (color : UInt8) {k : ℕ} (hn : ((n + k : ℕ) : ℤ) = max absDx.toInt absDy.toInt)
    (h : LineState x1 y1 absDx absDy sx sy (walk absDx.toInt absDy.toInt n) x y err) :
    ∃ rest, (∀ fuel m, k < fuel →
        graphicsDrawLineLoop x2 y2 absDx absDy sx sy color fuel x y err m
          = some ((x, y) :: rest, putPixels color ((x, y) :: rest) m)) ∧
      ((x, y) :: rest).map coordinates
        = (List.range' n (k + 1)).map (linePoint x1 y1 sx sy ∘ walk absDx.toInt absDy.toInt) ∧
      ((x, y) :: rest).getLast? = some (x2, y2) := by
  induction k generalizing n x y err with
  | zero =>
      have htracks := walk_tracks hx.nonneg hy.nonneg (Int.le_of_eq hn)
      obtain ⟨hxe, hye⟩ := (h.eq_end_iff hx hy).mpr (htracks.last hn)
      refine ⟨[], fun fuel m hfuel => ?_, ?_, ?_⟩
      · obtain ⟨fuel, rfl⟩ := Nat.exists_eq_add_one_of_ne_zero (Nat.ne_of_gt hfuel)
        rw [graphicsDrawLineLoop, if_pos ⟨hxe, hye⟩]
        rfl
      · exact congrArg (fun q => [q]) (Prod.ext h.x_eq h.y_eq)
      · rw [hxe, hye]
        rfl
  | succ k ih =>
      have hlt : (n : ℤ) < max absDx.toInt absDy.toInt := by omega
      have htracks := walk_tracks hx.nonneg hy.nonneg (Int.le_of_lt hlt)
      have hne := mt (h.eq_end_iff hx hy).mp (htracks.ne_last hlt)
      have hnext := h.step hx hy htracks
      generalize hround : lineRound absDx absDy sx sy x y err = next at hnext
      obtain ⟨x', y', err'⟩ := next
      have hn' : ((n + 1 + k : ℕ) : ℤ) = max absDx.toInt absDy.toInt := by omega
      obtain ⟨rest, hrun, hmap, hlast⟩ := ih hn' hnext
      refine ⟨(x', y') :: rest, fun fuel m hfuel => ?_, ?_, ?_⟩
      · obtain ⟨fuel, rfl⟩ := Nat.exists_eq_add_one_of_ne_zero (Nat.ne_zero_of_lt hfuel)
        rw [graphicsDrawLineLoop, if_neg hne, hround]
        dsimp only
        rw [hrun fuel _ (Nat.lt_of_succ_lt_succ hfuel)]
        rfl
      · rw [List.range'_succ]
        exact congrArg₂ List.cons (Prod.ext h.x_eq h.y_eq) hmap
      · rw [List.getLast?_cons_cons]
        exact hlast

/-! ### The result -/

/-- One pixel apart, and exactly one in the longer direction of `(dx, dy)`. -/
def Adjacent (dx dy : ℤ) (p q : ℤ × ℤ) : Prop :=
  |q.1 - p.1| ≤ 1 ∧ |q.2 - p.2| ≤ 1 ∧
    (|dy| ≤ |dx| → |q.1 - p.1| = 1) ∧ (|dx| ≤ |dy| → |q.2 - p.2| = 1)

/-- Within half a pixel of the line from `p1` to `p2`, along its shorter direction. -/
def NearLine (p1 p2 p : ℤ × ℤ) : Prop :=
  (|p2.2 - p1.2| ≤ |p2.1 - p1.1| →
    |(p.2 : ℚ) - (p1.2 + (p.1 - p1.1) * ((p2.2 - p1.2) / (p2.1 - p1.1)))| ≤ 1 / 2) ∧
  (|p2.1 - p1.1| ≤ |p2.2 - p1.2| →
    |(p.1 : ℚ) - (p1.1 + (p.2 - p1.2) * ((p2.1 - p1.1) / (p2.2 - p1.2)))| ≤ 1 / 2)

theorem adjacent_linePoint (hx : Leg x1 x2 sx absDx) (hy : Leg y1 y2 sy absDy)
    (hn : ((n + 1 : ℕ) : ℤ) ≤ max absDx.toInt absDy.toInt) :
    Adjacent (x2.toInt - x1.toInt) (y2.toInt - y1.toInt)
      (linePoint x1 y1 sx sy (walk absDx.toInt absDy.toInt n))
      (linePoint x1 y1 sx sy (walk absDx.toInt absDy.toInt (n + 1))) := by
  have hat := walk_tracks hx.nonneg hy.nonneg (show (n : ℤ) ≤ max absDx.toInt absDy.toInt by omega)
  have hnext := walk_tracks hx.nonneg hy.nonneg hn
  have hfst := step_fst absDx.toInt absDy.toInt (walk absDx.toInt absDy.toInt n)
  have hsnd := step_snd absDx.toInt absDy.toInt (walk absDx.toInt absDy.toInt n)
  have habs : ∀ c s k l : ℤ, s = 1 ∨ s = -1 → |c + s * l - (c + s * k)| = |l - k| := by
    intro c s k l hs
    rw [add_sub_add_left_eq_sub, ← mul_sub, abs_mul]
    rcases hs with rfl | rfl <;> simp
  rw [Adjacent, hx.distance, hy.distance, linePoint, linePoint]
  dsimp only
  rw [habs _ _ _ _ hx.sign, habs _ _ _ _ hy.sign]
  refine ⟨?_, ?_, fun hle => ?_, fun hle => ?_⟩
  · rw [walk]
    rcases hfst with hstep | hstep <;> rw [hstep] <;> simp
  · rw [walk]
    rcases hsnd with hstep | hstep <;> rw [hstep] <;> simp
  · rw [hat.fst_eq hle, hnext.fst_eq hle]
    simp
  · rw [hat.snd_eq hle, hnext.snd_eq hle]
    simp

theorem nearLine_linePoint (hx : Leg x1 x2 sx absDx) (hy : Leg y1 y2 sy absDy)
    (h : Tracks absDx.toInt absDy.toInt n p) :
    NearLine (x1.toInt, y1.toInt) (x2.toInt, y2.toInt) (linePoint x1 y1 sx sy p) := by
  rw [NearLine, linePoint]
  dsimp only
  rw [hx.distance, hy.distance, hx.end_eq, hy.end_eq]
  push_cast
  simp only [add_sub_cancel_left, add_sub_add_left_eq_sub]
  exact ⟨fun hle => h.abs_sub_le hy.nonneg hle hx.sign hy.sign,
    fun hle => h.swap.abs_sub_le hx.nonneg hle hy.sign hx.sign⟩

end Line

/-- **A line is drawn from end to end**: one pixel for each step in the longer direction, the
first and the last at the ends, each adjacent to the one before and near the ideal line. -/
theorem graphicsDrawLine_points {x1 y1 x2 y2 : Int32} (hx1 : |x1.toInt| ≤ 2 ^ 28)
    (hy1 : |y1.toInt| ≤ 2 ^ 28) (hx2 : |x2.toInt| ≤ 2 ^ 28) (hy2 : |y2.toInt| ≤ 2 ^ 28)
    (color : UInt8) :
    ∃ points, (∀ fuel m, points.length ≤ fuel →
        graphicsDrawLine fuel x1 y1 x2 y2 color m = some (points, putPixels color points m)) ∧
      (points.length : ℤ)
        = max |x2.toInt - x1.toInt| |y2.toInt - y1.toInt| + 1 ∧
      points.head? = some (x1, y1) ∧ points.getLast? = some (x2, y2) ∧
      (points.map coordinates).IsChain
        (Adjacent (x2.toInt - x1.toInt) (y2.toInt - y1.toInt)) ∧
      ∀ p ∈ points, NearLine (x1.toInt, y1.toInt) (x2.toInt, y2.toInt) (coordinates p) := by
  have hx := leg_of hx1 hx2
  have hy := leg_of hy1 hy2
  set absDx := if x2 - x1 < 0 then -(x2 - x1) else x2 - x1 with hdx
  set absDy := if y2 - y1 < 0 then -(y2 - y1) else y2 - y1 with hdy
  set N := (max absDx.toInt absDy.toInt).toNat with hN
  have hnonneg : 0 ≤ max absDx.toInt absDy.toInt := le_max_of_le_left hx.nonneg
  have hsteps : ((0 + N : ℕ) : ℤ) = max absDx.toInt absDy.toInt := by omega
  obtain ⟨rest, hrun, hmap, hlast⟩ :=
    graphicsDrawLineLoop_eq hx hy color hsteps (LineState.init hx hy)
  have hlen : ((x1, y1) :: rest).length = N + 1 := by
    have h := congrArg List.length hmap
    rwa [List.length_map, List.length_map, List.length_range'] at h
  rw [← List.range_eq_range'] at hmap
  refine ⟨(x1, y1) :: rest, fun fuel m hfuel => ?_, ?_, rfl, hlast, ?_, fun p hp => ?_⟩
  · exact hrun fuel m (by omega)
  · rw [hlen, hx.distance, hy.distance]
    omega
  · rw [hmap, List.isChain_map, List.isChain_range_succ]
    intro n hn
    exact adjacent_linePoint hx hy (by omega)
  · have hmem : coordinates p ∈ ((x1, y1) :: rest).map coordinates := List.mem_map_of_mem hp
    rw [hmap, List.mem_map] at hmem
    obtain ⟨n, hn, heq⟩ := hmem
    rw [List.mem_range] at hn
    have hnear := nearLine_linePoint hx hy
      (walk_tracks hx.nonneg hy.nonneg (show (n : ℤ) ≤ max absDx.toInt absDy.toInt by omega))
    exact heq ▸ hnear

theorem graphicsDrawLine_steep :
    ∃ points, (∀ fuel m, points.length ≤ fuel →
        graphicsDrawLine fuel 0 0 2 (-5) 15 m = some (points, putPixels 15 points m)) ∧
      (points.length : ℤ) = max |(2 : Int32).toInt - (0 : Int32).toInt|
        |(-5 : Int32).toInt - (0 : Int32).toInt| + 1 ∧
      points.head? = some (0, 0) ∧ points.getLast? = some (2, -5) ∧
      (points.map coordinates).IsChain
        (Adjacent ((2 : Int32).toInt - (0 : Int32).toInt)
          ((-5 : Int32).toInt - (0 : Int32).toInt)) ∧
      ∀ p ∈ points, NearLine ((0 : Int32).toInt, (0 : Int32).toInt)
        ((2 : Int32).toInt, (-5 : Int32).toInt) (coordinates p) :=
  graphicsDrawLine_points (by decide) (by decide) (by decide) (by decide) 15

/-! ### `graphics_draw_circle` -/

/-- The eight points of a round, in the order they are drawn. -/
def circlePoints (cx cy : Int32) (p : Int32 × Int32) : List (Int32 × Int32) :=
  let (x, y) := p
  [(cx + x, cy + y), (cx + x, cy - y), (cx - x, cy + y), (cx - x, cy - y),
    (cx + y, cy + x), (cx + y, cy - x), (cx - y, cy + x), (cx - y, cy - x)]

/-- `d` and `y` of the next round. -/
def circleRound (x y d : Int32) : Int32 × Int32 :=
  if d < 0 then (d + 2 * x + 3, y) else (d + 2 * (x - y) + 5, y - 1)

/-- `while (x <= y)`: `x` and `y` of the rounds and the memory. -/
def graphicsDrawCircleLoop (cx cy : Int32) (color : UInt8) :
    (fuel : Nat) → (x y d : Int32) → Mem → Option (List (Int32 × Int32) × Mem)
  | 0, _, _, _, _ => none
  | fuel + 1, x, y, d, m =>
      if x ≤ y then do
        let m := putPixels color (circlePoints cx cy (x, y)) m
        let (d, y') := circleRound x y d
        let (rounds, m) ← graphicsDrawCircleLoop cx cy color fuel (x + 1) y' d m
        some ((x, y) :: rounds, m)
      else some ([], m)

def graphicsDrawCircle (fuel : Nat) (cx cy radius : Int32) (color : UInt8) (m : Mem) :
    Option (List (Int32 × Int32) × Mem) :=
  graphicsDrawCircleLoop cx cy color fuel 0 radius (1 - radius) m

/-- In column `x`, row `y` is the nearest to the circle of radius `r`. -/
def NearestRow (r x y : ℤ) : Prop :=
  -y ≤ x ^ 2 + y ^ 2 - r ^ 2 ∧ x ^ 2 + y ^ 2 - r ^ 2 < y

/-- An offset on the nearest-pixel circle: its longer side is nearest to the circle. -/
def NearCircle (r u v : ℤ) : Prop := NearestRow r (min |u| |v|) (max |u| |v|)

/-- The nearest row is the height of the circle, rounded. -/
theorem NearestRow.abs_sqrt_sub_lt {r x y : ℤ} (h : NearestRow r x y) :
    |Real.sqrt ((r : ℝ) ^ 2 - (x : ℝ) ^ 2) - y| < 1 / 2 := by
  obtain ⟨hlow, hhigh⟩ := h
  have hpos : 1 ≤ y := by omega
  have hpos' : (1 : ℝ) ≤ y := by exact_mod_cast hpos
  have hlow' : (r ^ 2 - x ^ 2 : ℝ) ≤ y ^ 2 + y := by
    have hint : r ^ 2 - x ^ 2 ≤ y ^ 2 + y := by omega
    exact_mod_cast hint
  have hhigh' : (y ^ 2 - y + 1 : ℝ) ≤ r ^ 2 - x ^ 2 := by
    have hint : y ^ 2 - y + 1 ≤ r ^ 2 - x ^ 2 := by omega
    exact_mod_cast hint
  have hupper : Real.sqrt ((r : ℝ) ^ 2 - (x : ℝ) ^ 2) < y + 1 / 2 := by
    rw [Real.sqrt_lt' (by linarith)]
    linarith only [hlow', show ((y : ℝ) + 1 / 2) ^ 2 = y ^ 2 + y + 1 / 4 by ring]
  have hlower : (y : ℝ) - 1 / 2 < Real.sqrt ((r : ℝ) ^ 2 - (x : ℝ) ^ 2) := by
    rw [Real.lt_sqrt (by linarith)]
    linarith only [hhigh', show ((y : ℝ) - 1 / 2) ^ 2 = y ^ 2 - y + 1 / 4 by ring]
  rw [abs_lt]
  constructor <;> linarith

section Circle

variable {r x y d : Int32}

/-- What holds where a round is drawn: `d` is ahead by half a pixel. -/
structure CircleState (r x y d : Int32) : Prop where
  x_nonneg : 0 ≤ x.toInt
  y_le : y.toInt ≤ r.toInt
  d_eq : d.toInt = (x.toInt + 1) ^ 2 + y.toInt ^ 2 - y.toInt - r.toInt ^ 2
  nearest : x.toInt ≤ y.toInt → NearestRow r.toInt x.toInt y.toInt

theorem CircleState.init (hr : 1 ≤ r.toInt) : CircleState r 0 r (1 - r) := by
  have hlt := r.toInt_lt
  have hzero : (0 : Int32).toInt = 0 := rfl
  have hone : (1 : Int32).toInt = 1 := rfl
  refine ⟨Int.le_refl 0, Int.le_refl _, ?_, fun _ => ?_⟩
  · rw [Signed.toInt_sub_of, hone, hzero]
    · ring
    · omega
    · omega
  · rw [NearestRow, hzero]
    constructor <;> omega

theorem CircleState.d_bounds (h : CircleState r x y d) (hle : x.toInt ≤ y.toInt) :
    d.toInt = x.toInt ^ 2 + y.toInt ^ 2 - r.toInt ^ 2 + 2 * x.toInt + 1 - y.toInt ∧
      -(2 * y.toInt) ≤ d.toInt ∧ d.toInt ≤ 2 * x.toInt := by
  obtain ⟨hlow, hhigh⟩ := h.nearest hle
  have hnonneg := h.x_nonneg
  have heq := h.d_eq
  have hsq : (x.toInt + 1) ^ 2 = x.toInt ^ 2 + 2 * x.toInt + 1 := by ring
  omega

theorem CircleState.step_of_neg (hr : r.toInt ≤ 2 ^ 28) (h : CircleState r x y d)
    (hle : x.toInt ≤ y.toInt) (hx' : (x + 1).toInt = x.toInt + 1) (hneg : d.toInt < 0) :
    CircleState r (x + 1) y (d + 2 * x + 3) := by
  obtain ⟨hd, hdlow, hdhigh⟩ := h.d_bounds hle
  obtain ⟨hlow, hhigh⟩ := h.nearest hle
  have hx := h.x_nonneg
  have hy := h.y_le
  have htwo : (2 : Int32).toInt = 2 := rfl
  have hthree : (3 : Int32).toInt = 3 := rfl
  have hmul : (2 * x).toInt = 2 * x.toInt := by
    rw [Signed.toInt_mul_of, htwo] <;> rw [htwo] <;> omega
  have hadd : (d + 2 * x).toInt = d.toInt + 2 * x.toInt := by
    rw [Signed.toInt_add_of, hmul] <;> rw [hmul] <;> omega
  have hnext : (d + 2 * x + 3).toInt = d.toInt + 2 * x.toInt + 3 := by
    rw [Signed.toInt_add_of, hadd, hthree] <;> rw [hadd, hthree] <;> omega
  have hsq : (x.toInt + 1) ^ 2 = x.toInt ^ 2 + 2 * x.toInt + 1 := by ring
  refine ⟨by omega, hy, ?_, fun _ => ?_⟩
  · rw [hnext, hx', hd]
    ring
  · rw [NearestRow, hx', hsq]
    constructor <;> omega

/-- Where the midpoint is outside, the next point is a row further in. -/
theorem CircleState.step_of_nonneg (hr : r.toInt ≤ 2 ^ 28) (h : CircleState r x y d)
    (hle : x.toInt ≤ y.toInt) (hx' : (x + 1).toInt = x.toInt + 1) (hneg : ¬d.toInt < 0) :
    (y - 1).toInt = y.toInt - 1 ∧ CircleState r (x + 1) (y - 1) (d + 2 * (x - y) + 5) := by
  obtain ⟨hd, hdlow, hdhigh⟩ := h.d_bounds hle
  obtain ⟨hlow, hhigh⟩ := h.nearest hle
  have hx := h.x_nonneg
  have hy := h.y_le
  have hone : (1 : Int32).toInt = 1 := rfl
  have htwo : (2 : Int32).toInt = 2 := rfl
  have hfive : (5 : Int32).toInt = 5 := rfl
  have hsub : (x - y).toInt = x.toInt - y.toInt := Signed.toInt_sub_of (by omega) (by omega)
  have hmul : (2 * (x - y)).toInt = 2 * (x.toInt - y.toInt) := by
    rw [Signed.toInt_mul_of, hsub, htwo] <;> rw [hsub, htwo] <;> omega
  have hadd : (d + 2 * (x - y)).toInt = d.toInt + 2 * (x.toInt - y.toInt) := by
    rw [Signed.toInt_add_of, hmul] <;> rw [hmul] <;> omega
  have hnext : (d + 2 * (x - y) + 5).toInt = d.toInt + 2 * (x.toInt - y.toInt) + 5 := by
    rw [Signed.toInt_add_of, hadd, hfive] <;> rw [hadd, hfive] <;> omega
  have hy' : (y - 1).toInt = y.toInt - 1 := Signed.toInt_sub_of (by omega) (by omega)
  have hsq : (x.toInt + 1) ^ 2 = x.toInt ^ 2 + 2 * x.toInt + 1 := by ring
  have hysq : (y.toInt - 1) ^ 2 = y.toInt ^ 2 - 2 * y.toInt + 1 := by ring
  refine ⟨hy', by omega, by omega, ?_, fun hle' => ?_⟩
  · rw [hnext, hx', hy', hd]
    ring
  · -- the next round is two columns from the diagonal, so the new row is not too far out
    rw [hx', hy'] at hle' ⊢
    rw [NearestRow, hsq, hysq]
    constructor <;> omega

/-- **One round** moves to the next column, and down where the point would be outside. -/
theorem CircleState.step (hr : r.toInt ≤ 2 ^ 28) (h : CircleState r x y d)
    (hle : x.toInt ≤ y.toInt) :
    (x + 1).toInt = x.toInt + 1 ∧
      CircleState r (x + 1) (circleRound x y d).2 (circleRound x y d).1 ∧
      (circleRound x y d).2.toInt ≤ y.toInt := by
  have hy := h.y_le
  have hx := h.x_nonneg
  have hone : (1 : Int32).toInt = 1 := rfl
  have hx' : (x + 1).toInt = x.toInt + 1 := Signed.toInt_add_of (by omega) (by omega)
  have hlt : d < 0 ↔ d.toInt < 0 := Int32.lt_iff_toInt_lt
  refine ⟨hx', ?_⟩
  by_cases hneg : d.toInt < 0
  · rw [circleRound, if_pos (hlt.mpr hneg)]
    exact ⟨h.step_of_neg hr hle hx' hneg, Int.le_refl _⟩
  · obtain ⟨hy', hnext⟩ := h.step_of_nonneg hr hle hx' hneg
    rw [circleRound, if_neg (mt hlt.mp hneg)]
    exact ⟨hnext, show (y - 1).toInt ≤ y.toInt by omega⟩

theorem graphicsDrawCircleLoop_done (hlt : y.toInt < x.toInt) (cx cy : Int32) (color : UInt8)
    {fuel : ℕ} (hfuel : 0 < fuel) (m : Mem) :
    graphicsDrawCircleLoop cx cy color fuel x y d m = some ([], m) := by
  obtain ⟨fuel, rfl⟩ := Nat.exists_eq_add_one_of_ne_zero (Nat.ne_of_gt hfuel)
  rw [graphicsDrawCircleLoop, if_neg (mt Int32.le_iff_toInt_le.mp (Int.not_le.mpr hlt))]

/-- **The rounds of the loop** go through the columns from `x` on. -/
theorem graphicsDrawCircleLoop_eq (hr : r.toInt ≤ 2 ^ 28) (cx cy : Int32) (color : UInt8) {k : ℕ}
    (hk : y.toInt < x.toInt + k) (h : CircleState r x y d) :
    ∃ rounds, (∀ fuel m, rounds.length < fuel →
        graphicsDrawCircleLoop cx cy color fuel x y d m
          = some (rounds, putPixels color (rounds.flatMap (circlePoints cx cy)) m)) ∧
      ∀ i (hi : i < rounds.length), rounds[i].1.toInt = x.toInt + i ∧
        rounds[i].1.toInt ≤ rounds[i].2.toInt ∧
        ∃ d, CircleState r rounds[i].1 rounds[i].2 d := by
  induction k generalizing x y d with
  | zero =>
      have hlt : y.toInt < x.toInt := by omega
      exact ⟨[], fun fuel m hfuel => graphicsDrawCircleLoop_done hlt cx cy color hfuel m,
        fun i hi => absurd hi (Nat.not_lt_zero i)⟩
  | succ k ih =>
      by_cases hle : x.toInt ≤ y.toInt
      · obtain ⟨hx', hnext, hy'⟩ := h.step hr hle
        obtain ⟨rounds, hrun, hrounds⟩ := ih (by omega) hnext
        refine ⟨(x, y) :: rounds, fun fuel m hfuel => ?_, fun i hi => ?_⟩
        · obtain ⟨fuel, rfl⟩ := Nat.exists_eq_add_one_of_ne_zero (Nat.ne_zero_of_lt hfuel)
          rw [graphicsDrawCircleLoop, if_pos (Int32.le_iff_toInt_le.mpr hle)]
          dsimp only
          rw [hrun fuel _ (Nat.lt_of_succ_lt_succ hfuel), List.flatMap_cons, putPixels, putPixels,
            putPixels, List.foldl_append]
          rfl
        · cases i with
          | zero => exact ⟨(Int.add_zero _).symm, hle, d, h⟩
          | succ i =>
              obtain ⟨hcol, hrow⟩ := hrounds i (Nat.lt_of_succ_lt_succ hi)
              rw [hx'] at hcol
              exact ⟨hcol.trans (by rw [Nat.cast_succ]; omega), hrow⟩
      · have hlt : y.toInt < x.toInt := Int.not_le.mp hle
        exact ⟨[], fun fuel m hfuel => graphicsDrawCircleLoop_done hlt cx cy color hfuel m,
          fun i hi => absurd hi (Nat.not_lt_zero i)⟩

theorem CircleState.circlePoints_near (h : CircleState r x y d) (hle : x.toInt ≤ y.toInt)
    (cx cy : Int32) : ∀ q ∈ circlePoints cx cy (x, y),
      ∃ u v : Int32, q = (cx + u, cy + v) ∧ NearCircle r.toInt u.toInt v.toInt := by
  have hx := h.x_nonneg
  have hy := h.y_le
  have hnx : (-x).toInt = -x.toInt := Signed.toInt_neg_of (by omega)
  have hny : (-y).toInt = -y.toInt := Signed.toInt_neg_of (by omega)
  have hnear : ∀ u v : Int32, |u.toInt| = x.toInt ∧ |v.toInt| = y.toInt ∨
      |u.toInt| = y.toInt ∧ |v.toInt| = x.toInt → NearCircle r.toInt u.toInt v.toInt := by
    intro u v huv
    rw [NearCircle]
    rcases huv with ⟨hu, hv⟩ | ⟨hu, hv⟩
    · rw [hu, hv, min_eq_left hle, max_eq_right hle]
      exact h.nearest hle
    · rw [hu, hv, min_eq_right hle, max_eq_left hle]
      exact h.nearest hle
  have habs : |x.toInt| = x.toInt := abs_of_nonneg hx
  have habs' : |y.toInt| = y.toInt := abs_of_nonneg (Int.le_trans hx hle)
  have hneg : |(-x).toInt| = x.toInt := by rw [hnx, abs_neg, habs]
  have hneg' : |(-y).toInt| = y.toInt := by rw [hny, abs_neg, habs']
  simp only [circlePoints, List.forall_mem_cons, Int32.sub_eq_add_neg]
  refine ⟨⟨x, y, rfl, hnear _ _ (Or.inl ⟨habs, habs'⟩)⟩,
    ⟨x, -y, rfl, hnear _ _ (Or.inl ⟨habs, hneg'⟩)⟩, ⟨-x, y, rfl, hnear _ _ (Or.inl ⟨hneg, habs'⟩)⟩,
    ⟨-x, -y, rfl, hnear _ _ (Or.inl ⟨hneg, hneg'⟩)⟩, ⟨y, x, rfl, hnear _ _ (Or.inr ⟨habs', habs⟩)⟩,
    ⟨y, -x, rfl, hnear _ _ (Or.inr ⟨habs', hneg⟩)⟩, ⟨-y, x, rfl, hnear _ _ (Or.inr ⟨hneg', habs⟩)⟩,
    ⟨-y, -x, rfl, hnear _ _ (Or.inr ⟨hneg', hneg⟩)⟩, fun q hq => absurd hq List.not_mem_nil⟩

end Circle

/-- **The outline is the nearest-pixel circle**: the rounds are the columns from 0 on, in each the
row is the nearest to the circle, and so are the eight points drawn. -/
theorem graphicsDrawCircle_near {r : Int32} (hr : 1 ≤ r.toInt) (hr' : r.toInt ≤ 2 ^ 28)
    (cx cy : Int32) (color : UInt8) :
    ∃ rounds, (∀ fuel m, rounds.length < fuel →
        graphicsDrawCircle fuel cx cy r color m
          = some (rounds, putPixels color (rounds.flatMap (circlePoints cx cy)) m)) ∧
      ∀ i (hi : i < rounds.length), rounds[i].1.toInt = i ∧
        0 ≤ rounds[i].1.toInt ∧ rounds[i].1.toInt ≤ rounds[i].2.toInt ∧
        rounds[i].2.toInt ≤ r.toInt ∧
        NearestRow r.toInt rounds[i].1.toInt rounds[i].2.toInt ∧
        |Real.sqrt ((r.toInt : ℝ) ^ 2 - (rounds[i].1.toInt : ℝ) ^ 2) - rounds[i].2.toInt| < 1 / 2 ∧
        ∀ q ∈ circlePoints cx cy rounds[i],
          ∃ u v : Int32, q = (cx + u, cy + v) ∧ NearCircle r.toInt u.toInt v.toInt := by
  have hk : r.toInt < (0 : Int32).toInt + (r.toInt.toNat + 1 : ℕ) := by
    have hzero : (0 : Int32).toInt = 0 := rfl
    omega
  obtain ⟨rounds, hrun, hrounds⟩ :=
    graphicsDrawCircleLoop_eq hr' cx cy color hk (CircleState.init hr)
  refine ⟨rounds, hrun, fun i hi => ?_⟩
  obtain ⟨hcol, hle, d, hstate⟩ := hrounds i hi
  have hnearest := hstate.nearest hle
  exact ⟨hcol.trans (Int.zero_add _), hstate.x_nonneg, hle, hstate.y_le, hnearest,
    hnearest.abs_sqrt_sub_lt, hstate.circlePoints_near hle cx cy⟩

theorem graphicsDrawCircle_three :
    ∃ rounds, (∀ fuel m, rounds.length < fuel →
        graphicsDrawCircle fuel 10 10 3 15 m
          = some (rounds, putPixels 15 (rounds.flatMap (circlePoints 10 10)) m)) ∧
      ∀ i (hi : i < rounds.length), rounds[i].1.toInt = i ∧
        0 ≤ rounds[i].1.toInt ∧ rounds[i].1.toInt ≤ rounds[i].2.toInt ∧
        rounds[i].2.toInt ≤ (3 : Int32).toInt ∧
        NearestRow (3 : Int32).toInt rounds[i].1.toInt rounds[i].2.toInt ∧
        |Real.sqrt (((3 : Int32).toInt : ℝ) ^ 2 - (rounds[i].1.toInt : ℝ) ^ 2)
          - rounds[i].2.toInt| < 1 / 2 ∧
        ∀ q ∈ circlePoints 10 10 rounds[i],
          ∃ u v : Int32, q = (10 + u, 10 + v) ∧
            NearCircle (3 : Int32).toInt u.toInt v.toInt :=
  graphicsDrawCircle_near (by decide) (by decide) 10 10 15

end AceOS.Drivers
