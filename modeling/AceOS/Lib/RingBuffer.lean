import AceOS.Lib.Machine
import Mathlib.Data.List.Basic

/-!
# Ring buffers

A ring of `size` cells with the index of the next cell to write (`head`) and of the next
cell to read (`tail`).  Equal indices mean that it is empty, so one cell always stays free
and at most `size - 1` items are stored.  `Ring.contents` is the stored list, oldest first.

The queue it stands for is the machine `fifoStep` on lists: `Ring.contents_push`,
`Ring.contents_push_of_full` and `Ring.pop_eq` are its three steps.
-/

namespace RingBuffer

open Machine

universe u

variable {α : Type u} {size : Nat}

/-! ### The queue -/

inductive QueueOp (α : Type u)
  | push (c : α)
  | pop
  | empty

inductive QueueOut (α : Type u)
  | done
  | item (c : α)
  | flag (b : Bool)

/-- A queue that holds at most `cap` items.  A push on a full queue is dropped, and a pop
of an empty one answers `default`. -/
def fifoStep (default : α) (cap : Nat) : QueueOp α → List α → Option (QueueOut α × List α)
  | .push c, q => some (.done, if q.length < cap then q ++ [c] else q)
  | .pop, [] => some (.item default, [])
  | .pop, c :: q => some (.item c, q)
  | .empty, q => some (.flag q.isEmpty, q)

/-- The items pushed along `ops` that were not dropped, in the order of the pushes. -/
def accepted (cap : Nat) : List (QueueOp α) → List α → List α
  | [], _ => []
  | .push c :: ops, q =>
      if q.length < cap then c :: accepted cap ops (q ++ [c]) else accepted cap ops q
  | .pop :: ops, q => accepted cap ops q.tail
  | .empty :: ops, q => accepted cap ops q

/-- The items popped along `ops`, in the order of the pops. -/
def served (cap : Nat) : List (QueueOp α) → List α → List α
  | [], _ => []
  | .push c :: ops, q => served cap ops (if q.length < cap then q ++ [c] else q)
  | .pop :: ops, [] => served cap ops []
  | .pop :: ops, c :: q => c :: served cap ops q
  | .empty :: ops, q => served cap ops q

/-- **Nothing is lost, repeated or reordered.**  What was there and what was accepted is
what was served and what is there, in this order. -/
theorem fifo_conserves {default : α} {cap : Nat} {ops : List (QueueOp α)} {q q' : List α}
    {outs : List (QueueOut α)} (h : run (fifoStep default cap) ops q = some (outs, q')) :
    q ++ accepted cap ops q = served cap ops q ++ q' := by
  induction ops generalizing q outs with
  | nil =>
      rw [run_nil, Option.some.injEq, Prod.mk.injEq] at h
      rw [h.2, accepted, served, List.append_nil, List.nil_append]
  | cons op ops ih =>
      obtain ⟨o, t, outs', hs, hr, -⟩ := run_cons_some.mp h
      have htail := ih hr
      cases op with
      | push c =>
          rw [fifoStep, Option.some.injEq, Prod.mk.injEq] at hs
          rw [accepted, served, hs.2, ← htail, ← hs.2]
          split
          · rw [List.append_assoc, List.singleton_append]
          · rfl
      | pop =>
          cases q with
          | nil =>
              rw [fifoStep, Option.some.injEq, Prod.mk.injEq] at hs
              rw [← hs.2] at htail
              exact htail
          | cons c q =>
              rw [fifoStep, Option.some.injEq, Prod.mk.injEq] at hs
              rw [← hs.2] at htail
              rw [accepted, served, List.tail_cons, List.cons_append, List.cons_append, htail]
      | empty =>
          rw [fifoStep, Option.some.injEq, Prod.mk.injEq] at hs
          rw [← hs.2] at htail
          exact htail

/-! ### The ring -/

/-- The index after `i`. -/
def next (i : Fin size) : Fin size := ⟨(i.val + 1) % size, Nat.mod_lt _ (Nat.zero_lt_of_lt i.isLt)⟩

theorem next_cases (i : Fin size) :
    (i.val + 1 < size ∧ (next i).val = i.val + 1) ∨ (i.val + 1 = size ∧ (next i).val = 0) := by
  have hi := i.isLt
  have hval : (next i).val = (i.val + 1) % size := rfl
  by_cases h : i.val + 1 < size
  · exact Or.inl ⟨h, hval.trans (Nat.mod_eq_of_lt h)⟩
  · have he : i.val + 1 = size := by omega
    exact Or.inr ⟨he, by rw [hval, he, Nat.mod_self]⟩

/-- A ring whose indices are inside its cells. -/
structure Ring (α : Type u) (size : Nat) where
  cells : Vector α size
  head : Fin size
  tail : Fin size

namespace Ring

/-- Write at `head`, unless the next index is `tail`. -/
def push (r : Ring α size) (c : α) : Ring α size :=
  if next r.head = r.tail then r
  else { r with cells := r.cells.set r.head c, head := next r.head }

/-- Read at `tail`, unless it is `head`. -/
def pop (r : Ring α size) : Option α × Ring α size :=
  if r.head = r.tail then (none, r)
  else (some (r.cells[r.tail]), { r with tail := next r.tail })

/-- The number of cells from `tail` up to `head`. -/
def count (r : Ring α size) : Nat :=
  if r.tail.val ≤ r.head.val then r.head.val - r.tail.val else r.head.val + size - r.tail.val

/-- The index of the `k`-th stored item. -/
def slot (r : Ring α size) (k : Fin size) : Fin size :=
  if h : r.tail + k < size then ⟨r.tail + k, h⟩ else ⟨r.tail + k - size, by omega⟩

theorem slot_val (r : Ring α size) (k : Fin size) :
    (r.slot k).val = if r.tail + k < size then r.tail.val + k else r.tail + k - size := by
  rw [slot]
  split <;> rfl

theorem count_cases (r : Ring α size) :
    (r.tail.val ≤ r.head.val ∧ r.count = r.head.val - r.tail.val) ∨
      (r.head.val < r.tail.val ∧ r.count = r.head.val + size - r.tail.val) := by
  rw [count]
  split <;> omega

theorem count_lt (r : Ring α size) : r.count < size := by
  have hhead := r.head.isLt
  rw [count]
  split <;> omega

/-- The stored items, oldest first. -/
def contents (r : Ring α size) : List α :=
  List.ofFn fun k : Fin r.count => r.cells[r.slot (k.castLT (by have := r.count_lt; omega))]

@[simp] theorem contents_length (r : Ring α size) : r.contents.length = r.count :=
  List.length_ofFn

theorem contents_getElem (r : Ring α size) {k : Nat} (h : k < r.contents.length) :
    r.contents[k] = r.cells[r.slot ⟨k, by
      have := r.count_lt; rw [contents_length] at h; omega⟩] := by
  simp [contents]

theorem count_eq_zero (r : Ring α size) : r.count = 0 ↔ r.head = r.tail := by
  have hhead := r.head.isLt
  rw [count, Fin.ext_iff]
  split <;> omega

theorem contents_eq_nil (r : Ring α size) : r.contents = [] ↔ r.head = r.tail := by
  rw [← List.length_eq_zero_iff, contents_length, count_eq_zero]

/-- The ring is full when one more index would make it look empty. -/
theorem next_head_eq_tail (r : Ring α size) : next r.head = r.tail ↔ r.count + 1 = size := by
  have hhead := r.head.isLt
  have htail := r.tail.isLt
  have hcases := r.count_cases
  have hnext := next_cases r.head
  rw [Fin.ext_iff]
  omega

theorem contents_push_of_full {r : Ring α size} (h : r.contents.length + 1 = size) (c : α) :
    r.push c = r := by
  rw [contents_length] at h
  rw [push, if_pos (r.next_head_eq_tail.mpr h)]

theorem contents_push {r : Ring α size} (h : r.contents.length + 1 < size) (c : α) :
    (r.push c).contents = r.contents ++ [c] := by
  rw [contents_length] at h
  have hhead := r.head.isLt
  have htail := r.tail.isLt
  have hne : ¬ next r.head = r.tail := by
    rw [next_head_eq_tail]
    omega
  have hpush : r.push c = { r with cells := r.cells.set r.head c, head := next r.head } := by
    rw [push, if_neg hne]
  have hcount : (r.push c).count = r.count + 1 := by
    rw [Fin.ext_iff] at hne
    have hcases := r.count_cases
    have hnext := next_cases r.head
    have hcases' := (r.push c).count_cases
    simp only [hpush] at hcases' ⊢
    omega
  apply List.ext_getElem
  · rw [contents_length, hcount, List.length_append, contents_length, List.length_singleton]
  · intro k hk hk'
    have hkc : k < r.count + 1 := by
      rw [contents_length, hcount] at hk
      exact hk
    have hslot : ∀ l : Fin size, (r.push c).slot l = r.slot l := by
      intro l
      rw [hpush, slot, slot]
    have hcells : (r.push c).cells = r.cells.set r.head c := by rw [hpush]
    -- The written cell is the one `count` cells after `tail`, and no other item's cell.
    have hcell : (r.slot ⟨k, by omega⟩).val = r.head.val ↔ k = r.count := by
      have hcases := r.count_cases
      rw [slot_val]
      dsimp only
      split <;> omega
    rw [contents_getElem]
    simp only [hslot, hcells, Fin.getElem_fin]
    by_cases hlast : k = r.count
    · rw [List.getElem_append_right (by rw [contents_length]; omega)]
      rw [List.getElem_singleton]
      rw [Vector.getElem_set, if_pos (hcell.mpr hlast).symm]
    · have hlt : k < r.contents.length := by
        rw [contents_length]
        omega
      rw [List.getElem_append_left hlt, contents_getElem]
      simp only [Fin.getElem_fin]
      rw [Vector.getElem_set, if_neg (fun he => hlast (hcell.mp he.symm))]

theorem pop_eq (r : Ring α size) :
    r.pop.1 = r.contents.head? ∧ r.pop.2.contents = r.contents.tail := by
  have hhead := r.head.isLt
  have htail := r.tail.isLt
  by_cases he : r.head = r.tail
  · have hnil := r.contents_eq_nil.mpr he
    rw [pop, if_pos he]
    simp only [hnil, List.head?_nil, List.tail_nil, and_self]
  have hpop : r.pop = (some (r.cells[r.tail]), { r with tail := next r.tail }) := by
    rw [pop, if_neg he]
  have hpos : 0 < r.contents.length := by
    rw [contents_length]
    have hz := r.count_eq_zero
    omega
  have hcount : ({ r with tail := next r.tail } : Ring α size).count + 1 = r.count := by
    have hcases := r.count_cases
    have hcases' := ({ r with tail := next r.tail } : Ring α size).count_cases
    have hnext := next_cases r.tail
    rw [Fin.ext_iff] at he
    simp only at hcases' ⊢
    omega
  rw [hpop]
  constructor
  · rw [List.head?_eq_getElem?, List.getElem?_eq_getElem hpos, contents_getElem]
    have hslot : r.slot ⟨0, by omega⟩ = r.tail := by
      rw [Fin.ext_iff, slot_val]
      dsimp only
      split <;> omega
    simp only [hslot]
  · show ({ r with tail := next r.tail } : Ring α size).contents = r.contents.tail
    apply List.ext_getElem
    · rw [contents_length, List.length_tail, contents_length]
      omega
    · intro k hk hk'
      have hkc : k + 1 < size := by
        have hlt := r.count_lt
        rw [List.length_tail, contents_length] at hk'
        omega
      rw [List.getElem_tail, contents_getElem, contents_getElem]
      have hslot : ({ r with tail := next r.tail } : Ring α size).slot ⟨k, by omega⟩
          = r.slot ⟨k + 1, hkc⟩ := by
        have hnext := next_cases r.tail
        rw [Fin.ext_iff, slot_val, slot_val]
        dsimp only
        split <;> split <;> omega
      simp only [hslot]

end Ring

end RingBuffer
