import AceOS.Drivers.Fs.Lookup
import AceOS.Libc.String

/-!
# The tokens of a path (`fs_parse_path` and `fs_strtok` in `src/drivers/fs.c`)

`fsParsePath` reads the strings of the tokens; here the parse is kept with its pointers and with
the position that `fs_strtok` saves between calls.  The saved position is `NULL` where
`fs_strtok` has found no token (`fsStrtok_none`), and a path that fits has fewer tokens than
`fs_parse_path` has room for, so that its loop ends there (`fsParsePathSaved_eq`).
-/

namespace AceOS.Drivers.Fs

open Libc

/-! ### The code -/

/-- The loop of `fs_parse_path`, with what it leaves to the next call of `fs_strtok`. -/
def fsParsePathLoopSaved : (n : Nat) → (token : Option Nat) → Strtok → Option (List Nat × Strtok)
  | 0, _, st => some ([], st)
  | _ + 1, none, st => some ([], st)
  | n + 1, some token, st => do
      let (next, st) ← fsStrtok none st
      let (parts, st) ← fsParsePathLoopSaved n next st
      some (token :: parts, st)

/-- `fs_parse_path` where an earlier parse has saved `lastToken`: the parts point into the
buffer that is left, and there are `part_count` of them. -/
def fsParsePathSaved (path : List UInt8) (lastToken : Option Nat) :
    Option (List Nat × Strtok) := do
  let (token, st) ← fsStrtok (some 0) { buf := strncpy path fsMaxPathLen, lastToken := lastToken }
  fsParsePathLoopSaved fsMaxPathLen token st

variable {path : List UInt8} {str token : Option Nat} {st st' : Strtok} {parts : List Nat} {n : Nat}

/-! ### The walk over delimiters -/

theorem strchr_slash_ne_none_iff {c : UInt8} (hc : c ≠ 0) :
    strchr [slash] c ≠ none ↔ c = slash := by
  rw [strchr, strchr, if_neg hc]
  by_cases h : slash = c
  · rw [if_pos h]
    exact ⟨fun _ => h.symm, fun _ => Option.some_ne_none _⟩
  · rw [if_neg h]
    exact ⟨fun hne => absurd rfl hne, fun heq => absurd heq.symm h⟩

theorem skipDelims_cons (c : UInt8) (cs : List UInt8) (i : Nat) :
    skipDelims (c :: cs) i
      = if c ≠ 0 ∧ strchr [slash] c ≠ none then skipDelims cs (i + 1) else some i := by
  have hiff : c ≠ 0 ∧ strchr [slash] c ≠ none ↔ c ≠ 0 ∧ c = slash :=
    and_congr_right strchr_slash_ne_none_iff
  simp only [skipDelims, hiff]

theorem tokenEnd_cons (c : UInt8) (cs : List UInt8) (i : Nat) :
    tokenEnd (c :: cs) i
      = if c ≠ 0 ∧ strchr [slash] c = none then tokenEnd cs (i + 1) else some i := by
  have hiff : c ≠ 0 ∧ strchr [slash] c = none ↔ c ≠ 0 ∧ c ≠ slash :=
    and_congr_right fun hc => not_iff_not.mp (by rw [not_not]; exact strchr_slash_ne_none_iff hc)
  simp only [tokenEnd, hiff]

/-! ### The saved position -/

theorem fsStrtokFrom_none {i : Nat} {buf : List UInt8}
    (h : fsStrtokFrom i buf = some (none, st')) : st'.lastToken = none := by
  rw [fsStrtokFrom] at h
  simp only [Option.bind_eq_bind, Option.bind_eq_some_iff] at h
  obtain ⟨start, -, c, -, h⟩ := h
  by_cases hc : c = 0
  · rw [if_pos hc, Option.some.injEq, Prod.mk.injEq] at h
    rw [← h.2]
  · rw [if_neg hc, Option.bind_eq_some_iff] at h
    obtain ⟨stop, -, h⟩ := h
    rw [Option.bind_eq_some_iff] at h
    obtain ⟨b, -, h⟩ := h
    -- behind a delimiter and at the end of the string alike, a token is returned
    split at h <;> cases h

theorem fsStrtok_none (h : fsStrtok str st = some (none, st')) : st'.lastToken = none := by
  cases str with
  | some i => exact fsStrtokFrom_none h
  | none =>
      cases hlast : st.lastToken with
      | none =>
          simp only [fsStrtok, hlast, Option.some.injEq, Prod.mk.injEq] at h
          rw [← h.2]
          exact hlast
      | some i =>
          simp only [fsStrtok, hlast] at h
          exact fsStrtokFrom_none h

/-- A loop that does not use up its room ends at the end of the path. -/
theorem fsParsePathLoopSaved_lastToken (htoken : token = none → st.lastToken = none)
    (h : fsParsePathLoopSaved n token st = some (parts, st')) (hn : parts.length < n) :
    st'.lastToken = none := by
  induction n generalizing token st parts with
  | zero => exact absurd hn (Nat.not_lt_zero _)
  | succ n ih =>
      cases token with
      | none =>
          rw [fsParsePathLoopSaved, Option.some.injEq, Prod.mk.injEq] at h
          rw [← h.2]
          exact htoken rfl
      | some token =>
          rw [fsParsePathLoopSaved] at h
          simp only [Option.bind_eq_bind, Option.bind_eq_some_iff] at h
          obtain ⟨⟨next, st₁⟩, hnext, ⟨rest, st₂⟩, hloop, heq⟩ := h
          rw [Option.some.injEq, Prod.mk.injEq] at heq
          obtain ⟨rfl, rfl⟩ := heq
          refine ih (fun hnone : next = none => ?_) hloop (Nat.lt_of_succ_lt_succ hn)
          rw [hnone] at hnext
          exact fsStrtok_none hnext

theorem fsParsePathLoop_eq_saved (n : Nat) (token : Option Nat) (st : Strtok) :
    fsParsePathLoop n token st
      = (fsParsePathLoopSaved n token st).map fun (parts, st) => (parts, st.buf) := by
  induction n generalizing token st with
  | zero => rfl
  | succ n ih =>
      cases token with
      | none => rfl
      | some token =>
          rw [fsParsePathLoop, fsParsePathLoopSaved]
          cases fsStrtok none st with
          | none => rfl
          | some next =>
              obtain ⟨next, st₁⟩ := next
              simp only [Option.bind_eq_bind, Option.bind_some, ih]
              cases fsParsePathLoopSaved n next st₁ with
              | none => rfl
              | some res => rfl

theorem fsParsePath_eq_saved (path : List UInt8) (lastToken : Option Nat) :
    fsParsePath path = (fsParsePathSaved path lastToken).bind fun (parts, st) =>
      parts.mapM fun part => cstr (st.buf.drop part) := by
  have hfirst : fsStrtok (some 0) ⟨strncpy path fsMaxPathLen, none⟩
      = fsStrtok (some 0) ⟨strncpy path fsMaxPathLen, lastToken⟩ := rfl
  rw [fsParsePath, fsParsePathSaved, hfirst]
  cases fsStrtok (some 0) ⟨strncpy path fsMaxPathLen, lastToken⟩ with
  | none => rfl
  | some first =>
      obtain ⟨token, st⟩ := first
      simp only [Option.bind_eq_bind, Option.bind_some, fsParsePathLoop_eq_saved]
      cases fsParsePathLoopSaved fsMaxPathLen token st with
      | none => rfl
      | some res => rfl

/-! ### The number of tokens -/

theorem two_mul_length_components_le (path : List UInt8) :
    2 * (components path).length ≤ path.length + 1 := by
  induction hn : path.length using Nat.strongRecOn generalizing path with
  | ind n ih =>
      subst hn
      rcases path_cases path with ⟨k, rfl⟩ | ⟨k, t, ht, rfl | ⟨r, rfl⟩⟩
      · rw [← List.append_nil (List.replicate k slash), components_slashes_append]
        exact Nat.zero_le _
      · have hpos := List.length_pos_iff.mpr ht.ne_nil
        rw [components_slashes_append, components_of_isComponent ht, List.length_singleton,
          List.length_append]
        omega
      · have hpos := List.length_pos_iff.mpr ht.ne_nil
        have hlen : (List.replicate k slash ++ (t ++ slash :: r)).length
            = k + t.length + r.length + 1 := by
          rw [List.length_append, List.length_append, List.length_replicate, List.length_cons]
          omega
        have hrest := ih r.length (by omega) r rfl
        rw [components_slashes_append, components_append_slash ht, List.length_cons, hlen]
        omega

theorem length_of_mapM {α β : Type} {f : α → Option β} {l : List α} {l' : List β}
    (h : l.mapM f = some l') : l.length = l'.length := by
  induction l generalizing l' with
  | nil =>
      rw [List.mapM_nil] at h
      obtain rfl := Option.some.inj h
      rfl
  | cons a l ih =>
      rw [List.mapM_cons] at h
      simp only [Option.bind_eq_bind, Option.bind_eq_some_iff] at h
      obtain ⟨b, hb, bs, hbs, heq⟩ := h
      obtain rfl := Option.some.inj heq
      rw [List.length_cons, List.length_cons, ih hbs]

/-- **The tokens of a path that fits** are its maximal runs of other bytes than slashes, in
order, and the parse leaves nothing to the next one. -/
theorem fsParsePathSaved_eq (hlen : path.length ≤ 255) (h0 : (0 : UInt8) ∉ path)
    (lastToken : Option Nat) :
    ∃ parts st, fsParsePathSaved path lastToken = some (parts, st) ∧
      parts.length = (components path).length ∧
      parts.mapM (fun part => cstr (st.buf.drop part)) = some (components path) ∧
      (∀ c ∈ components path, IsComponent c) ∧ parts.length ≤ 128 ∧ st.lastToken = none ∧
      ∀ next, fsParsePathSaved next st.lastToken = fsParsePathSaved next lastToken := by
  have hparse := fsParsePath_eq (show path.length < fsMaxPathLen from Nat.lt_succ_of_le hlen) h0
  rw [fsParsePath_eq_saved path lastToken, Option.bind_eq_some_iff] at hparse
  obtain ⟨⟨parts, st⟩, hsaved, hparts⟩ := hparse
  have hcount := length_of_mapM hparts
  have hle := two_mul_length_components_le path
  refine ⟨parts, st, hsaved, hcount, hparts, fun c hc => (isComponent_of_mem c hc).1, by omega, ?_,
    fun next => rfl⟩
  have hroom : parts.length < fsMaxPathLen := by
    rw [hcount]
    exact Nat.lt_of_le_of_lt (show (components path).length ≤ 128 by omega) (by decide)
  simp only [fsParsePathSaved, Option.bind_eq_bind, Option.bind_eq_some_iff] at hsaved
  obtain ⟨⟨token, st₁⟩, hfirst, hloop⟩ := hsaved
  refine fsParsePathLoopSaved_lastToken (fun hnone : token = none => ?_) hloop hroom
  rw [hnone] at hfirst
  exact fsStrtok_none hfirst

/-- `"/a//b"`. -/
theorem fsParsePathSaved_doubled : ∃ parts st,
    fsParsePathSaved [47, 97, 47, 47, 98] (some 7) = some (parts, st) ∧
      parts.length = (components [47, 97, 47, 47, 98]).length ∧
      parts.mapM (fun part => cstr (st.buf.drop part)) = some (components [47, 97, 47, 47, 98]) ∧
      (∀ c ∈ components [47, 97, 47, 47, 98], IsComponent c) ∧ parts.length ≤ 128 ∧
      st.lastToken = none ∧
      ∀ next, fsParsePathSaved next st.lastToken = fsParsePathSaved next (some 7) :=
  fsParsePathSaved_eq (by decide) (by decide) (some 7)

end AceOS.Drivers.Fs
