import Mathlib.Data.List.Basic
import Mathlib.Tactic.Common

/-!
# Splitting paths (`fs_strtok` and `fs_parse_path` in `src/drivers/fs.c`)

A C string is the list of its bytes, without the final NUL.  `fs_parse_path` works
on a copy in a buffer of 256 bytes: `fs_strtok` walks the buffer, writes a NUL over
the delimiter after each token and remembers where to go on.  A read past the
buffer is `none`.

The tokens are pointers into the buffer; the strings they point to are read when
the loop has ended.  For a path of at most 255 bytes they are its `components`
(`fsParsePath_eq`).
-/

namespace AceOS.Drivers.Fs

abbrev fsMaxPathLen : Nat := 256

/-- The byte `'/'`. -/
abbrev slash : UInt8 := 47

/-! ### The code -/

/-- `strncpy` from a string into a buffer of `n` bytes: no NUL if the string is too long. -/
def strncpy (src : List UInt8) (n : Nat) : List UInt8 :=
  src.take n ++ List.replicate (n - src.length) 0

/-- The string at the start of a buffer; `none` if it has no end. -/
def cstr : List UInt8 → Option (List UInt8)
  | [] => none
  | c :: cs => if c = 0 then some [] else (cstr cs).map (c :: ·)

/-- `while (*str && strchr(delim, *str)) str++;` from position `i` on. -/
def skipDelims : List UInt8 → Nat → Option Nat
  | [], _ => none
  | c :: cs, i => if c ≠ 0 ∧ c = slash then skipDelims cs (i + 1) else some i

/-- `while (*token_end && !strchr(delim, *token_end)) token_end++;` -/
def tokenEnd : List UInt8 → Nat → Option Nat
  | [], _ => none
  | c :: cs, i => if c ≠ 0 ∧ c ≠ slash then tokenEnd cs (i + 1) else some i

/-- The buffer, and the static `last_token` as a position in it. -/
structure Strtok where
  buf : List UInt8
  lastToken : Option Nat

/-- `fs_strtok` once it knows where to start. -/
def fsStrtokFrom (str : Nat) (buf : List UInt8) : Option (Option Nat × Strtok) := do
  let start ← skipDelims (buf.drop str) str
  let c ← buf[start]?
  if c = 0 then some (none, { buf := buf, lastToken := none })
  else
    let stop ← tokenEnd (buf.drop start) start
    let c ← buf[stop]?
    if c ≠ 0 then some (some start, { buf := buf.set stop 0, lastToken := some (stop + 1) })
    else some (some start, { buf := buf, lastToken := none })

/-- `fs_strtok(str, "/")`; `none` for `str` is `NULL`. -/
def fsStrtok (str : Option Nat) (st : Strtok) : Option (Option Nat × Strtok) :=
  match str with
  | some str => fsStrtokFrom str st.buf
  | none =>
      match st.lastToken with
      | some str => fsStrtokFrom str st.buf
      | none => some (none, st)

/-- The loop of `fs_parse_path`, with room for `n` more tokens. -/
def fsParsePathLoop : (n : Nat) → (token : Option Nat) → Strtok → Option (List Nat × List UInt8)
  | 0, _, st => some ([], st.buf)
  | _ + 1, none, st => some ([], st.buf)
  | n + 1, some token, st => do
      let (next, st) ← fsStrtok none st
      let (parts, buf) ← fsParsePathLoop n next st
      some (token :: parts, buf)

/-- The tokens of a path, as the strings they point to when the loop has ended. -/
def fsParsePath (path : List UInt8) : Option (List (List UInt8)) := do
  let (token, st) ← fsStrtok (some 0) { buf := strncpy path fsMaxPathLen, lastToken := none }
  let (parts, buf) ← fsParsePathLoop fsMaxPathLen token st
  parts.mapM fun part => cstr (buf.drop part)

/-! ### Components -/

/-- The maximal runs of bytes other than `'/'`. -/
def components (path : List UInt8) : List (List UInt8) :=
  (path.splitOnP (· == slash)).filter (fun c => !c.isEmpty)

@[simp] theorem components_nil : components [] = [] := rfl

@[simp] theorem components_slash_cons (path : List UInt8) :
    components (slash :: path) = components path := by
  rw [components, ← List.nil_append (slash :: path), List.splitOnP_append_cons_of_forall_mem]
  · rfl
  · intro x hx
    exact absurd hx (by simp)
  · rfl

structure IsComponent (c : List UInt8) : Prop where
  ne_nil : c ≠ []
  noSlash : slash ∉ c

theorem components_of_isComponent {c : List UInt8} (h : IsComponent c) : components c = [c] := by
  have hne := h.ne_nil
  rw [components, List.splitOnP_eq_singleton]
  · simp [hne]
  · intro x hx
    rw [beq_eq_false_iff_ne]
    rintro rfl
    exact h.noSlash hx

theorem components_append_slash {c : List UInt8} (h : IsComponent c) (path : List UInt8) :
    components (c ++ slash :: path) = c :: components path := by
  have hne := h.ne_nil
  rw [components, List.splitOnP_append_cons_of_forall_mem]
  · simp [hne, components]
  · intro x hx
    rw [beq_eq_false_iff_ne]
    rintro rfl
    exact h.noSlash hx
  · rfl

theorem components_slashes_append (n : Nat) (path : List UInt8) :
    components (List.replicate n slash ++ path) = components path := by
  induction n with
  | zero => rfl
  | succ n ih => rw [List.replicate_succ, List.cons_append, components_slash_cons, ih]

/-! ### What the tokenizer finds -/

theorem cstr_append {c rest : List UInt8} (h : (0 : UInt8) ∉ c) :
    cstr (c ++ 0 :: rest) = some c := by
  induction c with
  | nil => rfl
  | cons b c ih =>
      rw [List.mem_cons, not_or] at h
      rw [List.cons_append, cstr, if_neg (Ne.symm h.1), ih h.2]
      rfl

theorem skipDelims_replicate (n : Nat) {c : UInt8} (rest : List UInt8) (hc : c ≠ slash) (i : Nat) :
    skipDelims (List.replicate n slash ++ c :: rest) i = some (i + n) := by
  induction n generalizing i with
  | zero =>
      rw [List.replicate_zero, List.nil_append, skipDelims, if_neg fun h => hc h.2]
      rfl
  | succ n ih =>
      rw [List.replicate_succ, List.cons_append, skipDelims, if_pos ⟨by decide, rfl⟩, ih]
      congr 1
      omega

theorem tokenEnd_append {t : List UInt8} (rest : List UInt8) {c : UInt8}
    (ht : ∀ x ∈ t, x ≠ 0 ∧ x ≠ slash) (hc : c = 0 ∨ c = slash) (i : Nat) :
    tokenEnd (t ++ c :: rest) i = some (i + t.length) := by
  induction t generalizing i with
  | nil =>
      rw [List.nil_append, tokenEnd, if_neg]
      · rfl
      · rintro ⟨h₁, h₂⟩
        exact hc.elim h₁ h₂
  | cons b t ih =>
      rw [List.forall_mem_cons] at ht
      rw [List.cons_append, tokenEnd, if_pos ht.1, ih ht.2, List.length_cons]
      congr 1
      omega

section Strtok

variable {done t zs : List UInt8} {k : Nat}

theorem fsStrtokFrom_end (done zs : List UInt8) (k : Nat) :
    fsStrtokFrom done.length (done ++ (List.replicate k slash ++ 0 :: zs))
      = some (none, ⟨done ++ (List.replicate k slash ++ 0 :: zs), none⟩) := by
  have hskip := skipDelims_replicate k (c := 0) zs (by decide) done.length
  have hget : (done ++ (List.replicate k slash ++ 0 :: zs))[done.length + k]? = some 0 := by simp
  rw [fsStrtokFrom, List.drop_left, hskip]
  simp only [Option.bind_eq_bind, Option.bind_some, hget, if_true]

/-- The walk over the token found: it begins at `done.length + k` and ends before `c`. -/
theorem fsStrtokFrom_token {c : UInt8} (ht : IsComponent t) (h0 : (0 : UInt8) ∉ t)
    (hc : c = 0 ∨ c = slash) (done zs : List UInt8) (k : Nat) :
    fsStrtokFrom done.length (done ++ (List.replicate k slash ++ (t ++ c :: zs))) =
      if c ≠ 0 then
        some (some (done.length + k),
          ⟨(done ++ (List.replicate k slash ++ (t ++ c :: zs))).set (done.length + k + t.length) 0,
            some (done.length + k + t.length + 1)⟩)
      else
        some (some (done.length + k),
          ⟨done ++ (List.replicate k slash ++ (t ++ c :: zs)), none⟩) := by
  have htok : ∀ x ∈ t, x ≠ 0 ∧ x ≠ slash := by
    intro x hx
    exact ⟨fun h => h0 (h ▸ hx), fun h => ht.noSlash (h ▸ hx)⟩
  obtain ⟨b, t', rfl⟩ := List.exists_cons_of_ne_nil ht.ne_nil
  have hb := htok b (List.mem_cons_self ..)
  have hskip := skipDelims_replicate k (t' ++ c :: zs) hb.2 done.length
  have hend := tokenEnd_append zs htok hc (done.length + k)
  have hget : (done ++ (List.replicate k slash ++ (b :: t' ++ c :: zs)))[done.length + k]?
      = some b := by
    simp
  have hdrop : (done ++ (List.replicate k slash ++ (b :: t' ++ c :: zs))).drop (done.length + k)
      = b :: t' ++ c :: zs := by
    rw [← List.append_assoc]
    exact List.drop_left' (by simp)
  have hget' : (done ++ (List.replicate k slash ++ (b :: t' ++ c :: zs)))[done.length + k
      + (b :: t').length]? = some c := by
    rw [← List.append_assoc, ← List.append_assoc, List.getElem?_append_right (by simp; omega)]
    simp [Nat.add_assoc]
  rw [fsStrtokFrom, List.drop_left, List.cons_append, hskip]
  rw [List.cons_append] at hget hdrop hget' hend
  simp only [Option.bind_eq_bind, Option.bind_some, hget, if_neg hb.1, hdrop, hend, hget']

end Strtok

/-- A path is delimiters only, or delimiters, a component and the end or another
delimiter. -/
theorem path_cases (p : List UInt8) :
    (∃ k, p = List.replicate k slash) ∨
      ∃ k t, IsComponent t ∧ (p = List.replicate k slash ++ t ∨
        ∃ r, p = List.replicate k slash ++ (t ++ slash :: r)) := by
  induction p with
  | nil => exact Or.inl ⟨0, rfl⟩
  | cons c p ih =>
      by_cases hc : c = slash
      · subst hc
        rcases ih with ⟨k, rfl⟩ | ⟨k, t, ht, rfl | ⟨r, rfl⟩⟩
        · exact Or.inl ⟨k + 1, rfl⟩
        · exact Or.inr ⟨k + 1, t, ht, Or.inl rfl⟩
        · exact Or.inr ⟨k + 1, t, ht, Or.inr ⟨r, rfl⟩⟩
      · right
        have hone : IsComponent [c] := ⟨by simp, by simpa using Ne.symm hc⟩
        have hcons : ∀ {t : List UInt8}, IsComponent t → IsComponent (c :: t) := by
          intro t ht
          exact ⟨by simp, by simpa using ⟨Ne.symm hc, ht.noSlash⟩⟩
        rcases ih with ⟨k, rfl⟩ | ⟨k, t, ht, rfl | ⟨r, rfl⟩⟩
        · cases k with
          | zero => exact ⟨0, [c], hone, Or.inl rfl⟩
          | succ k => exact ⟨0, [c], hone, Or.inr ⟨_, rfl⟩⟩
        · cases k with
          | zero => exact ⟨0, c :: t, hcons ht, Or.inl rfl⟩
          | succ k => exact ⟨0, [c], hone, Or.inr ⟨_, rfl⟩⟩
        · cases k with
          | zero => exact ⟨0, c :: t, hcons ht, Or.inr ⟨r, rfl⟩⟩
          | succ k => exact ⟨0, [c], hone, Or.inr ⟨_, rfl⟩⟩

theorem components_append (a b : List UInt8) :
    components (a ++ slash :: b) = components a ++ components b := by
  rw [components, List.splitOnP_append_cons _ _ (by rfl), List.filter_append]
  rfl

theorem components_eq_nil {a : List UInt8} (h : components a = []) :
    ∃ n, a = List.replicate n slash := by
  rcases path_cases a with hn | ⟨k, t, ht, rfl | ⟨r, rfl⟩⟩
  · exact hn
  · rw [components_slashes_append, components_of_isComponent ht] at h
    exact absurd h (by simp)
  · rw [components_slashes_append, components_append_slash ht] at h
    exact absurd h (by simp)

theorem components_append_ne_nil {p : List UInt8} (h : components p ≠ []) (q : List UInt8) :
    components (p ++ q) ≠ [] := by
  intro hnil
  obtain ⟨n, hn⟩ := components_eq_nil hnil
  obtain ⟨-, hp, -⟩ := List.append_eq_replicate_iff.mp hn
  rw [hp, ← List.append_nil (List.replicate _ slash), components_slashes_append] at h
  exact h rfl

/-- All but the last component of the beginning of a path begin the path. -/
theorem components_dropLast_prefix (p q : List UInt8) :
    (components p).dropLast <+: (components (p ++ q)).dropLast := by
  induction hn : p.length using Nat.strongRecOn generalizing p with
  | ind n ih =>
      rcases path_cases p with ⟨k, rfl⟩ | ⟨k, t, ht, rfl | ⟨r, rfl⟩⟩
      · rw [← List.append_nil (List.replicate k slash), components_slashes_append]
        exact List.nil_prefix
      · rw [components_slashes_append, components_of_isComponent ht]
        exact List.nil_prefix
      · rw [List.append_assoc, List.append_assoc, List.cons_append, components_slashes_append,
          components_slashes_append, components_append_slash ht, components_append_slash ht]
        by_cases hr : components r = []
        · rw [hr]
          exact List.nil_prefix
        · rw [List.dropLast_cons_of_ne_nil hr,
            List.dropLast_cons_of_ne_nil (components_append_ne_nil hr q)]
          have hlt : r.length < n := by
            simp only [List.length_append, List.length_cons] at hn
            omega
          exact List.cons_prefix_cons.mpr ⟨rfl, ih r.length hlt r rfl⟩

theorem cstr_at {done t rest : List UInt8} (k : Nat) (h0 : (0 : UInt8) ∉ t) :
    cstr ((done ++ (List.replicate k slash ++ (t ++ 0 :: rest))).drop (done.length + k))
      = some t := by
  rw [← List.append_assoc, List.drop_left' (by simp)]
  exact cstr_append h0

/-- The loop of `fs_parse_path` on what is left of the path: the tokens it finds are the
components, and what lies before them in the buffer is kept. -/
theorem fsParsePathLoop_spec (n : Nat) (p : List UInt8) (hn : p.length < n) (h0 : (0 : UInt8) ∉ p)
    (done zs : List UInt8) :
    ∃ token st parts rest, fsStrtokFrom done.length (done ++ (p ++ 0 :: zs)) = some (token, st) ∧
      fsParsePathLoop n token st = some (parts, done ++ rest) ∧
      parts.mapM (fun part => cstr ((done ++ rest).drop part)) = some (components p) := by
  induction n generalizing p done with
  | zero => exact absurd hn (Nat.not_lt_zero _)
  | succ n ih =>
      rcases path_cases p with ⟨k, rfl⟩ | ⟨k, t, ht, rfl | ⟨r, rfl⟩⟩
      · refine ⟨_, _, [], _, fsStrtokFrom_end done zs k, rfl, ?_⟩
        rw [← List.append_nil (List.replicate k slash), components_slashes_append]
        rfl
      · have ht0 : (0 : UInt8) ∉ t := fun h => h0 (List.mem_append_right _ h)
        have hfrom := fsStrtokFrom_token ht ht0 (Or.inl rfl) done zs k
        rw [if_neg (by simp)] at hfrom
        refine ⟨_, _, [done.length + k], List.replicate k slash ++ (t ++ 0 :: zs), by
          rw [List.append_assoc]; exact hfrom, ?_, ?_⟩
        · cases n with
          | zero => rfl
          | succ n => rfl
        · rw [components_slashes_append, components_of_isComponent ht]
          rw [List.mapM_cons, cstr_at k ht0]
          rfl
      · have ht0 : (0 : UInt8) ∉ t := fun h => h0 (by simp [h])
        have hr0 : (0 : UInt8) ∉ r := fun h => h0 (by simp [h])
        have hfrom := fsStrtokFrom_token ht ht0 (Or.inr rfl) done (r ++ 0 :: zs) k
        obtain ⟨token, st, parts, rest, hfrom', hloop, hmap⟩ :=
          ih r (by simp at hn; omega) hr0 (done ++ (List.replicate k slash ++ (t ++ [0])))
        have hlen : (done ++ (List.replicate k slash ++ (t ++ [0]))).length
            = done.length + k + t.length + 1 := by
          simp
          omega
        have hset : (done ++ (List.replicate k slash ++ (t ++ slash :: (r ++ 0 :: zs)))).set
            (done.length + k + t.length) 0
              = done ++ (List.replicate k slash ++ (t ++ [0])) ++ (r ++ 0 :: zs) := by
          have hpos : done.length + k + t.length
              = (done ++ (List.replicate k slash ++ t)).length := by
            simp
            omega
          have hassoc : done ++ (List.replicate k slash ++ (t ++ slash :: (r ++ 0 :: zs)))
              = done ++ (List.replicate k slash ++ t) ++ slash :: (r ++ 0 :: zs) := by simp
          rw [hassoc, hpos, List.set_append_right _ _ (Nat.le_refl _)]
          simp
        rw [if_pos (by decide), hset] at hfrom
        rw [hlen] at hfrom'
        refine ⟨_, _, (done.length + k) :: parts, List.replicate k slash ++ (t ++ 0 :: rest), by
          rw [List.append_assoc, List.append_assoc, List.cons_append]; exact hfrom, ?_, ?_⟩
        · rw [fsParsePathLoop]
          simp only [fsStrtok, hfrom', Option.bind_eq_bind, Option.bind_some, hloop]
          simp
        · rw [components_slashes_append, components_append_slash ht]
          have hrest : done ++ (List.replicate k slash ++ (t ++ 0 :: rest))
              = done ++ (List.replicate k slash ++ (t ++ [0])) ++ rest := by simp
          rw [List.mapM_cons, cstr_at k ht0, hrest, hmap]
          rfl

/-- **`fs_parse_path` finds the components**, in order and intact. -/
theorem fsParsePath_eq {path : List UInt8} (hlen : path.length < fsMaxPathLen)
    (h0 : (0 : UInt8) ∉ path) : fsParsePath path = some (components path) := by
  obtain ⟨zs, hbuf⟩ : ∃ zs, strncpy path fsMaxPathLen = path ++ 0 :: zs := by
    refine ⟨List.replicate (fsMaxPathLen - path.length - 1) 0, ?_⟩
    rw [strncpy, List.take_of_length_le (by omega), ← List.replicate_succ]
    congr 2
    omega
  obtain ⟨token, st, parts, rest, hfrom, hloop, hmap⟩ :=
    fsParsePathLoop_spec fsMaxPathLen path hlen h0 [] zs
  rw [List.length_nil, List.nil_append] at hfrom
  simp only [List.nil_append] at hloop hmap
  simp only [fsParsePath, fsStrtok, hbuf, hfrom, Option.bind_eq_bind, Option.bind_some, hloop, hmap]

/-! ### Paths that do not fit -/

theorem skipDelims_le {l : List UInt8} {i j : Nat} (h : skipDelims l i = some j) : i ≤ j := by
  induction l generalizing i with
  | nil => exact absurd h (by simp [skipDelims])
  | cons c l ih =>
      rw [skipDelims] at h
      split at h
      · exact Nat.le_of_succ_le (ih h)
      · rw [Option.some.injEq] at h
        exact Nat.le_of_eq h

theorem tokenEnd_le {l : List UInt8} {i j : Nat} (h : tokenEnd l i = some j) : i ≤ j := by
  induction l generalizing i with
  | nil => exact absurd h (by simp [tokenEnd])
  | cons c l ih =>
      rw [tokenEnd] at h
      split at h
      · exact Nat.le_of_succ_le (ih h)
      · rw [Option.some.injEq] at h
        exact Nat.le_of_eq h

/-- With no NUL ahead, `fs_strtok` leaves the buffer or stops at a slash. -/
theorem fsStrtokFrom_noNul {buf : List UInt8} {k : Nat} (h0 : (0 : UInt8) ∉ buf.drop k) :
    fsStrtokFrom k buf = none ∨ ∃ start stop, k ≤ stop ∧ stop < buf.length ∧
      fsStrtokFrom k buf = some (some start, ⟨buf.set stop 0, some (stop + 1)⟩) := by
  have hne : ∀ {i c}, k ≤ i → buf[i]? = some c → c ≠ 0 := by
    rintro i c hi hc rfl
    refine h0 (List.mem_of_getElem? (?_ : (buf.drop k)[i - k]? = some 0))
    rw [List.getElem?_drop, Nat.add_sub_cancel' hi, hc]
  rw [fsStrtokFrom]
  simp only [Option.bind_eq_bind]
  cases hskip : skipDelims (buf.drop k) k with
  | none => exact Or.inl rfl
  | some start =>
      have hks := skipDelims_le hskip
      rw [Option.bind_some]
      cases hc : buf[start]? with
      | none => exact Or.inl rfl
      | some c =>
          rw [Option.bind_some, if_neg (hne hks hc)]
          cases hstop : tokenEnd (buf.drop start) start with
          | none => exact Or.inl rfl
          | some stop =>
              have hle := tokenEnd_le hstop
              rw [Option.bind_some]
              cases hb : buf[stop]? with
              | none => exact Or.inl rfl
              | some b =>
                  have hlt := (List.getElem?_eq_some_iff.mp hb).1
                  rw [Option.bind_some, if_pos (hne (Nat.le_trans hks hle) hb)]
                  exact Or.inr ⟨start, stop, Nat.le_trans hks hle, hlt, rfl⟩

theorem fsParsePathLoop_noNul (n : Nat) {buf : List UInt8} {k : Nat} (token : Nat)
    (h0 : (0 : UInt8) ∉ buf.drop k) (hk : k ≤ buf.length) (hn : buf.length < n + k) :
    fsParsePathLoop n (some token) ⟨buf, some k⟩ = none := by
  induction n generalizing buf k token with
  | zero => omega
  | succ n ih =>
      rw [fsParsePathLoop]
      simp only [fsStrtok, Option.bind_eq_bind]
      rcases fsStrtokFrom_noNul h0 with he | ⟨start, stop, hks, hlt, he⟩
      · rw [he]
        rfl
      · rw [he, Option.bind_some]
        dsimp only
        rw [ih start]
        · rfl
        · rw [List.drop_set_of_lt (Nat.lt_succ_self stop)]
          intro hmem
          refine h0 (List.mem_of_mem_drop (i := stop + 1 - k) ?_)
          rwa [List.drop_drop, Nat.add_sub_cancel' (Nat.le_succ_of_le hks)]
        · rwa [List.length_set]
        · rw [List.length_set]
          omega

theorem fsParsePath_of_le {path : List UInt8} (hlen : fsMaxPathLen ≤ path.length)
    (h0 : (0 : UInt8) ∉ path) : fsParsePath path = none := by
  have hbuf : strncpy path fsMaxPathLen = path.take fsMaxPathLen := by
    rw [strncpy, Nat.sub_eq_zero_of_le hlen]
    exact List.append_nil _
  have hlength : (path.take fsMaxPathLen).length = fsMaxPathLen := by
    rw [List.length_take, Nat.min_eq_left hlen]
  have h0' : (0 : UInt8) ∉ path.take fsMaxPathLen := fun hmem => h0 (List.mem_of_mem_take hmem)
  rw [fsParsePath, hbuf]
  simp only [fsStrtok, Option.bind_eq_bind]
  rcases fsStrtokFrom_noNul (k := 0) h0' with he | ⟨start, stop, -, hlt, he⟩
  · rw [he]
    rfl
  · rw [he, Option.bind_some]
    dsimp only
    rw [fsParsePathLoop_noNul]
    · rfl
    · rw [List.drop_set_of_lt (Nat.lt_succ_self stop)]
      exact fun hmem => h0' (List.mem_of_mem_drop hmem)
    · rwa [List.length_set]
    · rw [List.length_set, hlength]
      omega

end AceOS.Drivers.Fs
