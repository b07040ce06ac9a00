import AceOS.Drivers.Fs.Capacity

/-!
# Where paths are parsed (`src/drivers/fs.c`)

`fs_find_parent_dir` hands `fs_parse_path` a copy of the path that it has cut to 255 characters;
`fs_get_filename` hands it the path itself, and the copy `fs_parse_path` makes of 256 characters
or more has no NUL.  So a long path is safe as long as its parent is not found
(`fsParses_inBounds_iff`).

`fsParses` lists the strings that a call has parsed.  `fsParsePath` is `none` where the tokenizer
leaves its buffer.
-/

namespace AceOS.Drivers.Fs

open Memory

/-! ### The strings parsed -/

inductive PathCall
  | find
  | mkdir
  | create
  | delete
  deriving DecidableEq

section Parses

variable (fs : Filesystem) (path : List UInt8)

/-- By `fs_find_parent_dir`. -/
def parentParses : List (List UInt8) :=
  if fsIsRoot path then [] else [path.take (fsMaxPathLen - 1)]

/-- By `fs_find`. -/
def findParses : List (List UInt8) :=
  if fsIsRoot path then []
  else
    parentParses path ++
      match fsFindParentDir fs path with
      | some parentDir => if parentDir < 0 then [] else [path]
      | none => []

/-- By the call that makes a new entry: `full` is its check of the tables. -/
def newEntryParses (full : Bool) : List (List UInt8) :=
  match fsFind fs path with
  | none => findParses fs path
  | some existing =>
      if 0 ≤ existing then findParses fs path
      else
        findParses fs path ++ parentParses path ++
          match fsFindParentDir fs path with
          | none => []
          | some parentDir =>
              if parentDir < 0 ∨ full then []
              else
                match fs.getDir parentDir.toNat with
                | some d => if fsMaxFilesPerDir ≤ d.files.length then [] else [path]
                | none => []

def fsParses (call : PathCall) : List (List UInt8) :=
  match call with
  | .find => findParses fs path
  | .mkdir =>
      if !fs.initialized then [] else newEntryParses fs path (fsMaxDirectories ≤ fs.dirCount)
  | .create => if !fs.initialized then [] else newEntryParses fs path (fsMaxFiles ≤ fs.fileCount)
  | .delete => if !fs.initialized then [] else findParses fs path

/-- The first 255 characters lead to a directory for the last component. -/
def ParentFound : Prop :=
  ∃ d : Nat, fsWalk fs (components (path.take (fsMaxPathLen - 1))).dropLast 0 = some (d : Int)

end Parses

/-! ### Paths that fit -/

section InBounds

variable {fs : Filesystem} {path : List UInt8}

theorem components_length_le (path : List UInt8) : (components path).length ≤ path.length := by
  induction hn : path.length using Nat.strong_induction_on generalizing path with
  | _ n ih =>
      rcases path_cases path with ⟨k, rfl⟩ | ⟨k, t, ht, rfl | ⟨r, rfl⟩⟩
      · rw [← List.append_nil (List.replicate k slash), components_slashes_append]
        exact Nat.zero_le n
      · have hpos := List.length_pos_iff.mpr ht.ne_nil
        rw [components_slashes_append, components_of_isComponent ht, List.length_singleton]
        rw [List.length_append] at hn
        omega
      · have hpos := List.length_pos_iff.mpr ht.ne_nil
        simp only [List.length_append, List.length_cons] at hn
        have hr := ih r.length (by omega) r rfl
        rw [components_slashes_append, components_append_slash ht, List.length_cons]
        omega

theorem fsParsePath_take (h0 : (0 : UInt8) ∉ path) :
    fsParsePath (path.take (fsMaxPathLen - 1))
      = some (components (path.take (fsMaxPathLen - 1))) := by
  refine fsParsePath_eq ?_ (fun h => h0 (List.mem_of_mem_take h))
  exact Nat.lt_of_le_of_lt (List.length_take_le ..) (by decide)

theorem fsFindParentDir_nonneg (hroot : ¬fsIsRoot path = true) (h0 : (0 : UInt8) ∉ path) {e : Int}
    (he : 0 ≤ e) : fsFindParentDir fs path = some e ↔
      fsWalk fs (components (path.take (fsMaxPathLen - 1))).dropLast 0 = some (e.toNat : Int) := by
  rw [fsFindParentDir, if_neg hroot, fsParsePath_take h0, Int.toNat_of_nonneg he]
  rfl

/-- A call parses the cut path, and the path itself only with a parent found. -/
theorem mem_findParses {p : List UInt8} (h : p ∈ findParses fs path) :
    p = path.take (fsMaxPathLen - 1) ∨
      p = path ∧ ∃ e : Int, 0 ≤ e ∧ fsFindParentDir fs path = some e := by
  rw [findParses, parentParses] at h
  split at h
  · exact absurd h List.not_mem_nil
  · rcases List.mem_append.mp h with h | h
    · exact Or.inl (List.mem_singleton.mp h)
    · split at h
      · split at h
        · exact absurd h List.not_mem_nil
        · rename_i e he hneg
          exact Or.inr ⟨List.mem_singleton.mp h, e, Int.not_lt.mp hneg, he⟩
      · exact absurd h List.not_mem_nil

theorem mem_newEntryParses {p : List UInt8} {full : Bool} (h : p ∈ newEntryParses fs path full) :
    p = path.take (fsMaxPathLen - 1) ∨
      p = path ∧ ∃ e : Int, 0 ≤ e ∧ fsFindParentDir fs path = some e := by
  rw [newEntryParses] at h
  split at h
  · exact mem_findParses h
  · split at h
    · exact mem_findParses h
    · rcases List.mem_append.mp h with h | h
      · rcases List.mem_append.mp h with h | h
        · exact mem_findParses h
        · rw [parentParses] at h
          split at h
          · exact absurd h List.not_mem_nil
          · exact Or.inl (List.mem_singleton.mp h)
      · split at h
        · exact absurd h List.not_mem_nil
        · rename_i e he
          split at h
          · exact absurd h List.not_mem_nil
          · rename_i hfull
            have hnonneg := Int.not_lt.mp (not_or.mp hfull).1
            split at h
            · split at h
              · exact absurd h List.not_mem_nil
              · exact Or.inr ⟨List.mem_singleton.mp h, e, hnonneg, he⟩
            · exact absurd h List.not_mem_nil

theorem mem_fsParses {p : List UInt8} {call : PathCall} (h : p ∈ fsParses fs path call) :
    p = path.take (fsMaxPathLen - 1) ∨
      p = path ∧ ∃ e : Int, 0 ≤ e ∧ fsFindParentDir fs path = some e := by
  cases call with
  | find => exact mem_findParses h
  | mkdir =>
      rw [fsParses] at h
      split at h
      · exact absurd h List.not_mem_nil
      · exact mem_newEntryParses h
  | create =>
      rw [fsParses] at h
      split at h
      · exact absurd h List.not_mem_nil
      · exact mem_newEntryParses h
  | delete =>
      rw [fsParses] at h
      split at h
      · exact absurd h List.not_mem_nil
      · exact mem_findParses h

theorem fsParses_uninitialized {call : PathCall} (hcall : call ≠ .find)
    (hinit : fs.initialized = false) : fsParses fs path call = [] := by
  cases call with
  | find => exact absurd rfl hcall
  | mkdir | create | delete =>
      rw [fsParses, hinit]
      rfl

theorem self_mem_findParses (hroot : ¬fsIsRoot path = true) (h0 : (0 : UInt8) ∉ path)
    (hp : ParentFound fs path) : path ∈ findParses fs path := by
  obtain ⟨d, hd⟩ := hp
  have hparent : fsFindParentDir fs path = some (d : Int) :=
    (fsFindParentDir_nonneg hroot h0 (Int.natCast_nonneg d)).mpr hd
  rw [findParses, if_neg hroot, hparent]
  dsimp only
  rw [if_neg (Int.not_lt.mpr (Int.natCast_nonneg d))]
  exact List.mem_append_right _ (List.mem_singleton_self path)

theorem findParses_subset_newEntryParses (full : Bool) :
    findParses fs path ⊆ newEntryParses fs path full := by
  intro p hp
  rw [newEntryParses]
  split
  · exact hp
  · split
    · exact hp
    · rw [List.append_assoc]
      exact List.mem_append_left _ hp

theorem self_mem_fsParses (hroot : ¬fsIsRoot path = true) (h0 : (0 : UInt8) ∉ path)
    (hp : ParentFound fs path) (call : PathCall) (hinit : call = .find ∨ fs.initialized = true) :
    path ∈ fsParses fs path call := by
  have hfind := self_mem_findParses hroot h0 hp
  cases call with
  | find => exact hfind
  | mkdir =>
      rw [fsParses, hinit.resolve_left (by decide), if_neg (by decide)]
      exact findParses_subset_newEntryParses _ hfind
  | create =>
      rw [fsParses, hinit.resolve_left (by decide), if_neg (by decide)]
      exact findParses_subset_newEntryParses _ hfind
  | delete =>
      rw [fsParses, hinit.resolve_left (by decide), if_neg (by decide)]
      exact hfind

theorem not_isRoot_of_le (h : fsMaxPathLen ≤ path.length) : ¬fsIsRoot path = true := by
  rw [fsIsRoot, decide_eq_true_iff]
  rintro (rfl | rfl) <;> exact absurd h (by decide)

/-- A path that fits, or has no parent, is parsed like its first 255 characters. -/
theorem fsParsePath_of_mem (h0 : (0 : UInt8) ∉ path)
    (h : path.length ≤ 255 ∨ ¬ParentFound fs path) {call : PathCall} {p : List UInt8}
    (hmem : p ∈ fsParses fs path call) :
    fsParsePath p = some (components (path.take (fsMaxPathLen - 1))) := by
  have hcut := fsParsePath_take h0
  rcases mem_fsParses hmem with rfl | ⟨rfl, e, he, hparent⟩
  · exact hcut
  · by_cases hshort : p.length ≤ 255
    · have htake : p.take (fsMaxPathLen - 1) = p := List.take_of_length_le hshort
      rwa [htake] at hcut ⊢
    · have hroot := not_isRoot_of_le (Nat.not_le.mp hshort)
      exact absurd ⟨_, (fsFindParentDir_nonneg hroot h0 he).mp hparent⟩ (h.resolve_left hshort)

/-- **Path parsing stays in its buffer**, and the parent and the name are read off the same
components, if and only if the path has at most 255 characters, or the file system is not
initialized and the call looks, or no parent is found for the first 255 characters. -/
theorem fsParses_inBounds_iff (call : PathCall) (h0 : (0 : UInt8) ∉ path) :
    (∃ parts : List (List UInt8), parts.length ≤ fsMaxPathLen ∧
        ∀ p ∈ fsParses fs path call, fsParsePath p = some parts) ↔
      path.length ≤ 255 ∨ (call ≠ .find ∧ fs.initialized = false) ∨ ¬ParentFound fs path := by
  have hparts : (components (path.take (fsMaxPathLen - 1))).length ≤ fsMaxPathLen := by
    have hle := components_length_le (path.take (fsMaxPathLen - 1))
    exact (hle.trans (List.length_take_le ..)).trans (by decide)
  constructor
  · rintro ⟨parts, -, hparse⟩
    by_contra hno
    rw [not_or, not_or, not_not] at hno
    obtain ⟨hlong, hcall, hp⟩ := hno
    have hle : fsMaxPathLen ≤ path.length := Nat.not_le.mp hlong
    have hinit : call = .find ∨ fs.initialized = true := by
      by_cases hf : call = .find
      · exact Or.inl hf
      · exact Or.inr (by simpa using fun h => hcall ⟨hf, h⟩)
    have hself := hparse path (self_mem_fsParses (not_isRoot_of_le hle) h0 hp call hinit)
    rw [fsParsePath_of_le hle h0] at hself
    exact absurd hself (by simp)
  · rintro (hshort | ⟨hcall, hinit⟩ | hp)
    · exact ⟨_, hparts, fun p hmem => fsParsePath_of_mem h0 (Or.inl hshort) hmem⟩
    · refine ⟨[], Nat.zero_le _, fun p hmem => ?_⟩
      rw [fsParses_uninitialized hcall hinit] at hmem
      exact absurd hmem List.not_mem_nil
    · exact ⟨_, hparts, fun p hmem => fsParsePath_of_mem h0 (Or.inr hp) hmem⟩

/-! ### The calls -/

theorem fsFind_none (hroot : ¬fsIsRoot path = true) {e : Int} (he : 0 ≤ e)
    (hparent : fsFindParentDir fs path = some e) (hp : fsParsePath path = none) :
    fsFind fs path = none := by
  have hname : fsGetFilename path = none := by
    rw [fsGetFilename, hp]
    rfl
  rw [fsFind, if_neg hroot, hparent, Option.bind_eq_bind, Option.bind_some,
    if_neg (Int.not_lt.mpr he), hname]
  rfl

theorem fsParses_none {σ : Type} (A : Allocator σ) {st : FsState σ} {call : PathCall}
    {p : List UInt8} (h0 : (0 : UInt8) ∉ path) (hmem : p ∈ fsParses st.fs path call)
    (hp : fsParsePath p = none) :
    match call with
    | .find => fsFind st.fs path = none
    | .mkdir => fsMkdir path st.fs = none
    | .create => ∀ size, fsCreate A path size st = none
    | .delete => fsDelete A path st = none := by
  have hinit : call = .find ∨ st.fs.initialized = true := by
    by_contra hno
    obtain ⟨hcall, hinit⟩ := not_or.mp hno
    rw [Bool.not_eq_true] at hinit
    rw [fsParses_uninitialized hcall hinit] at hmem
    exact absurd hmem List.not_mem_nil
  obtain ⟨rfl, e, he, hparent⟩ : p = path ∧ ∃ e : Int, 0 ≤ e ∧
      fsFindParentDir st.fs path = some e := by
    refine (mem_fsParses hmem).resolve_left fun h => ?_
    rw [h, fsParsePath_take h0] at hp
    exact absurd hp (by simp)
  have hroot : ¬fsIsRoot p = true := by
    refine not_isRoot_of_le (Nat.not_lt.mp fun hlt => ?_)
    rw [fsParsePath_eq hlt h0] at hp
    exact absurd hp (by simp)
  have hfind := fsFind_none hroot he hparent hp
  cases call with
  | find => exact hfind
  | mkdir =>
      dsimp only
      rw [fsMkdir, hinit.resolve_left (by decide), if_neg (by decide), hfind]
      rfl
  | create =>
      intro size
      rw [fsCreate, hinit.resolve_left (by decide), if_neg (by decide), hfind]
      rfl
  | delete =>
      dsimp only
      rw [fsDelete, hinit.resolve_left (by decide), if_neg (by decide), if_neg hroot, hfind]
      rfl

/-- `/a/b` is to be created, and `/a` is there: each of the four times the path is parsed, its
two components are found. -/
theorem fsParses_inBounds_nested : ∃ st, fsStep noMemory (.mkdir pathA)
      (fsInitState () ⟨fun _ => 0⟩) = some (0, st) ∧
    fsParses st.fs (pathA ++ [slash, 98]) .create = List.replicate 4 (pathA ++ [slash, 98]) ∧
    ∃ parts : List (List UInt8), parts.length ≤ fsMaxPathLen ∧ parts = [[97], [98]] ∧
      ∀ p ∈ fsParses st.fs (pathA ++ [slash, 98]) .create, fsParsePath p = some parts := by
  have hparse : fsParsePath (pathA ++ [slash, 98]) = some [[97], [98]] := by decide +kernel
  refine ⟨_, fsInitState_mkdir (show IsPath pathA by decide) (by decide), by decide +kernel, ?_⟩
  obtain ⟨parts, hlen, hall⟩ := (fsParses_inBounds_iff .create (by decide)).mpr
    (Or.inl (show (pathA ++ [slash, 98]).length ≤ 255 by decide))
  refine ⟨parts, hlen, ?_, hall⟩
  have hself := hall (pathA ++ [slash, 98]) (by decide +kernel)
  exact Option.some.inj (hself.symm.trans hparse)

/-- 256 characters that name something in the root: the name is read out of the buffer. -/
theorem fsParses_outOfBounds :
    List.replicate 256 97 ∈ fsParses fsInit (List.replicate 256 97) .find ∧
    fsParsePath (List.replicate 256 97) = none ∧
    ¬∃ parts : List (List UInt8), parts.length ≤ fsMaxPathLen ∧
      ∀ p ∈ fsParses fsInit (List.replicate 256 97) .find, fsParsePath p = some parts := by
  have h0 : (0 : UInt8) ∉ List.replicate 256 97 :=
    fun h => absurd (List.mem_replicate.mp h).2 (by decide)
  have hlen : fsMaxPathLen ≤ (List.replicate 256 (97 : UInt8)).length :=
    (List.length_replicate ..).ge
  have hnone := fsParsePath_of_le hlen h0
  have hcomponent : IsComponent (List.replicate 255 97) :=
    ⟨List.replicate_succ_ne_nil, fun h => absurd (List.mem_replicate.mp h).2 (by decide)⟩
  have hparent : ParentFound fsInit (List.replicate 256 97) := by
    refine ⟨0, ?_⟩
    have hmin : min (fsMaxPathLen - 1) 256 = 255 := rfl
    rw [List.take_replicate, hmin, components_of_isComponent hcomponent]
    rfl
  have hself := self_mem_fsParses (not_isRoot_of_le hlen) h0 hparent .find (Or.inl rfl)
  refine ⟨hself, hnone, ?_⟩
  rintro ⟨parts, -, hparse⟩
  exact absurd (hnone.symm.trans (hparse _ hself)) (by simp)

end InBounds

end AceOS.Drivers.Fs
