import AceOS.Drivers.Fs.Capacity
import AceOS.Drivers.Fs.CurrentDir

/-!
# The parent of the current directory

`cd ..` cuts the text of the current directory at its last slash, while the lookup that let
the text in does not mind slashes at the end or several in a row.  The cut is the parent when
the text is `Tidy`, and only then (`fsChangeDir_parent_iff`): from `"/a/"` it is the same
directory again, and from `"///a"` it is a text that is not the root's.
-/

namespace AceOS.Drivers.Fs

open Filesystem Memory

variable {σ : Type} {A : Allocator σ} {st : FsState σ} {fs : Filesystem} {a b : List UInt8}
  {i : Nat}

def LeadsToDir (fs : Filesystem) (path : List UInt8) (q : Nat) : Prop :=
  if q = 0 then path = [slash]
  else ∃ i : Nat, fsFind fs path = some (i : Int) ∧ (fs.files i).type = .directory ∧
    EntryOfSlot fs i q

/-- No slash at the end, and at most two before a single component.  The text `"//"` leads to
a directory of the root, too, when that has one without a name. -/
def Tidy (cwd : List UInt8) : Prop :=
  cwd = [slash, slash] ∨ (cwd.getLast? ≠ some slash ∧
    ((components cwd).length = 1 → ¬[slash, slash, slash] <+: cwd))

instance (cwd : List UInt8) : Decidable (Tidy cwd) :=
  inferInstanceAs (Decidable (_ ∨ _))

/-! ### Texts -/

theorem getLast?_append_slash (hb : slash ∉ b) :
    (a ++ slash :: b).getLast? = some slash ↔ b = [] := by
  rw [List.getLast?_append_cons]
  constructor
  · intro hlast
    by_contra hne
    obtain ⟨c, l, rfl⟩ := List.exists_cons_of_ne_nil hne
    rw [List.getLast?_cons_cons] at hlast
    exact hb (List.mem_of_getLast? hlast)
  · rintro rfl
    rfl

/-- The text before the last slash of `"/…/b"` is `""` or `"/"`, unless three slashes come
first. -/
theorem slashes_short (n : Nat) (hb : slash ∉ b) :
    ¬[slash, slash, slash] <+: List.replicate n slash ++ slash :: b ↔ n ≤ 1 := by
  rcases n with - | - | n
  · refine iff_of_true ?_ (Nat.zero_le 1)
    rintro ⟨l, hl⟩
    rw [List.replicate_zero, List.nil_append, List.cons_append, List.cons.injEq] at hl
    exact hb (hl.2 ▸ List.mem_cons_self ..)
  · refine iff_of_true ?_ (Nat.le_refl 1)
    rintro ⟨l, hl⟩
    rw [List.replicate_one, List.singleton_append, List.cons_append, List.cons_append,
      List.cons.injEq, List.cons.injEq] at hl
    exact hb (hl.2.2 ▸ List.mem_cons_self ..)
  · refine iff_of_false (not_not.mpr ?_) (by omega)
    have hlist : List.replicate (n + 1 + 1) slash ++ slash :: b
        = List.replicate (n + 1 + 1 + 1) slash ++ b := by
      rw [List.replicate_succ' (n := n + 1 + 1), List.append_assoc]
      rfl
    rw [hlist]
    exact ⟨List.replicate n slash ++ b, rfl⟩

theorem tidy_slash : Tidy (a ++ [slash]) ↔ a = [slash] := by
  constructor
  · rintro (heq | ⟨hne, -⟩)
    · exact (List.append_left_inj [slash]).mp heq
    · exact absurd ((getLast?_append_slash List.not_mem_nil).mpr rfl) hne
  · rintro rfl
    exact Or.inl rfl

theorem tidy_component (hbne : b ≠ []) (hb : slash ∉ b) : Tidy (a ++ slash :: b) ↔
    (components a = [] → ¬[slash, slash, slash] <+: a ++ slash :: b) := by
  have hlast := getLast?_append_slash (a := a) hb
  have hdouble : a ++ slash :: b ≠ [slash, slash] := by
    intro heq
    exact hbne (hlast.mp (by rw [heq]; rfl))
  have hone : (components (a ++ slash :: b)).length = 1 ↔ components a = [] := by
    rw [components_append, components_of_isComponent ⟨hbne, hb⟩, List.length_append,
      List.length_singleton, Nat.add_eq_right, List.length_eq_zero_iff]
  rw [Tidy, or_iff_right hdouble, hone]
  exact and_iff_right fun heq => hbne (hlast.mp heq)

/-! ### The parent -/

/-- In a text with a slash at its end the cut leaves what the text leads to, so it is the
parent only for `"//"`, an entry of the root without a name. -/
theorem FsTree.leadsToDir_slash (h : FsTree fs) (hp : IsPath a)
    (hl : lookup fs (a ++ [slash]) = some i) :
    LeadsToDir fs (if a = [] then [slash] else a) (fs.files i).parentDir ↔ a = [slash] := by
  obtain ⟨hroot, hr⟩ := lookup_eq_some.mp hl
  obtain ⟨q, hq, hqlt, -, -, hparent⟩ := h.resolve_some hr
  have ha : a ≠ [] := by
    rintro rfl
    exact absurd hroot (by decide)
  rw [hparent, if_neg ha, LeadsToDir]
  rw [components_append, components_nil, List.append_nil] at hr hq
  by_cases hnil : components a = []
  · rw [hnil, parentOf, List.dropLast_nil, walk, Option.some.injEq] at hq
    rw [if_pos hq.symm]
  · have haroot : a ≠ [slash] := by
      rintro rfl
      exact hnil rfl
    refine iff_of_false ?_ haroot
    split
    · exact haroot
    · rename_i hq0
      rintro ⟨j, hj, -, hslot⟩
      -- the same directory again, which is not its own parent
      have hja := (h.fsFind_eq_some_iff hp).mp hj
      rw [lookup_of_ne_nil hnil, hr, Option.some.injEq] at hja
      subst hja
      have hlt := h.slot_parent_lt q hqlt (Nat.pos_of_ne_zero hq0)
      rw [hslot.2, hparent] at hlt
      exact Nat.lt_irrefl q hlt

theorem FsTree.leadsToDir_component (h : FsTree fs) (hp : IsPath a) (hbne : b ≠ [])
    (hb : slash ∉ b) (hl : lookup fs (a ++ slash :: b) = some i) :
    LeadsToDir fs (if a = [] then [slash] else a) (fs.files i).parentDir ↔
      (components a = [] → ¬[slash, slash, slash] <+: a ++ slash :: b) := by
  obtain ⟨q, hq, -, -, -, hparent⟩ := h.resolve_some (lookup_eq_some.mp hl).2
  rw [components_append, components_of_isComponent ⟨hbne, hb⟩, parentOf,
    List.dropLast_concat] at hq
  rw [hparent, LeadsToDir]
  by_cases hnil : components a = []
  · -- a directory of the root
    rw [hnil, walk, Option.some.injEq] at hq
    obtain ⟨n, rfl⟩ := components_eq_nil hnil
    rw [if_pos hq.symm, slashes_short n hb, forall_prop_of_true hnil]
    rcases n with - | - | n
    · exact iff_of_true rfl (Nat.zero_le 1)
    · exact iff_of_true rfl (Nat.le_refl 1)
    · refine iff_of_false ?_ (by omega)
      rw [if_neg (by simp)]
      intro heq
      exact absurd (congrArg List.length heq) (by simp)
  · obtain ⟨hq0, j, hj, hjdir, hslot⟩ := h.resolve_of_walk (isParts_components a) hnil hq
    have ha : a ≠ [] := by
      rintro rfl
      exact hnil rfl
    rw [if_neg hq0, if_neg ha]
    refine iff_of_true ⟨j, ?_, hjdir, hslot⟩ fun h' => absurd h' hnil
    rw [h.fsFind_eq_some_iff hp, lookup_of_ne_nil hnil]
    exact hj

/-- **The text before the last slash leads to the parent** of what the whole text leads to if
and only if that is tidy. -/
theorem FsTree.leadsToDir_iff (h : FsTree fs) (hp : IsPath (a ++ slash :: b)) (hb : slash ∉ b)
    (hl : lookup fs (a ++ slash :: b) = some i) :
    LeadsToDir fs (if a = [] then [slash] else a) (fs.files i).parentDir ↔
      Tidy (a ++ slash :: b) := by
  have hpa : IsPath a := by
    refine ⟨fun hmem => hp.noNul (List.mem_append_left _ hmem), ?_⟩
    have hlen := hp.length_lt
    rw [List.length_append] at hlen
    omega
  by_cases hbne : b = []
  · subst hbne
    rw [tidy_slash]
    exact h.leadsToDir_slash hpa hl
  · rw [tidy_component hbne hb]
    exact h.leadsToDir_component hpa hbne hb hl

/-- **`cd ..` goes to the parent** if and only if the text of the current directory is tidy,
and stays in the root. -/
theorem fsChangeDir_parent_iff (A : Allocator σ) (heap : σ) (mem : Mem) (ops : List FsOp)
    (h0 : ∀ op ∈ ops, ∀ path ∈ op.paths, (0 : UInt8) ∉ path) (os : List Int) (st : FsState σ)
    (hrun : Machine.run (fsStep A) ops (fsInitState heap mem) = some (os, st)) :
    (∀ i : Nat, fsFind st.fs st.currentDirectory = some (i : Int) →
      (st.fs.files i).type = .directory →
      ∃ st', fsStep A (.changeDir [dot, dot]) st = some (0, st') ∧
        (LeadsToDir st'.fs st'.currentDirectory (st.fs.files i).parentDir ↔
          Tidy st.currentDirectory)) ∧
    (st.currentDirectory = [slash] → fsStep A (.changeDir [dot, dot]) st = some (0, st)) := by
  have hI := fsRun_text h0 (fsInitState_inv heap mem) hrun
  refine ⟨?_, hI.tree.fsChangeDir_root⟩
  intro i hi _
  have hl := (hI.tree.fsFind_eq_some_iff hI.cwd.toIsPath).mp hi
  have hroot : st.currentDirectory ≠ [slash] := by
    intro heq
    rw [heq] at hl
    exact absurd hl (by rw [lookup, if_pos (by decide)]; simp)
  obtain ⟨a, b, hab, hb⟩ := exists_last_slash (List.mem_of_mem_head? hI.cwd.absolute)
  refine ⟨_, hI.tree.fsChangeDir_dots hroot hab hb, ?_⟩
  have hp := hI.cwd.toIsPath
  rw [hab] at hl hp ⊢
  exact hI.tree.leadsToDir_iff hp hb hl

theorem fsChangeDir_parent_pathA : ∃ os st st', Machine.run (fsStep noMemory)
      [.mkdir pathA, .changeDir pathA] (fsInitState () ⟨fun _ => 0⟩) = some (os, st) ∧
    fsStep noMemory (.changeDir [dot, dot]) st = some (0, st') ∧
    LeadsToDir st'.fs st'.currentDirectory (st.fs.files 0).parentDir := by
  have hrun : (Machine.run (fsStep noMemory) [.mkdir pathA, .changeDir pathA]
      (fsInitState () ⟨fun _ => 0⟩)).map (fun r => decide (r.2.currentDirectory = pathA ∧
        fsFind r.2.fs pathA = some 0 ∧ (r.2.fs.files 0).type = .directory)) = some true := by
    decide +kernel
  obtain ⟨⟨os, st⟩, hrun, hst⟩ := Option.map_eq_some_iff.mp hrun
  obtain ⟨hcwd, hfind, hdir⟩ := of_decide_eq_true hst
  dsimp only at hcwd hfind hdir
  obtain ⟨hparent, -⟩ := fsChangeDir_parent_iff noMemory () ⟨fun _ => 0⟩
    [.mkdir pathA, .changeDir pathA] (by decide) os st hrun
  obtain ⟨st', hstep, hiff⟩ := hparent 0 (by rw [hcwd]; exact hfind) hdir
  exact ⟨os, st, st', hrun, hstep, hiff.mpr (by rw [hcwd]; decide)⟩

/-- After `cd /a/`, a directory of the root, `cd ..` leads to `/a`. -/
theorem fsChangeDir_slash : ∃ os st st', Machine.run (fsStep noMemory)
      [.mkdir pathA, .changeDir (pathA ++ [slash])] (fsInitState () ⟨fun _ => 0⟩)
        = some (os, st) ∧
    fsFind st.fs st.currentDirectory = some 0 ∧ (st.fs.files 0).type = .directory ∧
    (st.fs.files 0).parentDir = 0 ∧
    fsStep noMemory (.changeDir [dot, dot]) st = some (0, st') ∧ st'.currentDirectory = pathA ∧
    ¬LeadsToDir st'.fs st'.currentDirectory 0 := by
  have hrun : (Machine.run (fsStep noMemory) [.mkdir pathA, .changeDir (pathA ++ [slash])]
      (fsInitState () ⟨fun _ => 0⟩)).map (fun r =>
        decide (fsFind r.2.fs r.2.currentDirectory = some 0 ∧
          (r.2.fs.files 0).type = .directory ∧ (r.2.fs.files 0).parentDir = 0 ∧
          (fsStep noMemory (.changeDir [dot, dot]) r.2).map
            (fun r' => (r'.1, r'.2.currentDirectory)) = some (0, pathA))) = some true := by
    decide +kernel
  obtain ⟨⟨os, st⟩, hrun, hst⟩ := Option.map_eq_some_iff.mp hrun
  obtain ⟨hfind, hdir, hparent, hstep⟩ := of_decide_eq_true hst
  obtain ⟨⟨r, st'⟩, hstep, hst'⟩ := Option.map_eq_some_iff.mp hstep
  obtain ⟨rfl, hcwd⟩ := Prod.mk.inj hst'
  refine ⟨os, st, st', hrun, hfind, hdir, hparent, hstep, hcwd, ?_⟩
  rw [LeadsToDir, if_pos rfl, show st'.currentDirectory = pathA from hcwd]
  decide

end AceOS.Drivers.Fs
