import Mathlib.Logic.Relation
import RootCause.Proofs.Path.Anchoring

/-!
# Cancelling in absolute paths

What the normal form of an absolute path is, said without the way in which it is found: a `..` is
cancelled against the name right before it (`Cancels`), again and again, until no `..` is left
(`Leaves`). Cancelling keeps what is left over (`Cancels.residue_eq`), and so in a path that stays
below the root there is one list of components that is left, in whatever order the `..` are
cancelled, and it is what the normal form is written from (`leaves_iff`). So such a path has a
normal form without `.` and `..`, and shares it with exactly the paths that leave the same
components (`normalize_isCanonical`).
-/

namespace RootCause.Path

open Relation

variable {c : Component} {cs cs' rest : List Component} {p : Path}

/-! ## Cancelling -/

/-- A `..` is cancelled against the name right before it: nothing that is not cancelled stands
between the two. -/
inductive Cancels : List Component → List Component → Prop
  | mk (before : List Component) (s : List Char) (after : List Component) :
    Cancels (before ++ .name s :: .parent :: after) (before ++ after)

/-- Cancelling each `..` against the nearest name before it that is not cancelled yet leaves
`rest`. -/
structure Leaves (cs rest : List Component) : Prop where
  cancels : ReflTransGen Cancels cs rest
  parent_notMem : .parent ∉ rest

theorem Cancels.cons (c : Component) (h : Cancels cs cs') : Cancels (c :: cs) (c :: cs') := by
  cases h with
  | mk before s after => exact .mk (c :: before) s after

theorem Cancels.append (h : Cancels cs cs') (more : List Component) :
    Cancels (cs ++ more) (cs' ++ more) := by
  cases h with
  | mk before s after =>
    have hcancels : Cancels (before ++ .name s :: .parent :: (after ++ more))
        (before ++ (after ++ more)) := .mk before s (after ++ more)
    simpa using hcancels

theorem cancels_concat_name (cs : List Component) (s : List Char) :
    Cancels (cs ++ [.name s] ++ [.parent]) cs := by
  have hcancels : Cancels (cs ++ .name s :: .parent :: []) (cs ++ []) := .mk cs s []
  simpa using hcancels

/-- Cancelling changes nothing about what climbing leaves. -/
theorem Cancels.residue_eq (h : Cancels cs cs') : residue cs = residue cs' := by
  cases h with
  | mk before s after =>
    rw [residue, residue, List.foldl_append, List.foldl_append]
    rfl

theorem residue_eq_of_cancels (h : ReflTransGen Cancels cs cs') : residue cs = residue cs' := by
  induction h with
  | refl => rfl
  | tail _ h ih => rw [ih, h.residue_eq]

/-- What does not climb cancels down to names. -/
theorem cancels_names (hcs : ∀ c ∈ cs, c.IsInner) (hclimbs : (residue cs).climbs = 0) :
    ReflTransGen Cancels cs ((residue cs).names.reverse.map Component.name) := by
  induction cs using List.reverseRecOn with
  | nil => exact .refl
  | append_singleton cs c ih =>
    obtain ⟨hcs, hc⟩ := List.forall_mem_append.mp hcs
    have hle := climbs_le_climbs_step (residue cs) c
    rw [← residue_concat, hclimbs] at hle
    have hbefore := (ih hcs (Nat.le_zero.mp hle)).lift (· ++ [c]) fun _ _ h => h.append [c]
    rw [residue_concat] at hclimbs ⊢
    cases hc c (List.mem_singleton_self c) with
    | name hs => simpa [Residue.step] using hbefore
    | parent =>
      rcases hr : residue cs with ⟨k, _ | ⟨s, names⟩⟩
      · rw [hr] at hclimbs
        exact absurd hclimbs (Nat.succ_ne_zero k)
      · rw [hr] at hbefore
        refine hbefore.tail ?_
        simpa [Residue.step] using cancels_concat_name (names.reverse.map Component.name) s

/-! ## Paths below the root -/

/-- A path starts at the root and never climbs above it: no prefix has more `..` than names. -/
structure StaysBelowRoot (p : Path) : Prop where
  isAbsolute : p.isAbsolute = true
  climbs : ClimbsAtMost 0 p.components

/-- The components of an absolute path: the root, and then names and `..` in any order. -/
inductive IsRooted : List Component → Prop
  | mk {cs : List Component} (h : ∀ c ∈ cs, c.IsInner) : IsRooted (.root :: cs)

theorem Cancels.isRooted (h : Cancels cs cs') (hcs : IsRooted cs) : IsRooted cs' := by
  cases h with
  | mk before s after =>
    cases before with
    | nil => cases hcs
    | cons c before =>
      rw [List.cons_append] at hcs
      cases hcs with
      | mk hinner =>
        obtain ⟨hbefore, hafter⟩ := List.forall_mem_append.mp hinner
        refine .mk (List.forall_mem_append.mpr ⟨hbefore, fun c hc => hafter c ?_⟩)
        exact List.mem_cons_of_mem _ (List.mem_cons_of_mem _ hc)

theorem isRooted_of_cancels (h : ReflTransGen Cancels cs cs') (hcs : IsRooted cs) :
    IsRooted cs' := by
  induction h with
  | refl => exact hcs
  | tail _ h ih => exact h.isRooted ih

theorem isRooted_components (h : p.isAbsolute = true) : IsRooted p.components := by
  obtain ⟨s, -, hcomponents⟩ := exists_components_of_isAbsolute h
  exact hcomponents ▸ .mk fun c hc => isInner_of_mem_pieces hc

theorem residue_names (names : List (List Char)) :
    residue (.root :: names.map Component.name) = ⟨0, names.reverse⟩ := by
  have hnames := foldl_step_names names ⟨0, []⟩
  rwa [List.append_nil] at hnames

/-- Below the root, components without `..` are the root and what climbing leaves. -/
theorem IsRooted.eq_of_parent_notMem (h : IsRooted cs) (hparent : .parent ∉ cs) :
    cs = .root :: (residue cs).names.reverse.map Component.name := by
  cases h with
  | @mk cs hinner =>
    have hname : ∀ c ∈ cs, ∃ s, Component.name s = c := fun c hc => by
      cases hinner c hc with
      | name => exact ⟨_, rfl⟩
      | parent => exact absurd (List.mem_cons_of_mem _ hc) hparent
    obtain ⟨names, rfl⟩ := (Set.range_list_map Component.name).ge hname
    rw [residue_names, List.reverse_reverse]

theorem IsRooted.normalComponents_eq (h : IsRooted cs) (hclimbs : (residue cs).climbs = 0) :
    normalComponents cs = .root :: (residue cs).names.reverse.map Component.name := by
  cases h with
  | @mk cs hinner =>
    have hroot : .root ∉ cs := fun hmem => by cases hinner _ hmem
    have hfold : cs.foldl Component.resolve [.root] =
        (residue cs).names.map Component.name ++ [.root] :=
      foldl_resolve (fun _ => [.root]) hroot fun k hk => absurd hk (hclimbs ▸ Nat.not_lt_zero k)
    rw [normalComponents, List.foldl_cons]
    change (cs.foldl Component.resolve [.root]).reverse = .root :: (residue cs).names.reverse.map _
    rw [hfold, List.reverse_append, List.map_reverse]
    rfl

theorem IsRooted.cancels (h : IsRooted cs) (hclimbs : (residue cs).climbs = 0) :
    ReflTransGen Cancels cs (.root :: (residue cs).names.reverse.map Component.name) := by
  cases h with
  | mk hinner => exact (cancels_names hinner hclimbs).lift (.root :: ·) fun _ _ h => h.cons .root

namespace StaysBelowRoot

theorem climbs_residue (h : p.StaysBelowRoot) : (residue p.components).climbs = 0 :=
  Nat.le_zero.mp (climbsAtMost_iff.mp h.climbs)

theorem components_normalize_eq (h : p.StaysBelowRoot) :
    p.normalize.components =
      .root :: (residue p.components).names.reverse.map Component.name := by
  rw [components_normalize]
  exact (isRooted_components h.isAbsolute).normalComponents_eq h.climbs_residue

/-- Cancelling leaves the components of the normal form, and nothing else. -/
theorem leaves_iff (h : p.StaysBelowRoot) :
    Leaves p.components rest ↔ rest = p.normalize.components := by
  have hrooted := isRooted_components h.isAbsolute
  rw [h.components_normalize_eq]
  constructor
  · intro hrest
    have heq := (isRooted_of_cancels hrest.cancels hrooted).eq_of_parent_notMem hrest.parent_notMem
    rwa [← residue_eq_of_cancels hrest.cancels] at heq
  · rintro rfl
    exact ⟨hrooted.cancels h.climbs_residue, by simp⟩

/-- In normal form, a slash stands before each name, or alone. -/
theorem exists_names_normalize (h : p.StaysBelowRoot) :
    ∃ names : List (List Char), (∀ s ∈ names, IsName s) ∧
      p.normalize.text.toList = '/' :: ['/'].intercalate names := by
  have hrooted : IsRooted p.normalize.components :=
    isRooted_of_cancels (h.leaves_iff.mpr rfl).cancels (isRooted_components h.isAbsolute)
  rw [h.components_normalize_eq] at hrooted
  cases hrooted with
  | mk hinner =>
    refine ⟨(residue p.components).names.reverse, fun s hs => ?_, ?_⟩
    · cases hinner _ (List.mem_map_of_mem hs) with
      | name hs => exact hs
    · have htext : p.normalize.text.toList = write p.normalize.components := by
        rw [components_normalize, normalize, ofComponents, String.toList_ofList]
      rw [htext, h.components_normalize_eq, write_root hinner, List.map_map]
      exact congrArg (fun names => '/' :: ['/'].intercalate names) (List.map_id _)

theorem isAbsolute_normalize (h : p.StaysBelowRoot) : p.normalize.isAbsolute = true := by
  obtain ⟨names, -, htext⟩ := h.exists_names_normalize
  rw [Path.isAbsolute, htext]
  rfl

/-- Between the slashes of the normal form stand names only. -/
theorem eq_nil_or_isName (h : p.StaysBelowRoot) {piece : List Char}
    (hpiece : piece ∈ p.normalize.text.toList.splitOn '/') : piece = [] ∨ IsName piece := by
  obtain ⟨names, hnames, htext⟩ := h.exists_names_normalize
  have hsplit : p.normalize.text.toList.splitOn '/' =
      [] :: (['/'].intercalate names).splitOn '/' := by
    rw [htext]
    exact Text.splitOn_append_cons List.not_mem_nil _
  rw [hsplit, List.mem_cons] at hpiece
  rcases hpiece with rfl | hpiece
  · exact .inl rfl
  · cases names with
    | nil => exact .inl (List.mem_singleton.mp hpiece)
    | cons s names =>
      have hslash : ∀ name ∈ s :: names, '/' ∉ name := fun name hname => (hnames name hname).slash
      rw [List.splitOn_intercalate '/' hslash (List.cons_ne_nil _ _)] at hpiece
      exact .inr (hnames piece hpiece)

end StaysBelowRoot

/-- **Paths below the root have a canonical form.** A path in normal form is its own normal form. If
an absolute path never climbs above the root, its normal form is absolute and has neither `.` nor
`..` between its slashes; cancelling each `..` against the nearest name before it that is not
cancelled yet leaves the same components in whatever order it is done, and two such paths have the
same normal form if and only if they leave the same components. -/
theorem normalize_isCanonical :
    (∀ p : Path, p.normalize.normalize = p.normalize) ∧
    (∀ p : Path, p.StaysBelowRoot →
      p.normalize.isAbsolute = true ∧
      (∀ piece ∈ p.normalize.text.toList.splitOn '/', piece ≠ ['.'] ∧ piece ≠ ['.', '.']) ∧
      ∃! rest, Leaves p.components rest) ∧
    ∀ p q : Path, p.StaysBelowRoot → q.StaysBelowRoot →
      (p.normalize = q.normalize ↔
        ∃ rest, Leaves p.components rest ∧ Leaves q.components rest) := by
  refine ⟨normalize_normalize, fun p hp => ⟨hp.isAbsolute_normalize, fun piece hpiece => ?_, ?_⟩,
    fun p q hp hq => ?_⟩
  · rcases hp.eq_nil_or_isName hpiece with rfl | hname
    · exact ⟨by simp, by simp⟩
    · exact ⟨hname.ne_current, hname.ne_parent⟩
  · exact ⟨_, hp.leaves_iff.mpr rfl, fun rest hrest => hp.leaves_iff.mp hrest⟩
  · rw [normalize_eq_normalize_iff, ← components_normalize, ← components_normalize]
    constructor
    · intro heq
      exact ⟨_, hp.leaves_iff.mpr rfl, hq.leaves_iff.mpr heq⟩
    · rintro ⟨rest, hrestP, hrestQ⟩
      rw [← hp.leaves_iff.mp hrestP, ← hq.leaves_iff.mp hrestQ]

/-- Two ways to a file: with a `..` for each of two names, and with a `.` and two slashes. -/
theorem normalize_detour :
    let p : Path := ⟨"/repo/app/src/../../lib/b.ts"⟩
    let q : Path := ⟨"/repo/./x/..//lib/b.ts"⟩
    p.StaysBelowRoot ∧ q.StaysBelowRoot ∧ p.normalize = ⟨"/repo/lib/b.ts"⟩ ∧
      p.normalize = q.normalize := by
  intro p q
  have hp : p.StaysBelowRoot := ⟨by decide +kernel, by decide +kernel⟩
  have hq : q.StaysBelowRoot := ⟨by decide +kernel, by decide +kernel⟩
  let name (s : String) : Component := .name s.toList
  have hpComponents : p.components =
      [.root, name "repo", name "app", name "src", .parent, .parent, name "lib", name "b.ts"] := by
    decide +kernel
  have hqComponents : q.components =
      [.root, name "repo", name "x", .parent, name "lib", name "b.ts"] := by decide +kernel
  refine ⟨hp, hq, by decide +kernel, (normalize_isCanonical.2.2 p q hp hq).mpr
    ⟨[.root, name "repo", name "lib", name "b.ts"], ⟨?_, by decide⟩, ⟨?_, by decide⟩⟩⟩
  · rw [hpComponents]
    refine .head (.mk [.root, name "repo", name "app"] _ [.parent, name "lib", name "b.ts"]) ?_
    exact .single (.mk [.root, name "repo"] _ [name "lib", name "b.ts"])
  · rw [hqComponents]
    exact .single (.mk [.root, name "repo"] _ [name "lib", name "b.ts"])

end RootCause.Path
