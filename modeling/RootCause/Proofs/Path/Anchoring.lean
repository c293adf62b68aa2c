import Mathlib.Data.List.Infix
import Mathlib.Data.Set.List
import RootCause.Proofs.Path.NormalForm

/-!
# Relative paths below a directory

What a relative path leads to, seen from a directory. Cancelling each `..` against the nearest name
before it leaves some `..`, which climb, and names after them (`residue`); the path climbs at most
`n` directories if no prefix has more than `n` more `..` than names (`climbsAtMost_iff`). From a
directory that is deep enough, the path leads to the names in the directory that is reached by
climbing (`foldl_resolve`).

The normal form of a relative path cannot keep more than one `..`: a second one cancels the first.
So normalizing a relative path before it is joined to a directory changes where it leads, unless it
climbs at most one directory (`normalize_join_normalize_iff`).
-/

namespace RootCause.Path

/-- Whether a component is a name. -/
def Component.isName : Component → Bool
  | .name _ => true
  | _ => false

/-- Components never lead more than `n` directories above the one they start from. -/
def ClimbsAtMost (n : Nat) (cs : List Component) : Prop :=
  ∀ pre, pre <+: cs → pre.count .parent ≤ n + pre.countP Component.isName

instance (n : Nat) (cs : List Component) : Decidable (ClimbsAtMost n cs) :=
  decidable_of_iff (∀ pre ∈ cs.inits, pre.count .parent ≤ n + pre.countP Component.isName)
    (by simp only [ClimbsAtMost, List.mem_inits])

/-- The number of directories on the way to a path. -/
def depth (p : Path) : Nat := p.components.countP Component.isName

/-! ## What climbing leaves -/

/-- What is left of components when each `..` is cancelled against the nearest name before it. -/
structure Residue where
  /-- How many `..` are left, which stand before the names. -/
  climbs : Nat
  /-- The names, the last one first. -/
  names : List (List Char)

/-- What is left after a further component. -/
def Residue.step (r : Residue) : Component → Residue
  | .parent =>
    match r.names with
    | [] => { r with climbs := r.climbs + 1 }
    | _ :: rest => { r with names := rest }
  | .name s => { r with names := s :: r.names }
  | .root | .current => r

/-- What is left of some components. -/
def residue (cs : List Component) : Residue := cs.foldl Residue.step ⟨0, []⟩

variable {c : Component} {cs : List Component} {n : Nat}

theorem residue_concat (cs : List Component) (c : Component) :
    residue (cs ++ [c]) = (residue cs).step c := by
  rw [residue, List.foldl_append]
  rfl

theorem climbs_le_climbs_step (r : Residue) (c : Component) : r.climbs ≤ (r.step c).climbs := by
  rcases r with ⟨k, _ | ⟨s, names⟩⟩ <;> cases c <;> simp [Residue.step]

/-- Every `..` climbs or cancels a name. -/
theorem count_parent_add_length_names (cs : List Component) :
    cs.count .parent + (residue cs).names.length =
      cs.countP Component.isName + (residue cs).climbs := by
  induction cs using List.reverseRecOn with
  | nil => rfl
  | append_singleton cs c ih =>
    rw [residue_concat, List.count_append, List.countP_append]
    rcases hr : residue cs with ⟨k, _ | ⟨s, names⟩⟩ <;> rw [hr] at ih <;>
      cases c <;> simp [Residue.step, Component.isName] at ih ⊢ <;> omega

theorem climbsAtMost_iff : ClimbsAtMost n cs ↔ (residue cs).climbs ≤ n := by
  induction cs using List.reverseRecOn with
  | nil => simp [ClimbsAtMost, residue]
  | append_singleton cs c ih =>
    have hconcat : ClimbsAtMost n (cs ++ [c]) ↔
        (cs ++ [c]).count .parent ≤ n + (cs ++ [c]).countP Component.isName ∧
          ClimbsAtMost n cs := by
      simp only [ClimbsAtMost, List.prefix_concat_iff, forall_eq_or_imp]
    have hcount := count_parent_add_length_names (cs ++ [c])
    have hle := climbs_le_climbs_step (residue cs) c
    have hgrows : (residue (cs ++ [c])).climbs = (residue cs).climbs ∨
        (residue (cs ++ [c])).names = [] := by
      rw [residue_concat]
      rcases residue cs with ⟨k, _ | ⟨s, names⟩⟩ <;> cases c <;> simp [Residue.step]
    rw [hconcat, ih]
    rw [residue_concat] at hcount hgrows ⊢
    constructor
    · rintro ⟨hbefore, hclimbs⟩
      rcases hgrows with hkeep | hnil
      · omega
      · rw [hnil, List.length_nil] at hcount
        omega
    · intro hclimbs
      exact ⟨by omega, by omega⟩

/-- Components lead from `base 0` to the names that are left of them, in what climbing leaves of
the base. -/
theorem foldl_resolve (base : Nat → List Component) (hroot : .root ∉ cs)
    (hbase : ∀ k < (residue cs).climbs, Component.parent.resolve (base k) = base (k + 1)) :
    cs.foldl Component.resolve (base 0) =
      (residue cs).names.map Component.name ++ base (residue cs).climbs := by
  induction cs using List.reverseRecOn with
  | nil => rfl
  | append_singleton cs c ih =>
    obtain ⟨hrootCs, hc⟩ := not_or.mp (mt List.mem_append.mpr hroot)
    rw [residue_concat] at hbase ⊢
    have hbaseCs : ∀ k < (residue cs).climbs, Component.parent.resolve (base k) = base (k + 1) :=
      fun k hk => hbase k (hk.trans_le (climbs_le_climbs_step _ c))
    rw [List.foldl_append, ih hrootCs hbaseCs, List.foldl_cons, List.foldl_nil]
    rcases hr : residue cs with ⟨k, _ | ⟨s, names⟩⟩
    · cases c with
      | root => exact absurd (List.mem_singleton_self _) hc
      | current => rfl
      | parent => exact hbase k (by rw [hr]; exact Nat.lt_succ_self k)
      | name s' => rfl
    · cases c with
      | root => exact absurd (List.mem_singleton_self _) hc
      | current => rfl
      | parent => rfl
      | name s' => rfl

/-! ## Joined paths -/

variable {p base : Path}

theorem Component.IsInner.ne_current (h : c.IsInner) : c ≠ .current := by
  cases h <;> simp

theorem isInner_of_mem_pieces {s : List Char}
    (h : c ∈ (s.splitOn '/').filterMap Component.ofPiece?) : c.IsInner :=
  isInner_of_mem_filterMap (fun _ => Text.notMem_of_mem_splitOn) h

theorem exists_components_of_isAbsolute (h : p.isAbsolute = true) :
    ∃ s, p.text.toList = '/' :: s ∧
      p.components = .root :: (s.splitOn '/').filterMap Component.ofPiece? := by
  obtain ⟨s, hs⟩ : ∃ s, p.text.toList = '/' :: s :=
    List.head?_eq_some_iff.mp (by simpa [isAbsolute] using h)
  exact ⟨s, hs, by rw [components, hs, componentsOf]⟩

/-- A relative path has the components that its pieces stand for, but for a `.` at its start. -/
theorem filter_components (h : p.isAbsolute = false) :
    p.components.filter (· ≠ .current) =
      (p.text.toList.splitOn '/').filterMap Component.ofPiece? := by
  have hhead : p.text.toList.head? ≠ some '/' := by simpa [isAbsolute] using h
  have hkeep : ∀ {pieces : List (List Char)}, (∀ piece ∈ pieces, '/' ∉ piece) →
      (pieces.filterMap Component.ofPiece?).filter (· ≠ .current) =
        pieces.filterMap Component.ofPiece? := fun hpieces =>
    List.filter_eq_self.mpr fun c hc => by
      simpa using (isInner_of_mem_filterMap hpieces hc).ne_current
  obtain ⟨first, pieces, hpieces⟩ := List.exists_cons_of_ne_nil
    (List.splitOn_ne_nil '/' p.text.toList)
  have hslash : ∀ piece ∈ first :: pieces, '/' ∉ piece :=
    fun piece hpiece => Text.notMem_of_mem_splitOn (hpieces ▸ hpiece)
  by_cases hfirst : first = ['.']
  · subst hfirst
    rw [components, componentsOf_of_current hhead hpieces, hpieces,
      List.filter_cons_of_neg (by simp), hkeep (List.forall_mem_cons.mp hslash).2]
    rfl
  · rw [components, componentsOf_of_ne_current hhead hpieces hfirst, hpieces, hkeep hslash]

theorem root_notMem_components (h : p.isAbsolute = false) : .root ∉ p.components := by
  intro hmem
  have hroot : .root ∈ p.components.filter (· ≠ .current) := List.mem_filter.mpr ⟨hmem, by simp⟩
  rw [filter_components h] at hroot
  cases isInner_of_mem_pieces hroot

/-- Below a directory stand the components of a relative path after those of the directory. -/
theorem components_join (hbase : base.isAbsolute = true) (hp : p.isAbsolute = false) :
    (base.join p.text).components = base.components ++ p.components.filter (· ≠ .current) := by
  have hhead : p.text.toList.head? ≠ some '/' := by simpa [isAbsolute] using hp
  obtain ⟨s, htext, hcomponents⟩ := exists_components_of_isAbsolute hbase
  obtain ⟨t, ht, hpieces⟩ : ∃ t, push ('/' :: s) p.text.toList = '/' :: t ∧
      (t.splitOn '/').filterMap Component.ofPiece? =
        (s.splitOn '/').filterMap Component.ofPiece? ++
          (p.text.toList.splitOn '/').filterMap Component.ofPiece? := by
    by_cases hlast : ('/' :: s).getLast? = some '/'
    · rw [push, if_neg hhead, if_pos (.inr hlast)]
      obtain rfl | ⟨s, d, rfl⟩ := List.eq_nil_or_concat' s
      · exact ⟨p.text.toList, rfl, rfl⟩
      · obtain rfl : d = '/' := by simpa [List.getLast?_cons] using hlast
        refine ⟨s ++ ['/'] ++ p.text.toList, rfl, ?_⟩
        rw [List.append_assoc, List.singleton_append, List.splitOn_append_cons_self,
          List.splitOn_append_cons_self, List.filterMap_append, List.filterMap_append]
        simp [Component.ofPiece?]
    · rw [push, if_neg hhead, if_neg (not_or.mpr ⟨List.cons_ne_nil _ _, hlast⟩)]
      refine ⟨s ++ '/' :: p.text.toList, rfl, ?_⟩
      rw [List.splitOn_append_cons_self, List.filterMap_append]
  rw [join, components, htext, String.toList_ofList, ht, componentsOf, hpieces, hcomponents,
    filter_components hp, List.cons_append]

/-! ## Normalized before or after -/

theorem components_normalize (p : Path) : p.normalize.components = normalComponents p.components := by
  have hpath : IsPath (normalComponents p.components) := by
    simpa using (isPath_components p).isNormal.isPath
  rw [normalize, components_ofComponents hpath]

theorem normalize_eq_normalize_iff {p q : Path} :
    p.normalize = q.normalize ↔ normalComponents p.components = normalComponents q.components := by
  constructor
  · intro h
    rw [← components_normalize, ← components_normalize, h]
  · intro h
    rw [normalize, normalize, h]

theorem foldl_resolve_filter (cs done : List Component) :
    (cs.filter (· ≠ .current)).foldl Component.resolve done = cs.foldl Component.resolve done := by
  rw [List.foldl_filter]
  congr
  funext done c
  cases c <;> rfl

theorem foldl_resolve_names (names : List (List Char)) (done : List Component) :
    (names.map Component.name).foldl Component.resolve done = names.reverse.map Component.name ++ done := by
  induction names generalizing done with
  | nil => rfl
  | cons s names ih =>
    rw [List.map_cons, List.foldl_cons, ih, List.reverse_cons, List.map_append, List.append_assoc]
    rfl

theorem foldl_step_names (names : List (List Char)) (r : Residue) :
    (names.map Component.name).foldl Residue.step r = ⟨r.climbs, names.reverse ++ r.names⟩ := by
  induction names generalizing r with
  | nil => rfl
  | cons s names ih =>
    rw [List.map_cons, List.foldl_cons, ih, List.reverse_cons, List.append_assoc]
    rfl

/-- What a relative path in normal form keeps of the `..` at its start. -/
def kept (k : Nat) : List Component := if k % 2 = 0 then [] else [.parent]

/-- What `k` times climbing leaves of a directory with some names below the root, the last one
first. -/
def above (names : List (List Char)) (k : Nat) : List Component :=
  (names.reverse.drop k).map Component.name ++ [.root]

theorem resolve_parent_kept (k : Nat) : Component.parent.resolve (kept k) = kept (k + 1) := by
  rcases Nat.mod_two_eq_zero_or_one k with h | h
  · have hsucc : (k + 1) % 2 = 1 := by omega
    rw [kept, kept, h, hsucc]
    rfl
  · have hsucc : (k + 1) % 2 = 0 := by omega
    rw [kept, kept, h, hsucc]
    rfl

theorem resolve_parent_above {names : List (List Char)} {k : Nat} (h : k < names.length) :
    Component.parent.resolve (above names k) = above names (k + 1) := by
  rw [above, List.drop_eq_getElem_cons (by simpa using h)]
  rfl

theorem length_above {names : List (List Char)} {k : Nat} :
    (above names k).length = names.length - k + 1 := by
  simp [above]

/-- From a directory that is deep enough, a path leads to its names above which it climbs. -/
theorem normalComponents_join {names : List (List Char)}
    (hbase : base.components = .root :: names.map Component.name) (hp : p.isAbsolute = false)
    (hclimbs : (residue p.components).climbs ≤ names.length) :
    normalComponents (base.join p.text).components =
      ((residue p.components).names.map Component.name ++
        above names (residue p.components).climbs).reverse := by
  have habsolute : base.isAbsolute = true := by
    by_contra h
    exact root_notMem_components (by simpa using h) (hbase ▸ List.mem_cons_self)
  have hstart : base.components.foldl Component.resolve [] = above names 0 := by
    rw [hbase, List.foldl_cons, foldl_resolve_names]
    rfl
  rw [normalComponents, components_join habsolute hp, List.foldl_append, foldl_resolve_filter,
    hstart, foldl_resolve (above names) (root_notMem_components hp) fun k hk =>
      resolve_parent_above (hk.trans_le hclimbs)]

theorem components_normalize_of_relative (hp : p.isAbsolute = false) :
    p.normalize.components =
      ((residue p.components).names.map Component.name ++ kept (residue p.components).climbs).reverse := by
  rw [components_normalize, normalComponents, ← foldl_resolve kept (root_notMem_components hp)
    fun k _ => resolve_parent_kept k]
  rfl

theorem isAbsolute_normalize (hp : p.isAbsolute = false) : p.normalize.isAbsolute = false := by
  by_contra h
  obtain ⟨s, -, hcomponents⟩ := exists_components_of_isAbsolute (by simpa using h)
  have hroot : .root ∈ p.normalize.components := hcomponents ▸ List.mem_cons_self
  rw [components_normalize_of_relative hp, kept] at hroot
  split at hroot <;> simp at hroot

theorem residue_normalize (hp : p.isAbsolute = false) :
    residue p.normalize.components =
      ⟨(residue p.components).climbs % 2, (residue p.components).names⟩ := by
  rw [components_normalize_of_relative hp, List.reverse_append, ← List.map_reverse, residue,
    List.foldl_append, foldl_step_names, List.reverse_reverse]
  rcases Nat.mod_two_eq_zero_or_one (residue p.components).climbs with h | h
  · rw [kept, h]
    simp
  · rw [kept, h]
    simp [Residue.step]

theorem exists_names (hbase : base.isAbsolute = true) (hparent : .parent ∉ base.components) :
    ∃ names : List (List Char), base.components = .root :: names.map Component.name := by
  obtain ⟨s, -, hcomponents⟩ := exists_components_of_isAbsolute hbase
  have hname : ∀ c ∈ (s.splitOn '/').filterMap Component.ofPiece?, ∃ s, Component.name s = c := by
    intro c hc
    cases isInner_of_mem_pieces hc with
    | name => exact ⟨_, rfl⟩
    | parent => exact absurd (hcomponents ▸ List.mem_cons_of_mem _ hc) hparent
  obtain ⟨names, hnames⟩ := (Set.range_list_map Component.name).ge hname
  exact ⟨names, hnames ▸ hcomponents⟩

/-- **When a relative path may be normalized before it is joined to a directory.** Let the path not
climb out of an absolute directory without `..`. Then the normal form of the path leads from the
directory to where the path leads if and only if the path climbs at most one directory. -/
theorem normalize_join_normalize_iff (hbase : base.isAbsolute = true)
    (hparent : .parent ∉ base.components) (hp : p.isAbsolute = false)
    (hclimbs : ClimbsAtMost base.depth p.components) :
    (base.join p.normalize.text).normalize = (base.join p.text).normalize ↔
      ClimbsAtMost 1 p.components := by
  obtain ⟨names, hnames⟩ := exists_names hbase hparent
  have hdepth : base.depth = names.length := by
    simp [depth, hnames, Component.isName, Function.comp_def]
  rw [climbsAtMost_iff, hdepth] at hclimbs
  have hclimbsNormal : (residue p.normalize.components).climbs = (residue p.components).climbs % 2 := by
    rw [residue_normalize hp]
  have hnamesNormal : (residue p.normalize.components).names = (residue p.components).names := by
    rw [residue_normalize hp]
  rw [climbsAtMost_iff, normalize_eq_normalize_iff, normalComponents_join hnames hp hclimbs,
    normalComponents_join hnames (isAbsolute_normalize hp) (by omega), hnamesNormal,
    hclimbsNormal, List.reverse_inj, List.append_cancel_left_eq]
  constructor
  · intro h
    have hlength := congrArg List.length h
    rw [length_above, length_above] at hlength
    omega
  · intro h
    rw [Nat.mod_eq_of_lt (by omega)]

/-- A directory of an app, and a file next to it. -/
theorem app_join_normalize_lib :
    let base : Path := ⟨"/repo/app"⟩
    let p : Path := ⟨"./src/../../lib/b.ts"⟩
    base.isAbsolute = true ∧ .parent ∉ base.components ∧ p.isAbsolute = false ∧
      ClimbsAtMost base.depth p.components ∧ ClimbsAtMost 1 p.components ∧
      p.normalize = ⟨"../lib/b.ts"⟩ ∧
      (base.join p.normalize.text).normalize = (base.join p.text).normalize := by
  intro base p
  have hbase : base.isAbsolute = true := by decide +kernel
  have hparent : .parent ∉ base.components := by decide +kernel
  have hp : p.isAbsolute = false := by decide +kernel
  have hdepth : ClimbsAtMost base.depth p.components := by decide +kernel
  have hone : ClimbsAtMost 1 p.components := by decide +kernel
  exact ⟨hbase, hparent, hp, hdepth, hone, by decide +kernel,
    (normalize_join_normalize_iff hbase hparent hp hdepth).mpr hone⟩

/-- A path that climbs two directories leads to another file once it is normalized. -/
theorem normalize_join_normalize_ne_of_two_climbs :
    let base : Path := ⟨"/a/b/c"⟩
    let p : Path := ⟨"../../x.ts"⟩
    base.isAbsolute = true ∧ .parent ∉ base.components ∧ p.isAbsolute = false ∧
      ClimbsAtMost base.depth p.components ∧
      (base.join p.normalize.text).normalize = ⟨"/a/b/c/x.ts"⟩ ∧
      (base.join p.text).normalize = ⟨"/a/x.ts"⟩ := by
  decide +kernel

end RootCause.Path
