import Mathlib.Data.List.Basic
import RootCause.Path
import RootCause.Proofs.Text.Splitting

/-!
# Paths in normal form

A path says which components it has, and the components say how the path is written: components
that stand where they may (`IsPath`) are read back from what is written (`components_ofComponents`).
The normal form of a path has no `.`, and `..` at most once, before all names (`IsNormal`).
Whatever is written from such components is its own normal form (`normalize_eq_self_iff`), and stays
that with a further name or with another extension (`normalize_join`, `normalize_addExtension`,
`normalize_withExtension`).
-/

namespace RootCause.Path

/-! ## Components -/

/-- The name of a directory or a file. -/
structure IsName (s : List Char) : Prop where
  slash : '/' ∉ s
  ne_nil : s ≠ []
  ne_current : s ≠ ['.']
  ne_parent : s ≠ ['.', '.']

/-- A component that may stand anywhere in a path. -/
inductive Component.IsInner : Component → Prop
  | parent : IsInner .parent
  | name {s : List Char} (h : IsName s) : IsInner (.name s)

/-- The components that a path can have: the root and `.` only stand at the start. -/
inductive IsPath : List Component → Prop
  | inner {cs : List Component} (h : ∀ c ∈ cs, c.IsInner) : IsPath cs
  | root {cs : List Component} (h : ∀ c ∈ cs, c.IsInner) : IsPath (.root :: cs)
  | current {cs : List Component} (h : ∀ c ∈ cs, c.IsInner) : IsPath (.current :: cs)

variable {c : Component} {cs : List Component}

/-- A component that a relative path can start with. -/
def Component.IsFirst (c : Component) : Prop := c.IsInner ∨ c = .current

theorem Component.IsInner.isFirst (h : c.IsInner) : c.IsFirst := .inl h

theorem Component.IsFirst.slash_notMem (h : c.IsFirst) : '/' ∉ c.text := by
  obtain (_ | h) | rfl := h
  · decide
  · exact h.slash
  · decide

theorem Component.IsFirst.text_ne_nil (h : c.IsFirst) : c.text ≠ [] := by
  obtain (_ | h) | rfl := h
  · decide
  · exact h.ne_nil
  · decide

theorem Component.IsFirst.head?_text_ne (h : c.IsFirst) : c.text.head? ≠ some '/' :=
  fun heq => h.slash_notMem (List.mem_of_head? heq)

theorem Component.IsFirst.getLast?_text_ne (h : c.IsFirst) : c.text.getLast? ≠ some '/' :=
  fun heq => h.slash_notMem (List.mem_of_getLast? heq)

theorem Component.IsInner.text_ne_current (h : c.IsInner) : c.text ≠ ['.'] := by
  cases h with
  | parent => decide
  | name h => exact h.ne_current

theorem Component.IsInner.ofPiece?_text (h : c.IsInner) : Component.ofPiece? c.text = some c := by
  cases h with
  | parent => rfl
  | name h =>
    rw [Component.text, Component.ofPiece?, if_neg (not_or.mpr ⟨h.ne_nil, h.ne_current⟩),
      if_neg h.ne_parent]

theorem filterMap_ofPiece?_map_text (h : ∀ c ∈ cs, c.IsInner) :
    (cs.map Component.text).filterMap Component.ofPiece? = cs := by
  have htext : ∀ c ∈ cs, (Component.ofPiece? ∘ Component.text) c = some c :=
    fun c hc => (h c hc).ofPiece?_text
  rw [List.filterMap_map, List.filterMap_congr htext, List.filterMap_some]

theorem isInner_of_ofPiece? {piece : List Char} (hslash : '/' ∉ piece)
    (h : Component.ofPiece? piece = some c) : c.IsInner := by
  rw [Component.ofPiece?] at h
  split_ifs at h with hfiller hparent
  · exact Option.some.inj h ▸ .parent
  · obtain ⟨hnil, hcurrent⟩ := not_or.mp hfiller
    exact Option.some.inj h ▸ .name ⟨hslash, hnil, hcurrent, hparent⟩

/-! ## The components of a path -/

theorem isInner_of_mem_filterMap {pieces : List (List Char)}
    (hpieces : ∀ piece ∈ pieces, '/' ∉ piece) (h : c ∈ pieces.filterMap Component.ofPiece?) :
    c.IsInner := by
  obtain ⟨piece, hpiece, hc⟩ := List.mem_filterMap.mp h
  exact isInner_of_ofPiece? (hpieces piece hpiece) hc

theorem isPath_components (p : Path) : IsPath p.components := by
  rw [components]
  generalize p.text.toList = s
  unfold componentsOf
  split
  · exact .root fun c hc => isInner_of_mem_filterMap (fun _ => Text.notMem_of_mem_splitOn) hc
  · split
    · next pieces heq =>
      refine .current fun c hc => isInner_of_mem_filterMap (fun piece hpiece => ?_) hc
      exact Text.notMem_of_mem_splitOn (heq ▸ List.mem_cons_of_mem _ hpiece)
    · exact .inner fun c hc => isInner_of_mem_filterMap (fun _ => Text.notMem_of_mem_splitOn) hc

/-! ## Written components -/

theorem foldl_push {base : List Char} (hne : base ≠ []) (hlast : base.getLast? ≠ some '/')
    (h : ∀ c ∈ cs, c.IsInner) :
    cs.foldl (fun text c => push text c.text) base =
      ['/'].intercalate (base :: cs.map Component.text) := by
  induction cs generalizing base with
  | nil => simp
  | cons c cs ih =>
    obtain ⟨hc, hcs⟩ := List.forall_mem_cons.mp h
    have hpush : push base c.text = base ++ '/' :: c.text := by
      rw [push, if_neg hc.isFirst.head?_text_ne, if_neg (not_or.mpr ⟨hne, hlast⟩)]
    have hlast' : (base ++ '/' :: c.text).getLast? ≠ some '/' := by
      rw [List.getLast?_append_cons, List.getLast?_cons_of_ne_nil hc.isFirst.text_ne_nil]
      exact hc.isFirst.getLast?_text_ne
    rw [List.foldl_cons, hpush, ih (by simp) hlast' hcs, List.map_cons, List.intercalate_cons_cons]
    cases cs <;> simp [List.intercalate_cons_cons]

theorem write_cons (hc : c.IsFirst) (h : ∀ c ∈ cs, c.IsInner) :
    write (c :: cs) = ['/'].intercalate ((c :: cs).map Component.text) := by
  have hpush : push [] c.text = c.text := by
    rw [push, if_neg hc.head?_text_ne, if_pos (.inl rfl), List.nil_append]
  rw [write, List.foldl_cons, hpush, foldl_push hc.text_ne_nil hc.getLast?_text_ne h,
    List.map_cons]

theorem write_root (h : ∀ c ∈ cs, c.IsInner) :
    write (.root :: cs) = '/' :: ['/'].intercalate (cs.map Component.text) := by
  cases cs with
  | nil => rfl
  | cons c cs =>
    obtain ⟨hc, hcs⟩ := List.forall_mem_cons.mp h
    have hpush : push ['/'] c.text = '/' :: c.text := by
      rw [push, if_neg hc.isFirst.head?_text_ne, if_pos (.inr rfl), List.singleton_append]
    have hlast : ('/' :: c.text).getLast? ≠ some '/' := by
      rw [List.getLast?_cons_of_ne_nil hc.isFirst.text_ne_nil]
      exact hc.isFirst.getLast?_text_ne
    calc write (.root :: c :: cs)
        = cs.foldl (fun text c => push text c.text) ('/' :: c.text) := by
          rw [← hpush]
          rfl
      _ = '/' :: ['/'].intercalate ((c :: cs).map Component.text) := by
          rw [foldl_push (by simp) hlast hcs, List.intercalate_cons_cons_left, List.map_cons]

/-! ## Reading back -/

theorem componentsOf_of_current {s : List Char} {pieces : List (List Char)}
    (hhead : s.head? ≠ some '/') (hpieces : s.splitOn '/' = ['.'] :: pieces) :
    componentsOf s = .current :: pieces.filterMap Component.ofPiece? := by
  unfold componentsOf
  split
  · exact absurd rfl hhead
  · simp only [hpieces]

theorem componentsOf_of_ne_current {s first : List Char} {pieces : List (List Char)}
    (hhead : s.head? ≠ some '/') (hpieces : s.splitOn '/' = first :: pieces) (hne : first ≠ ['.']) :
    componentsOf s = (first :: pieces).filterMap Component.ofPiece? := by
  unfold componentsOf
  split
  · exact absurd rfl hhead
  · rw [hpieces]
    split
    · next heq => exact absurd (List.cons.inj heq).1 hne
    · rfl

theorem componentsOf_write_cons (hc : c.IsFirst) (h : ∀ c ∈ cs, c.IsInner) :
    componentsOf (write (c :: cs)) = c :: cs := by
  have hhead : (write (c :: cs)).head? ≠ some '/' := by
    obtain ⟨rest, hrest⟩ : ∃ rest, write (c :: cs) = c.text ++ rest := by
      rw [write_cons hc h]
      cases cs <;> simp [List.intercalate_cons_cons]
    rw [hrest, List.head?_append_of_ne_nil _ hc.text_ne_nil]
    exact hc.head?_text_ne
  have hpieces : (write (c :: cs)).splitOn '/' = c.text :: cs.map Component.text := by
    rw [write_cons hc h, List.splitOn_intercalate '/' ?_ (by simp), List.map_cons]
    refine List.forall_mem_map.mpr (List.forall_mem_cons.mpr ⟨hc.slash_notMem, ?_⟩)
    exact fun c hc => (h c hc).isFirst.slash_notMem
  rcases hc with hc | rfl
  · rw [componentsOf_of_ne_current hhead hpieces hc.text_ne_current, ← List.map_cons,
      filterMap_ofPiece?_map_text (List.forall_mem_cons.mpr ⟨hc, h⟩)]
  · rw [componentsOf_of_current hhead hpieces, filterMap_ofPiece?_map_text h]

/-- Components are read back from the path that is written from them. -/
theorem components_ofComponents (h : IsPath cs) : (ofComponents cs).components = cs := by
  rw [components, ofComponents, String.toList_ofList]
  cases h with
  | @inner cs h =>
    cases cs with
    | nil => rfl
    | cons c cs =>
      obtain ⟨hc, hcs⟩ := List.forall_mem_cons.mp h
      exact componentsOf_write_cons (.inl hc) hcs
  | current h => exact componentsOf_write_cons (.inr rfl) h
  | @root cs h =>
    rw [write_root h, componentsOf]
    cases cs with
    | nil => rfl
    | cons c cs =>
      have hslash : ∀ piece ∈ (c :: cs).map Component.text, '/' ∉ piece :=
        List.forall_mem_map.mpr fun c hc => (h c hc).isFirst.slash_notMem
      rw [List.splitOn_intercalate '/' hslash (by simp), filterMap_ofPiece?_map_text h]

/-! ## Normal form -/

/-- Components in normal form, the last one first: names after at most one `..`. -/
inductive IsNormal : List Component → Prop
  | nil : IsNormal []
  | parent : IsNormal [.parent]
  | root : IsNormal [.root]
  | rootParent : IsNormal [.parent, .root]
  | name {done : List Component} {s : List Char} (h : IsNormal done) (hs : IsName s) :
    IsNormal (.name s :: done)

variable {done : List Component}

theorem IsNormal.resolve (h : IsNormal done) (hc : c.IsInner) : IsNormal (c.resolve done) := by
  cases hc with
  | name hs => exact .name h hs
  | parent =>
    cases h with
    | nil => exact .parent
    | parent => exact .nil
    | root => exact .rootParent
    | rootParent => exact .root
    | name h _ => exact h

theorem IsNormal.foldl_resolve (h : IsNormal done) (hcs : ∀ c ∈ cs, c.IsInner) :
    IsNormal (cs.foldl Component.resolve done) := by
  induction cs generalizing done with
  | nil => exact h
  | cons c cs ih =>
    obtain ⟨hc, hcs⟩ := List.forall_mem_cons.mp hcs
    exact ih (h.resolve hc) hcs

theorem IsPath.isNormal (h : IsPath cs) : IsNormal (normalComponents cs).reverse := by
  rw [normalComponents, List.reverse_reverse]
  cases h with
  | inner h => exact IsNormal.nil.foldl_resolve h
  | root h => exact IsNormal.root.foldl_resolve h
  | @current cs h =>
    have hcs : IsNormal (cs.foldl Component.resolve []) := IsNormal.nil.foldl_resolve h
    exact hcs

theorem IsPath.concat_name {s : List Char} (h : IsPath cs) (hs : IsName s) :
    IsPath (cs ++ [.name s]) := by
  have hconcat : ∀ {cs : List Component}, (∀ c ∈ cs, c.IsInner) →
      ∀ c ∈ cs ++ [.name s], c.IsInner :=
    fun h => List.forall_mem_append.mpr ⟨h, List.forall_mem_singleton.mpr (.name hs)⟩
  cases h with
  | inner h => exact .inner (hconcat h)
  | root h => exact .root (hconcat h)
  | current h => exact .current (hconcat h)

theorem IsNormal.isPath (h : IsNormal done) : IsPath done.reverse := by
  induction h with
  | nil => exact .inner (by simp)
  | parent => exact .inner (by simpa using .parent)
  | root => exact .root (by simp)
  | rootParent => exact .root (by simpa using .parent)
  | name _ hs ih => exact List.reverse_cons ▸ ih.concat_name hs

theorem IsNormal.foldl_resolve_reverse (h : IsNormal done) :
    done.reverse.foldl Component.resolve [] = done := by
  induction h with
  | nil | parent | root | rootParent => rfl
  | name _ hs ih =>
    rw [List.reverse_cons, List.foldl_append, ih]
    rfl

theorem IsNormal.normalComponents_reverse (h : IsNormal done) :
    normalComponents done.reverse = done.reverse := by
  rw [normalComponents, h.foldl_resolve_reverse]

/-- The paths that are their own normal form are those written from components in normal form. -/
theorem normalize_eq_self_iff {p : Path} :
    p.normalize = p ↔ ∃ done, IsNormal done ∧ p = ofComponents done.reverse := by
  constructor
  · intro h
    exact ⟨_, (isPath_components p).isNormal, by rw [List.reverse_reverse, ← normalize, h]⟩
  · rintro ⟨done, hdone, rfl⟩
    rw [normalize, components_ofComponents hdone.isPath, hdone.normalComponents_reverse]

theorem normalize_normalize (p : Path) : p.normalize.normalize = p.normalize :=
  normalize_eq_self_iff.mpr
    ⟨_, (isPath_components p).isNormal, by rw [List.reverse_reverse, ← normalize]⟩

/-! ## Other last names -/

/-- What can follow the last dot of a file's name. -/
structure IsExtension (s : List Char) : Prop where
  slash : '/' ∉ s
  dot : '.' ∉ s
  ne_nil : s ≠ []

variable {p : Path}

theorem IsExtension.isName {extension stem : List Char} (h : IsExtension extension)
    (hstem : '/' ∉ stem) : IsName (stem ++ '.' :: extension) := by
  have hlast : (stem ++ '.' :: extension).getLast? ≠ some '.' := by
    rw [List.getLast?_append_cons, List.getLast?_cons_of_ne_nil h.ne_nil]
    exact fun heq => h.dot (List.mem_of_getLast? heq)
  refine ⟨?_, by simp, fun heq => hlast (by rw [heq]; rfl), fun heq => hlast (by rw [heq]; rfl)⟩
  simpa using ⟨hstem, h.slash⟩

theorem push_append {base piece : List Char} (h : piece ≠ []) (s : List Char) :
    push base (piece ++ s) = push base piece ++ s := by
  rw [push, push, List.head?_append_of_ne_nil _ h]
  split_ifs <;> simp

theorem write_concat (cs : List Component) (c : Component) :
    write (cs ++ [c]) = push (write cs) c.text := by
  rw [write, List.foldl_append]
  rfl

theorem write_concat_name_append {name : List Char} (h : name ≠ []) (cs : List Component)
    (s : List Char) : write (cs ++ [.name name]) ++ s = write (cs ++ [.name (name ++ s)]) := by
  rw [write_concat, write_concat]
  exact (push_append h s).symm

theorem join_ofComponents (cs : List Component) (s : String) :
    (ofComponents cs).join s = ofComponents (cs ++ [.name s.toList]) := by
  rw [join, ofComponents, String.toList_ofList, ofComponents, write_concat]
  rfl

theorem normalize_join {s : String} (h : p.normalize = p) (hs : IsName s.toList) :
    (p.join s).normalize = p.join s := by
  obtain ⟨done, hdone, rfl⟩ := normalize_eq_self_iff.mp h
  refine normalize_eq_self_iff.mpr ⟨.name s.toList :: done, .name hdone hs, ?_⟩
  rw [List.reverse_cons, join_ofComponents]

theorem addExtension_ofComponents (cs : List Component) (extension : String) :
    (ofComponents cs).addExtension extension =
      ⟨String.ofList (write cs ++ '.' :: extension.toList)⟩ := by
  rw [addExtension, ofComponents, Path.mk.injEq, String.ext_iff]
  simp

theorem normalize_addExtension {extension : String} (h : p.normalize = p)
    (he : IsExtension extension.toList) :
    (p.addExtension extension).normalize = p.addExtension extension := by
  obtain ⟨done, hdone, rfl⟩ := normalize_eq_self_iff.mp h
  rw [addExtension_ofComponents, normalize_eq_self_iff]
  have hdot : IsName ([] ++ '.' :: extension.toList) := he.isName List.not_mem_nil
  have hdots : IsName (['.', '.'] ++ '.' :: extension.toList) := he.isName (by decide)
  cases hdone with
  | nil => exact ⟨[.name _], .name .nil hdot, rfl⟩
  | root => exact ⟨[.name _, .root], .name .root hdot, rfl⟩
  | parent => exact ⟨[.name _], .name .nil hdots, rfl⟩
  | rootParent => exact ⟨[.name _, .root], .name .root hdots, rfl⟩
  | @name done s hdone hs =>
    refine ⟨.name (s ++ '.' :: extension.toList) :: done, .name hdone (he.isName hs.slash), ?_⟩
    rw [List.reverse_cons, write_concat_name_append hs.ne_nil, List.reverse_cons, ofComponents]

theorem splitExtension_subset (name : List Char) : (splitExtension name).1 ⊆ name := by
  rw [splitExtension]
  split
  · exact List.Subset.refl _
  · next heq => exact Text.eq_append_of_splitLast? heq ▸ List.subset_append_left _ _
  · exact List.Subset.refl _

theorem normalize_withExtension {extension : String} (h : p.normalize = p)
    (he : IsExtension extension.toList) :
    (p.withExtension extension).normalize = p.withExtension extension := by
  obtain ⟨done, hdone, heq⟩ := normalize_eq_self_iff.mp h
  have hcomponents : p.components.reverse = done := by
    rw [heq, components_ofComponents hdone.isPath, List.reverse_reverse]
  rw [withExtension, hcomponents]
  cases hdone with
  | nil | parent | root | rootParent => exact h
  | @name done s hdone hs =>
    have hstem : '/' ∉ (splitExtension s).1 := fun hmem => hs.slash (splitExtension_subset s hmem)
    exact normalize_eq_self_iff.mpr ⟨_, .name hdone (he.isName hstem), rfl⟩

end RootCause.Path
