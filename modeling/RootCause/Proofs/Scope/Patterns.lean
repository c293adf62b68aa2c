import RootCause.Proofs.Scope.Extents

/-!
# Names that patterns bind

A binding pattern is a name, a pair of a key and a pattern, a pattern with a default value, or an
object, an array or a rest of patterns, with comments anywhere in it (`IsPattern`). What it binds
are the names in it that are neither a key nor a default value nor below one, in document order
(`bindingNames`). The names of a tree are those of its parts (`bindingNames_eq`), from which it
follows by induction on the pattern that they are what is read of it
(`patternNames_eq_map_bindingNames`).

Where the nodes of a tree stand in each other and in the order of the text (`IsLaidOut`), the names
come one after the other (`IsLaidOut.pairwise_bindingNames`), and a name is bound if and only if it
is a node of no key and of no default value (`IsLaidOut.mem_bindingNames_iff`).
-/

namespace RootCause.Scope

open Source (Tree NodeKind Field)

variable {source : List Char} {t c c' p n e : Tree} {f : Field} {k : NodeKind}

/-! ## Patterns -/

/-- Whether a node is a name that a pattern may bind: an identifier, or a property that is bound
under its own name. -/
def isName (t : Tree) : Bool := t.is .identifier || t.is .shorthandPropertyIdentifierPattern

/-- Whether a node is part of what is around it: neither a sign of the grammar nor a comment. -/
def isPart (t : Tree) : Bool := t.isNamed && !t.is .comment

/-- The parts of a node. -/
def partsOf (t : Tree) : List Tree := t.children.filter isPart

/-- The trees of binding patterns. Keys and default values are any trees, and signs and comments
may stand around every part. -/
inductive IsPattern : Tree → Prop
  | name {t : Tree} (hkind : isName t) (hleaf : t.children = []) : IsPattern t
  /-- A key and the pattern of its value. -/
  | pair {t key p : Tree} (hkind : t.is .pairPattern) (hparts : partsOf t = [key, p])
      (hkey : key.label.field ≠ some .value) (hvalue : t.child? .value = some p)
      (hp : IsPattern p) : IsPattern t
  /-- A pattern and its default value. -/
  | withDefault {t p value : Tree}
      (hkind : t.is .assignmentPattern ∨ t.is .objectAssignmentPattern)
      (hparts : partsOf t = [p, value]) (hleft : t.child? .left = some p)
      (hvalue : value.label.field ≠ some .left) (hp : IsPattern p) : IsPattern t
  /-- An object, an array or a rest. -/
  | group {t : Tree} (hkind : t.is .objectPattern ∨ t.is .arrayPattern ∨ t.is .restPattern)
      (hparts : ∀ c ∈ partsOf t, IsPattern c) : IsPattern t

theorem is_iff : t.is k ↔ t.kind = .named k := by
  simp [Tree.is]

theorem isName_iff : isName t ↔
    t.kind = .named .identifier ∨ t.kind = .named .shorthandPropertyIdentifierPattern := by
  rw [isName, Bool.or_eq_true, is_iff, is_iff]

theorem isName_eq_false_of_kind (h : t.kind = .named k)
    (hk : k ≠ .identifier ∧ k ≠ .shorthandPropertyIdentifierPattern) : isName t = false := by
  simp [isName, Tree.is, h, hk]

theorem isPart_of_isName (h : isName t) : isPart t := by
  rcases isName_iff.mp h with h | h <;> simp [isPart, Tree.isNamed, Tree.is, h]

theorem mem_children_of_mem_partsOf (h : c ∈ partsOf t) : c ∈ t.children :=
  List.mem_of_mem_filter h

/-! ## Names outside keys and default values -/

/-- The field of a pair, or of a pattern with a default value, in which the pattern stands. -/
def innerField? (t : Tree) : Option Field :=
  match t.kind with
  | .named .pairPattern => some .value
  | .named .assignmentPattern | .named .objectAssignmentPattern => some .left
  | _ => none

/-- Whether a part of a node is the key of a pair or a default value. -/
def isAside (t c : Tree) : Bool := (innerField? t).any fun f => c.label.field != some f

/-- The parts of a node in which it binds names. -/
def innerPartsOf (t : Tree) : List Tree := (partsOf t).filter fun c => !isAside t c

mutual

/-- The parts of a tree at any depth in document order, the root first, each with the nodes above
it, the nearest of which is the first. -/
def located (above : List Tree) : Tree → List (List Tree × Tree)
  | .node l children =>
    (above, .node l children) :: locatedIn (.node l children :: above) children

/-- The parts among some trees, and the parts below them. -/
def locatedIn (above : List Tree) : List Tree → List (List Tree × Tree)
  | [] => []
  | c :: cs => (if isPart c then located above c else []) ++ locatedIn above cs

end

/-- Whether neither a node nor any node above it is a key or a default value. -/
def isOutside : List Tree → Tree → Bool
  | [], _ => true
  | t :: above, n => !isAside t n && isOutside above t

/-- Whether a located node is a name that stands in no key and in no default value. -/
def isBound (place : List Tree × Tree) : Bool := isName place.2 && isOutside place.1 place.2

/-- The names that a tree binds, in document order. -/
def bindingNames (t : Tree) : List Tree := ((located [] t).filter isBound).map Prod.snd

theorem innerField?_eq_some_iff : innerField? t = some f ↔
    (t.is .pairPattern ∧ f = .value) ∨
      ((t.is .assignmentPattern ∨ t.is .objectAssignmentPattern) ∧ f = .left) := by
  rw [is_iff, is_iff, is_iff, innerField?]
  split
  next hkind => simp [hkind, eq_comm]
  next hkind => simp [hkind, eq_comm]
  next hkind => simp [hkind, eq_comm]
  next hpair harray hobject =>
    refine iff_of_false nofun ?_
    rintro (⟨hkind, -⟩ | ⟨hkind | hkind, -⟩)
    · exact hpair hkind
    · exact harray hkind
    · exact hobject hkind

theorem isName_eq_false_of_innerField? (h : innerField? t = some f) : isName t = false := by
  obtain ⟨hkind, -⟩ | ⟨hkind | hkind, -⟩ := innerField?_eq_some_iff.mp h <;>
    exact isName_eq_false_of_kind (is_iff.mp hkind) (by decide)

/-! ## Names of a tree from those of its parts -/

/-- Elements that give nothing may be left out. -/
theorem flatMap_filter_of_eq_nil {α β : Type} {keep : α → Bool} {g : α → List β} {l : List α}
    (h : ∀ a ∈ l, keep a = false → g a = []) : (l.filter keep).flatMap g = l.flatMap g := by
  induction l with
  | nil => rfl
  | cons a l ih =>
    have ih := ih fun b hb => h b (List.mem_cons_of_mem _ hb)
    cases ha : keep a with
    | true => rw [List.filter_cons_of_pos ha, List.flatMap_cons, List.flatMap_cons, ih]
    | false =>
      rw [List.filter_cons_of_neg (by simp [ha]), List.flatMap_cons, h a List.mem_cons_self ha, ih,
        List.nil_append]

theorem locatedIn_eq_flatMap (above cs : List Tree) :
    locatedIn above cs = (cs.filter isPart).flatMap (located above) := by
  induction cs with
  | nil => rw [locatedIn]; rfl
  | cons c cs ih =>
    rw [locatedIn, ih]
    cases hc : isPart c <;> simp [hc]

theorem located_eq (above : List Tree) (t : Tree) :
    located above t = (above, t) :: (partsOf t).flatMap (located (t :: above)) := by
  obtain ⟨l, children⟩ := t
  rw [located, locatedIn_eq_flatMap]
  rfl

theorem flatMap_innerPartsOf (t : Tree) :
    (innerPartsOf t).flatMap bindingNames =
      (partsOf t).flatMap fun c => if isAside t c = false then bindingNames c else [] := by
  have hinner : ∀ c ∈ innerPartsOf t,
      bindingNames c = if isAside t c = false then bindingNames c else [] := by
    intro c hc
    rw [if_pos (by simpa using (List.mem_filter.mp hc).2)]
  rw [List.flatMap_congr hinner, innerPartsOf, flatMap_filter_of_eq_nil]
  intro c _ haside
  exact if_neg (by simpa using haside)

/-- What a tree binds below other nodes is what it binds by itself, or nothing if it is or stands in
a key or a default value. -/
theorem map_filter_located (above : List Tree) (t : Tree) :
    ((located above t).filter isBound).map Prod.snd =
      if isOutside above t then
        (if isName t then [t] else []) ++ (innerPartsOf t).flatMap bindingNames
      else [] := by
  induction t using induction_children generalizing above with
  | node t ih =>
    have hpart : ∀ c ∈ partsOf t, ((located (t :: above) c).filter isBound).map Prod.snd =
        if isOutside (t :: above) c then bindingNames c else [] := by
      intro c hc
      have hchild := mem_children_of_mem_partsOf hc
      rw [ih c hchild, bindingNames, ih c hchild]
      rfl
    have hparts : (((partsOf t).flatMap (located (t :: above))).filter isBound).map Prod.snd =
        if isOutside above t then (innerPartsOf t).flatMap bindingNames else [] := by
      rw [List.filter_flatMap, List.map_flatMap, List.flatMap_congr hpart, flatMap_innerPartsOf]
      cases hout : isOutside above t <;> simp [isOutside, hout]
    rw [located_eq, List.filter_cons]
    cases hout : isOutside above t <;> cases hname : isName t <;>
      simp [isBound, hout, hname, hparts]

theorem bindingNames_eq (t : Tree) :
    bindingNames t = (if isName t then [t] else []) ++ (innerPartsOf t).flatMap bindingNames :=
  map_filter_located [] t

theorem mem_bindingNames : n ∈ bindingNames t ↔
    (isName t ∧ n = t) ∨ ∃ c ∈ partsOf t, isAside t c = false ∧ n ∈ bindingNames c := by
  rw [bindingNames_eq, List.mem_append, List.mem_flatMap, innerPartsOf]
  simp [and_assoc]

theorem bindingNames_of_isName (hname : isName t) (hleaf : t.children = []) :
    bindingNames t = [t] := by
  rw [bindingNames_eq, if_pos hname, innerPartsOf, partsOf, hleaf]
  rfl

theorem bindingNames_of_isName_eq_false (hname : isName t = false) :
    bindingNames t = (innerPartsOf t).flatMap bindingNames := by
  rw [bindingNames_eq, hname, if_neg Bool.false_ne_true, List.nil_append]

/-- A node with one part in the field of its pattern binds what that part binds. -/
theorem bindingNames_of_innerField? (hfield : innerField? t = some f)
    (hparts : (partsOf t).filter (fun c => c.label.field == some f) = [p]) :
    bindingNames t = bindingNames p := by
  have hinner : innerPartsOf t = [p] := by
    rw [← hparts]
    simp [innerPartsOf, isAside, hfield, bne]
  rw [bindingNames_of_isName_eq_false (isName_eq_false_of_innerField? hfield), hinner,
    List.flatMap_singleton]

/-- An object, an array or a rest binds what its parts bind. -/
theorem bindingNames_of_group
    (hkind : t.is .objectPattern ∨ t.is .arrayPattern ∨ t.is .restPattern) :
    bindingNames t = (partsOf t).flatMap bindingNames := by
  rw [is_iff, is_iff, is_iff] at hkind
  have hname : isName t = false := by
    rcases hkind with hkind | hkind | hkind <;> exact isName_eq_false_of_kind hkind (by decide)
  have hfield : innerField? t = none := by
    rcases hkind with hkind | hkind | hkind <;> rw [innerField?, hkind]
  have hinner : innerPartsOf t = partsOf t := by
    simp [innerPartsOf, isAside, hfield]
  rw [bindingNames_of_isName_eq_false hname, hinner]

theorem mem_subtrees_of_mem_bindingNames (hn : n ∈ bindingNames t) :
    n ∈ subtrees t ∧ isName n := by
  induction t using induction_children with
  | node t ih =>
    obtain ⟨hname, rfl⟩ | ⟨c, hc, -, hn⟩ := mem_bindingNames.mp hn
    · exact ⟨self_mem_subtrees n, hname⟩
    · have hchild := mem_children_of_mem_partsOf hc
      obtain ⟨hmem, hname⟩ := ih c hchild hn
      exact ⟨subtrees_subset hchild hmem, hname⟩

/-! ## Trees in the order of the text -/

/-- Whether a node stands within the range of another one. -/
def standsIn (n e : Tree) : Bool := e.start ≤ n.start && n.stop ≤ e.stop

/-- The children of a node stand in it, one after the other. Signs, comments and names have none,
and no name is empty. -/
structure IsPlaced (t : Tree) : Prop where
  inside : ∀ c ∈ t.children, standsIn c t
  inOrder : t.children.Pairwise fun a b => a.stop ≤ b.start
  isLeaf : isName t ∨ isPart t = false → t.children = []
  nonempty : isName t → t.start < t.stop

/-- All nodes of a tree are placed in the order of the text. -/
def IsLaidOut (t : Tree) : Prop := ∀ u ∈ subtrees t, IsPlaced u

instance (t : Tree) : Decidable (IsPlaced t) :=
  decidable_of_iff ((∀ c ∈ t.children, standsIn c t) ∧
      (t.children.Pairwise fun a b => a.stop ≤ b.start) ∧
      (isName t ∨ isPart t = false → t.children = []) ∧ (isName t → t.start < t.stop))
    ⟨fun ⟨hinside, horder, hleaf, hnonempty⟩ => ⟨hinside, horder, hleaf, hnonempty⟩,
      fun ⟨hinside, horder, hleaf, hnonempty⟩ => ⟨hinside, horder, hleaf, hnonempty⟩⟩

instance (t : Tree) : Decidable (IsLaidOut t) :=
  inferInstanceAs (Decidable (∀ u ∈ subtrees t, IsPlaced u))

/-- The keys and default values in a tree, at any depth. -/
def asidesOf (t : Tree) : List Tree :=
  (subtrees t).flatMap fun u => (partsOf u).filter (isAside u)

theorem standsIn_iff : standsIn n e ↔ e.start ≤ n.start ∧ n.stop ≤ e.stop := by
  simp [standsIn]

theorem standsIn_trans (h : standsIn n e) (h' : standsIn e t) : standsIn n t := by
  rw [standsIn_iff] at h h' ⊢
  omega

theorem mem_asidesOf_iff :
    e ∈ asidesOf t ↔ (e ∈ partsOf t ∧ isAside t e) ∨ ∃ c ∈ t.children, e ∈ asidesOf c := by
  have hasides : asidesOf t =
      (partsOf t).filter (isAside t) ++ t.children.flatMap asidesOf := by
    rw [asidesOf, subtrees_eq, List.flatMap_cons, List.flatMap_assoc]
    rfl
  rw [hasides, List.mem_append, List.mem_filter, List.mem_flatMap]

theorem subtrees_subset_of_mem_asidesOf (h : e ∈ asidesOf t) : subtrees e ⊆ subtrees t := by
  induction t using induction_children with
  | node t ih =>
    obtain ⟨hpart, -⟩ | ⟨c, hc, he⟩ := mem_asidesOf_iff.mp h
    · exact subtrees_subset (mem_children_of_mem_partsOf hpart)
    · exact List.Subset.trans (ih c hc he) (subtrees_subset hc)

namespace IsLaidOut

theorem isPlaced (h : IsLaidOut t) : IsPlaced t := h t (self_mem_subtrees t)

theorem of_mem_children (h : IsLaidOut t) (hc : c ∈ t.children) : IsLaidOut c :=
  fun u hu => h u (subtrees_subset hc hu)

/-- Every node of a tree stands within the tree. -/
theorem standsIn_of_mem (h : IsLaidOut t) (hn : n ∈ subtrees t) : standsIn n t := by
  induction t using induction_children with
  | node t ih =>
    obtain rfl | ⟨c, hc, hn⟩ := mem_subtrees_iff.mp hn
    · exact standsIn_iff.mpr ⟨le_rfl, le_rfl⟩
    · exact standsIn_trans (ih c hc (h.of_mem_children hc) hn) (h.isPlaced.inside c hc)

/-- A name is below one child at most. -/
theorem eq_of_mem_subtrees (h : IsLaidOut t) (hc : c ∈ t.children) (hc' : c' ∈ t.children)
    (hname : isName n) (hn : n ∈ subtrees c) (hn' : n ∈ subtrees c') : c = c' := by
  have : Std.Symm fun a b : Tree => a.stop ≤ b.start ∨ b.stop ≤ a.start := ⟨fun _ _ => Or.symm⟩
  have hapart : t.children.Pairwise fun a b => a.stop ≤ b.start ∨ b.stop ≤ a.start :=
    h.isPlaced.inOrder.imp Or.inl
  have hlt := (h n (subtrees_subset hc hn)).nonempty hname
  have hin := standsIn_iff.mp ((h.of_mem_children hc).standsIn_of_mem hn)
  have hin' := standsIn_iff.mp ((h.of_mem_children hc').standsIn_of_mem hn')
  by_contra hne
  have hcc' := hapart.forall hc hc' hne
  omega

theorem isPart_of_mem_subtrees (h : IsLaidOut t) (hn : n ∈ subtrees t) (hname : isName n) :
    isPart t := by
  by_contra hpart
  rw [Bool.not_eq_true] at hpart
  rw [subtrees_eq, h.isPlaced.isLeaf (Or.inr hpart), List.flatMap_nil, List.mem_singleton] at hn
  rw [← hn, isPart_of_isName hname] at hpart
  cases hpart

/-- A name that is bound is a node of no key and of no default value. -/
theorem notMem_subtrees_of_mem_asidesOf (h : IsLaidOut t) (hn : n ∈ bindingNames t)
    (he : e ∈ asidesOf t) : n ∉ subtrees e := by
  intro hne
  induction t using induction_children with
  | node t ih =>
    obtain ⟨hname, -⟩ | ⟨c, hc, hinner, hn⟩ := mem_bindingNames.mp hn
    · have hleaf := h.isPlaced.isLeaf (Or.inl hname)
      obtain ⟨hpart, -⟩ | ⟨c, hc, -⟩ := mem_asidesOf_iff.mp he
      · simp [partsOf, hleaf] at hpart
      · simp [hleaf] at hc
    · have hchild := mem_children_of_mem_partsOf hc
      obtain ⟨hmem, hname⟩ := mem_subtrees_of_mem_bindingNames hn
      obtain ⟨hpart, haside⟩ | ⟨c', hc', he⟩ := mem_asidesOf_iff.mp he
      · obtain rfl := h.eq_of_mem_subtrees hchild (mem_children_of_mem_partsOf hpart) hname hmem hne
        rw [hinner] at haside
        cases haside
      · have hmem' := subtrees_subset_of_mem_asidesOf he hne
        obtain rfl := h.eq_of_mem_subtrees hchild hc' hname hmem hmem'
        exact ih c hchild (h.of_mem_children hchild) hn he

theorem mem_bindingNames_of_forall (h : IsLaidOut t) (hn : n ∈ subtrees t) (hname : isName n)
    (hout : ∀ e ∈ asidesOf t, n ∉ subtrees e) : n ∈ bindingNames t := by
  induction t using induction_children with
  | node t ih =>
    obtain rfl | ⟨c, hc, hn⟩ := mem_subtrees_iff.mp hn
    · exact mem_bindingNames.mpr (Or.inl ⟨hname, rfl⟩)
    · have hlaid := h.of_mem_children hc
      have hpart : c ∈ partsOf t :=
        List.mem_filter.mpr ⟨hc, hlaid.isPart_of_mem_subtrees hn hname⟩
      have hinner : isAside t c = false := by
        rw [← Bool.not_eq_true]
        exact fun haside => hout c (mem_asidesOf_iff.mpr (Or.inl ⟨hpart, haside⟩)) hn
      have hbelow : n ∈ bindingNames c := ih c hc hlaid hn fun e he =>
        hout e (mem_asidesOf_iff.mpr (Or.inr ⟨c, hc, he⟩))
      exact mem_bindingNames.mpr (Or.inr ⟨c, hpart, hinner, hbelow⟩)

/-- **A name is bound if and only if it is a node of no key and of no default value.** -/
theorem mem_bindingNames_iff (h : IsLaidOut t) :
    n ∈ bindingNames t ↔ n ∈ subtrees t ∧ isName n ∧ ∀ e ∈ asidesOf t, n ∉ subtrees e := by
  constructor
  · intro hn
    obtain ⟨hmem, hname⟩ := mem_subtrees_of_mem_bindingNames hn
    exact ⟨hmem, hname, fun e => h.notMem_subtrees_of_mem_asidesOf hn⟩
  · rintro ⟨hmem, hname, hout⟩
    exact h.mem_bindingNames_of_forall hmem hname hout

/-- The names that a tree binds stand one after the other. -/
theorem pairwise_bindingNames (h : IsLaidOut t) :
    (bindingNames t).Pairwise fun a b => a.stop ≤ b.start := by
  induction t using induction_children with
  | node t ih =>
    cases hname : isName t with
    | true =>
      rw [bindingNames_of_isName hname (h.isPlaced.isLeaf (Or.inl hname))]
      exact List.pairwise_singleton _ _
    | false =>
      have hchild : ∀ c ∈ innerPartsOf t, c ∈ t.children :=
        fun c hc => mem_children_of_mem_partsOf (List.mem_of_mem_filter hc)
      have hparts : (innerPartsOf t).Pairwise fun a b => a.stop ≤ b.start :=
        (h.isPlaced.inOrder.filter _).filter _
      rw [bindingNames_of_isName_eq_false hname, List.pairwise_flatMap]
      refine ⟨fun c hc => ih c (hchild c hc) (h.of_mem_children (hchild c hc)),
        hparts.imp_of_mem fun {a b} ha hb hab x hx y hy => ?_⟩
      have hxa := (h.of_mem_children (hchild a ha)).standsIn_of_mem
        (mem_subtrees_of_mem_bindingNames hx).1
      have hyb := (h.of_mem_children (hchild b hb)).standsIn_of_mem
        (mem_subtrees_of_mem_bindingNames hy).1
      rw [standsIn_iff] at hxa hyb
      omega

theorem nodup_bindingNames (h : IsLaidOut t) : (bindingNames t).Nodup := by
  refine h.pairwise_bindingNames.imp_of_mem fun {a b} ha _ hab heq => ?_
  obtain ⟨hmem, hname⟩ := mem_subtrees_of_mem_bindingNames ha
  have hlt := (h a hmem).nonempty hname
  rw [← heq] at hab
  omega

end IsLaidOut

/-! ## What is read of a pattern -/

/-- A sign or a comment binds nothing. -/
theorem patternNames_of_not_isPart (h : isPart t = false) : patternNames source t = [] := by
  obtain ⟨l, children⟩ := t
  rw [isPart, Tree.isNamed, Tree.is, Tree.kind, Tree.label] at h
  rw [patternNames]
  cases hkind : l.kind with
  | token text => rfl
  | named k =>
    obtain rfl : k = .comment := by simpa [hkind] using h
    rfl

theorem namesInAll_eq_flatMap (source : List Char) (cs : List Tree) :
    namesInAll source cs = (cs.filter isPart).flatMap (patternNames source) := by
  rw [flatMap_filter_of_eq_nil fun _ _ => patternNames_of_not_isPart]
  induction cs with
  | nil => rw [namesInAll, List.flatMap_nil]
  | cons c cs ih =>
    rw [namesInAll, ih, List.flatMap_cons]
    cases hc : c.isNamed with
    | true => rfl
    | false => rw [patternNames_of_not_isPart (t := c) (by simp [isPart, hc])]; rfl

theorem namesInField_of_find? {cs : List Tree}
    (h : cs.find? (fun c => c.label.field == some f) = some p) :
    namesInField source f cs = patternNames source p := by
  induction cs with
  | nil => cases h
  | cons c cs ih =>
    rw [namesInField]
    by_cases hc : c.label.field = some f
    · rw [List.find?_cons_of_pos (by simpa using hc)] at h
      rw [if_pos hc, Option.some.inj h]
    · rw [List.find?_cons_of_neg (by simpa using hc)] at h
      rw [if_neg hc, ih h]

theorem patternNames_of_isName (h : isName t) : patternNames source t = [textOf source t] := by
  obtain ⟨l, children⟩ := t
  rw [patternNames]
  rcases isName_iff.mp h with hkind | hkind <;> rw [Tree.kind, Tree.label] at hkind <;> rw [hkind]

theorem patternNames_of_innerField? (hfield : innerField? t = some f) (hp : t.child? f = some p) :
    patternNames source t = patternNames source p := by
  rw [← namesInField_of_find? hp]
  obtain ⟨l, children⟩ := t
  rw [patternNames]
  obtain ⟨hkind, rfl⟩ | ⟨hkind | hkind, rfl⟩ := innerField?_eq_some_iff.mp hfield <;>
    rw [is_iff, Tree.kind, Tree.label] at hkind <;> rw [hkind] <;> rfl

theorem patternNames_of_group
    (hkind : t.is .objectPattern ∨ t.is .arrayPattern ∨ t.is .restPattern) :
    patternNames source t = (partsOf t).flatMap (patternNames source) := by
  rw [partsOf, ← namesInAll_eq_flatMap]
  obtain ⟨l, children⟩ := t
  rw [patternNames]
  rcases hkind with hkind | hkind | hkind <;>
    rw [is_iff, Tree.kind, Tree.label] at hkind <;> rw [hkind] <;> rfl

/-- **What is read of a pattern are the names that it binds.** -/
theorem patternNames_eq_map_bindingNames (source : List Char) (hp : IsPattern p) :
    patternNames source p = (bindingNames p).map (textOf source) := by
  induction hp with
  | name hkind hleaf =>
    rw [patternNames_of_isName hkind, bindingNames_of_isName hkind hleaf, List.map_singleton]
  | @pair t key p hkind hparts hkey hvalue hp ih =>
    have hfield : innerField? t = some .value := innerField?_eq_some_iff.mpr (Or.inl ⟨hkind, rfl⟩)
    have hfound : p.label.field = some .value := by simpa using List.find?_some hvalue
    have hinner : (partsOf t).filter (fun c => c.label.field == some .value) = [p] := by
      simp [hparts, hkey, hfound]
    rw [patternNames_of_innerField? hfield hvalue, bindingNames_of_innerField? hfield hinner, ih]
  | @withDefault t p value hkind hparts hleft hvalue hp ih =>
    have hfield : innerField? t = some .left := innerField?_eq_some_iff.mpr (Or.inr ⟨hkind, rfl⟩)
    have hfound : p.label.field = some .left := by simpa using List.find?_some hleft
    have hinner : (partsOf t).filter (fun c => c.label.field == some .left) = [p] := by
      simp [hparts, hvalue, hfound]
    rw [patternNames_of_innerField? hfield hleft, bindingNames_of_innerField? hfield hinner, ih]
  | group hkind hparts ih =>
    rw [patternNames_of_group hkind, bindingNames_of_group hkind, List.map_flatMap]
    exact List.flatMap_congr ih

end RootCause.Scope
