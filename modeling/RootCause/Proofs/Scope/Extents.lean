import RootCause.Proofs.Scope.Positions
import RootCause.Scope.Model

/-!
# Extents of declarations

What a tree declares extends over one of its nodes (`declaresOver_factsOfTree`): a declaration has
the range of its node, of the export around it, of a parameter or of a part of an import. So where
the nodes of the files lie inside their texts (`SourceFile.IsInside`), the extents of a symbol do
(`Project.IsExtent.inside`), and a symbol that stands for something has extents, all in one file
(`Project.IsBacked.exists_extents`). This holds of every symbol that is found at a location
(`Project.symbolsAt_are_declared`).
-/

namespace RootCause.Scope

open Source (Tree)

/-! ## The nodes of a tree -/

mutual

/-- A tree and all nodes within it. -/
def subtrees : Tree → List Tree
  | .node l children => .node l children :: subtreesIn children

/-- Some trees and all nodes within them. -/
def subtreesIn : List Tree → List Tree
  | [] => []
  | c :: cs => subtrees c ++ subtreesIn cs

end

variable {source : List Char} {above nodes nodes' : List Tree} {c n t : Tree} {facts facts' : List Fact}

theorem subtreesIn_eq_flatMap (cs : List Tree) : subtreesIn cs = cs.flatMap subtrees := by
  induction cs with
  | nil => rfl
  | cons c cs ih => rw [subtreesIn, ih, List.flatMap_cons]

theorem subtrees_eq (t : Tree) : subtrees t = t :: t.children.flatMap subtrees := by
  obtain ⟨l, children⟩ := t
  rw [subtrees, subtreesIn_eq_flatMap, Tree.children]

theorem mem_subtrees_iff : n ∈ subtrees t ↔ n = t ∨ ∃ c ∈ t.children, n ∈ subtrees c := by
  rw [subtrees_eq, List.mem_cons, List.mem_flatMap]

/-- Induction over the children of a tree. -/
@[elab_as_elim]
theorem induction_children {motive : Tree → Prop}
    (node : ∀ t, (∀ c ∈ t.children, motive c) → motive t) (t : Tree) : motive t := by
  obtain ⟨l, children⟩ := t
  exact node _ fun c (_ : c ∈ children) => induction_children node c

theorem self_mem_subtrees (t : Tree) : t ∈ subtrees t := mem_subtrees_iff.mpr (Or.inl rfl)

theorem subtrees_subset (h : c ∈ t.children) : subtrees c ⊆ subtrees t :=
  fun _ hn => mem_subtrees_iff.mpr (Or.inr ⟨c, h, hn⟩)

theorem mem_subtrees_of_mem_children (h : c ∈ t.children) : c ∈ subtrees t :=
  subtrees_subset h (self_mem_subtrees c)

theorem mem_children_of_child? {field : Source.Field} (h : t.child? field = some c) :
    c ∈ t.children := List.mem_of_find?_eq_some h

theorem mem_children_of_mem_namedChildren (h : c ∈ t.namedChildren) : c ∈ t.children :=
  List.mem_of_mem_filter h

/-! ## What nodes declare -/

/-- What some facts declare extends over some of these nodes. -/
def DeclaresOver (nodes : List Tree) (facts : List Fact) : Prop :=
  ∀ d, .declares d ∈ facts → ∃ n ∈ nodes, d.start = n.start ∧ d.stop = n.stop

theorem declaresOver_nil : DeclaresOver nodes [] := fun _ h => absurd h List.not_mem_nil

theorem DeclaresOver.append (h : DeclaresOver nodes facts) (h' : DeclaresOver nodes facts') :
    DeclaresOver nodes (facts ++ facts') :=
  fun d hd => (List.mem_append.mp hd).elim (h d) (h' d)

theorem DeclaresOver.mono (h : DeclaresOver nodes facts) (hsub : nodes ⊆ nodes') :
    DeclaresOver nodes' facts := by
  intro d hd
  obtain ⟨n, hn, hrange⟩ := h d hd
  exact ⟨n, hsub hn, hrange⟩

theorem declaresOver_declareAll {names : List String} {scope : ScopeKey} {extent : Tree}
    (h : extent ∈ nodes) : DeclaresOver nodes (declareAll names scope extent) := by
  intro d hd
  obtain ⟨name, -, heq⟩ := List.mem_map.mp hd
  cases heq
  exact ⟨extent, h, rfl, rfl⟩

/-- Facts that are not about declarations. -/
theorem declaresOver_of_forall_ne (h : ∀ d, .declares d ∉ facts) : DeclaresOver nodes facts :=
  fun d hd => absurd hd (h d)

theorem self_mem_subtrees_append : t ∈ subtrees t ++ above :=
  List.mem_append_left _ (self_mem_subtrees t)

theorem extentOf_mem : extentOf above t ∈ subtrees t ++ above := by
  unfold extentOf
  split
  next parent hparent =>
    split
    · exact List.mem_append_right _ (List.mem_of_head? hparent)
    · exact self_mem_subtrees_append
  next => exact self_mem_subtrees_append

theorem mem_of_child? {field : Source.Field} (h : t.child? field = some c) :
    c ∈ subtrees t ++ above :=
  List.mem_append_left _ (mem_subtrees_of_mem_children (mem_children_of_child? h))

theorem declaresOver_factsOfDeclaration :
    DeclaresOver (subtrees t ++ above) (factsOfDeclaration source above t) := by
  unfold factsOfDeclaration
  split
  · exact declaresOver_declareAll extentOf_mem
  · exact declaresOver_nil

theorem declaresOver_factsOfPattern (field : Source.Field) :
    DeclaresOver (subtrees t ++ above) (factsOfPattern source above t field) := by
  unfold factsOfPattern
  split
  · exact declaresOver_declareAll self_mem_subtrees_append
  · exact declaresOver_nil

theorem declaresOver_factsOfArrow : DeclaresOver (subtrees t ++ above) (factsOfArrow source t) := by
  unfold factsOfArrow
  split
  next parameter scope hparameter _ =>
    split
    · exact declaresOver_declareAll (mem_of_child? hparameter)
    · exact declaresOver_nil
  next => exact declaresOver_nil

theorem declaresOver_factsOfCatch : DeclaresOver (subtrees t ++ above) (factsOfCatch source t) := by
  unfold factsOfCatch
  split
  next parameter scope hparameter _ => exact declaresOver_declareAll (mem_of_child? hparameter)
  next => exact declaresOver_nil

/-- What a part of an import clause binds extends over the part or over a child of it. -/
theorem mem_subtrees_of_mem_importBindings {part extent : Tree} {name : String} {what : Imported}
    (h : (name, extent, what) ∈ importBindings source part) : extent ∈ subtrees part := by
  unfold importBindings at h
  split at h
  · cases List.mem_singleton.mp h
    exact self_mem_subtrees part
  · split at h
    · cases List.mem_singleton.mp h
      exact self_mem_subtrees part
    · cases h
  · obtain ⟨s, hs, hbinding⟩ := List.mem_filterMap.mp h
    obtain ⟨_, -, heq⟩ := Option.map_eq_some_iff.mp hbinding
    cases heq
    exact mem_subtrees_of_mem_children (mem_children_of_mem_namedChildren (List.mem_of_mem_filter hs))
  · cases h

theorem declaresOver_factsOfImport :
    DeclaresOver (subtrees t ++ above) (factsOfImport source above t) := by
  unfold factsOfImport
  split
  next => exact declaresOver_nil
  next s hs =>
    have hmention : DeclaresOver (subtrees t ++ above) [.mentions (unquotedText source s)] :=
      declaresOver_of_forall_ne (by simp)
    refine hmention.append ?_
    split
    next scope clause hscope hclause =>
      intro d hd
      obtain ⟨⟨name, extent, what⟩, hbinding, heq⟩ := List.mem_map.mp hd
      cases heq
      obtain ⟨part, hpart, hextent⟩ := List.mem_flatMap.mp hbinding
      have hclause : clause ∈ t.children :=
        mem_children_of_mem_namedChildren (List.mem_of_find?_eq_some hclause)
      have hsub : subtrees part ⊆ subtrees t := List.Subset.trans
        (subtrees_subset (mem_children_of_mem_namedChildren hpart)) (subtrees_subset hclause)
      exact ⟨extent, List.mem_append_left _ (hsub (mem_subtrees_of_mem_importBindings hextent)),
        rfl, rfl⟩
    next => exact declaresOver_nil

theorem declaresOver_factsOfAnonymous :
    DeclaresOver (subtrees t ++ above) (factsOfAnonymous above t) := by
  unfold factsOfAnonymous
  split
  · exact (declaresOver_declareAll self_mem_subtrees_append).append
      (declaresOver_of_forall_ne (by simp))
  · exact declaresOver_nil

theorem declaresOver_factsOfExport :
    DeclaresOver (subtrees t ++ above) (factsOfExport source above t) := by
  refine DeclaresOver.append (declaresOver_of_forall_ne (by simp)) ?_
  split
  · -- an exported declaration
    dsimp only
    split
    · split
      · exact declaresOver_of_forall_ne (by simp)
      · exact declaresOver_factsOfAnonymous
    · exact declaresOver_of_forall_ne (by simp)
  · split
    · -- an exported value
      split
      · exact declaresOver_of_forall_ne (by simp)
      · exact declaresOver_factsOfAnonymous
    · refine declaresOver_of_forall_ne fun d hd => ?_
      obtain ⟨part, -, hpart⟩ := List.mem_flatMap.mp hd
      obtain ⟨e, he⟩ := exists_exports_of_mem_factsOfExportPart hpart
      cases he

theorem declaresOver_factsOfNode :
    DeclaresOver (subtrees t ++ above) (factsOfNode source above t) := by
  unfold factsOfNode
  split
  · exact declaresOver_nil
  · split
    · exact declaresOver_factsOfDeclaration
    · split
      · exact declaresOver_factsOfPattern .name
      · exact declaresOver_factsOfPattern .pattern
      · exact declaresOver_factsOfPattern .pattern
      · exact declaresOver_factsOfArrow
      · exact declaresOver_factsOfCatch
      · exact declaresOver_factsOfImport
      · exact declaresOver_factsOfExport
      · exact declaresOver_nil

mutual

/-- **What a tree declares extends over its nodes**, or over those above it. -/
theorem declaresOver_factsOfTree (source : List Char) (above : List Tree) :
    ∀ t, DeclaresOver (subtrees t ++ above) (factsOfTree source above t)
  | .node l children => by
    rw [factsOfTree]
    refine declaresOver_factsOfNode.append ?_
    -- above the children stands the node itself, which is one of the tree's nodes
    refine (declaresOver_factsOfTrees source (.node l children :: above) children).mono ?_
    rw [subtrees]
    intro n hn
    simp only [List.mem_append, List.mem_cons] at hn ⊢
    tauto

theorem declaresOver_factsOfTrees (source : List Char) (above : List Tree) :
    ∀ ts, DeclaresOver (subtreesIn ts ++ above) (factsOfTrees source above ts)
  | [] => declaresOver_nil
  | c :: cs => by
    rw [factsOfTrees, subtreesIn, List.append_assoc]
    refine ((declaresOver_factsOfTrees source above cs).mono
      (List.subset_append_right _ _)).append ?_
    split
    · refine (declaresOver_factsOfTree source above c).mono (List.append_subset.mpr ?_)
      exact ⟨List.subset_append_left _ _, List.subset_append_of_subset_right _
        (List.subset_append_right _ _)⟩
    · exact declaresOver_nil

end

/-! ## Files whose nodes lie inside their texts -/

/-- What a file says is read from its tree, the nodes of which lie inside its text. -/
structure SourceFile.IsInside (f : SourceFile) : Prop where
  facts_eq : f.facts = .collect f.source f.tree
  range_le : ∀ n ∈ subtrees f.tree, n.start ≤ n.stop ∧ n.stop ≤ Text.byteLength f.source

theorem mem_declarations_collect {d : Declaration} :
    d ∈ (FileFacts.collect source t).declarations ↔ .declares d ∈ factsOfTree source [] t := by
  simp only [FileFacts.collect, FileFacts.ofFacts, List.mem_filterMap]
  constructor
  · rintro ⟨_ | _ | _, hfact, heq⟩
    · cases heq
      exact hfact
    · cases heq
    · cases heq
  · exact fun h => ⟨_, h, rfl⟩

theorem SourceFile.IsInside.declaration_le {f : SourceFile} (h : f.IsInside) {d : Declaration}
    (hd : d ∈ f.facts.declarations) : d.start ≤ d.stop ∧ d.stop ≤ Text.byteLength f.source := by
  rw [h.facts_eq, mem_declarations_collect] at hd
  obtain ⟨n, hn, hstart, hstop⟩ := declaresOver_factsOfTree f.source [] f.tree d hd
  rw [List.append_nil] at hn
  rw [hstart, hstop]
  exact h.range_le n hn

instance (f : SourceFile) : Decidable f.IsInside :=
  decidable_of_iff (f.facts = .collect f.source f.tree ∧
      ∀ n ∈ subtrees f.tree, n.start ≤ n.stop ∧ n.stop ≤ Text.byteLength f.source)
    ⟨fun ⟨hfacts, hrange⟩ => ⟨hfacts, hrange⟩, fun ⟨hfacts, hrange⟩ => ⟨hfacts, hrange⟩⟩

/-! ## Where declarations stand -/

/-- Where the declarations of a name in a scope stand among those of the file. -/
def SourceFile.placesOf (f : SourceFile) (scope : ScopeKey) (name : String) : List Nat :=
  f.facts.declarations.findIdxs fun d => d.scope = scope ∧ d.name = name

/-- At every place there is a declaration, and these are the ones that are looked up. -/
theorem SourceFile.map_placesOf (f : SourceFile) (scope : ScopeKey) (name : String) :
    (f.placesOf scope name).map (f.facts.declarations[·]?) =
      (f.declarationsOf scope name).map some := by
  refine List.ext_getElem ?_ fun i _ hi => ?_
  · simp [placesOf, declarationsOf, List.countP_eq_length_filter]
  · rw [List.length_map] at hi
    have hget := List.getElem_filter_eq_getElem_getElem_findIdxs hi
    rw [List.getElem_map, List.getElem_map]
    exact (List.getElem?_eq_getElem _).trans (congrArg some hget.symm)

theorem SourceFile.exists_place {f : SourceFile} {scope : ScopeKey} {name : String}
    {d : Declaration} (h : d ∈ f.declarationsOf scope name) :
    ∃ i ∈ f.placesOf scope name, f.facts.declarations[i]? = some d := by
  refine List.mem_map.mp ?_
  rw [map_placesOf]
  exact List.mem_map_of_mem h

namespace Project

variable {p : Project} {f : PlacedFile} {symbol : Symbol}

/-! ## The extents of a symbol -/

/-- An extent of a symbol in a file: that of the file, if the symbol is the file, or that of a
declaration of the name that the symbol is. -/
inductive IsExtent (f : PlacedFile) : Symbol → Order.Span → Prop
  | whole : IsExtent f (.module f.place) ⟨f.path, 0, Text.byteLength f.source⟩
  | declared {scope : ScopeKey} {name : String} {i : Nat} {d : Declaration}
    (place : i ∈ f.placesOf scope name) (read : f.facts.declarations[i]? = some d) :
    IsExtent f (.binding f.place scope name) ⟨f.path, d.start, d.stop⟩

theorem IsExtent.inside {span : Order.Span} (h : IsExtent f symbol span) (hf : f.IsInside) :
    span.file = f.path ∧ span.start ≤ span.stop ∧ span.stop ≤ Text.byteLength f.source := by
  cases h with
  | whole => exact ⟨rfl, Nat.zero_le _, le_rfl⟩
  | declared _ read => exact ⟨rfl, hf.declaration_le (List.mem_of_getElem? read)⟩

/-- A symbol that stands for something has extents, all in the file where it is declared. -/
theorem IsBacked.exists_extents (h : p.IsBacked symbol) :
    p.spans symbol ≠ [] ∧ ∃ f, p.fileAt? f.place = some f ∧
      ∀ span ∈ p.spans symbol, IsExtent f symbol span := by
  obtain ⟨hfile, hd⟩ | hfile := h
  next f d =>
    have hspans : p.spans (.binding f.place d.scope d.name) =
        (f.declarationsOf d.scope d.name).map fun d => ⟨f.path, d.start, d.stop⟩ := by
      rw [spans, hfile]
    have hmem : d ∈ f.declarationsOf d.scope d.name := List.mem_filter.mpr ⟨hd, by simp⟩
    rw [hspans]
    refine ⟨List.ne_nil_of_mem (List.mem_map_of_mem hmem), f, hfile, fun span hspan => ?_⟩
    obtain ⟨d', hd', rfl⟩ := List.mem_map.mp hspan
    obtain ⟨i, hplace, hread⟩ := SourceFile.exists_place hd'
    exact .declared hplace hread
  next f =>
    have hspans : p.spans (.module f.place) = [⟨f.path, 0, Text.byteLength f.source⟩] := by
      rw [spans, hfile]
    rw [hspans]
    refine ⟨List.cons_ne_nil _ _, f, hfile, fun span hspan => ?_⟩
    rw [List.mem_singleton.mp hspan]
    exact .whole

/-! ## The symbols at a location -/

theorem mem_symbolsAt {l : Location} (h : symbol ∈ p.toModel.symbolsAt l) :
    ∃ f start stop, p.file? l.file = some f ∧ p.symbolAt? f start stop = some symbol := by
  have hsymbol : p.symbolOfLocation? l = some symbol := Option.mem_toList.mp h
  obtain ⟨f, hf, hsymbol⟩ := Option.bind_eq_some_iff.mp hsymbol
  obtain ⟨start, -, hsymbol⟩ := Option.bind_eq_some_iff.mp hsymbol
  exact ⟨f, start, _, hf, hsymbol⟩

/-- **What is found at a location is declared.** A symbol there has extents, all in one file of the
project and inside its text if the nodes of all files lie inside theirs. Each is that of a
declaration of the file, or of the file as a whole. On the way only files of the project are asked,
so none of the requests that are expanded ends at a missing file, and at each place where a file has
a name declared, the first of which counts, there is a declaration. -/
theorem symbolsAt_are_declared (hinside : ∀ f ∈ p.files, f.IsInside) (l : Location) :
    (∀ symbol ∈ p.toModel.symbolsAt l, p.toModel.spans symbol ≠ [] ∧
      ∃ f, f.toSourceFile ∈ p.files ∧ p.fileAt? f.place = some f ∧
        ∀ span ∈ p.toModel.spans symbol, IsExtent f symbol span ∧ span.file = f.path ∧
          span.start ≤ span.stop ∧ span.stop ≤ Text.byteLength f.source) ∧
    (∀ f start stop ref, p.file? l.file = some f → f.referenceAt? start stop = some ref →
      ∃ expanded, p.Resolves f ref (p.symbolAt? f start stop, expanded) ∧
        ∀ r ∈ expanded, ∃ g, p.fileAt? r.file = some g) ∧
    ∀ f ∈ p.files, ∀ scope name,
      (f.placesOf scope name).map (f.facts.declarations[·]?) =
        (f.declarationsOf scope name).map some ∧
      (f.declarationsOf scope name).head? = f.declaration? scope name := by
  refine ⟨fun symbol hsymbol => ?_, fun f start stop ref hf href => ?_,
    fun f _ scope name => ⟨f.map_placesOf scope name, f.head?_declarationsOf scope name⟩⟩
  · obtain ⟨f, start, stop, hf, hfound⟩ := mem_symbolsAt hsymbol
    obtain ⟨hne, g, hg, hextents⟩ := (isBacked_of_symbolAt? hf hfound).exists_extents
    have hmem : g.toSourceFile ∈ p.files := (fileAt?_eq_some hg).1
    exact ⟨hne, g, hmem, hg, fun span hspan =>
      ⟨hextents span hspan, (hextents span hspan).inside (hinside _ hmem)⟩⟩
  · have hresolves := resolves_symbolOf hf href
    exact ⟨_, hresolves, hresolves.exists_fileAt?⟩

/-- A file that imports another one as a whole, which exports all names of a third one. -/
def importedNamespace : Project := .ofSources Source.parse .standard [
  (⟨"/p/a.ts"⟩, "export let x = 'é'".toList),
  (⟨"/p/b.ts"⟩, "export * from './a'".toList),
  (⟨"/p/c.ts"⟩, "import * as ns from './b'; ns.x".toList)]

theorem symbolsAt_are_declared_importedNamespace :
    (∀ f ∈ importedNamespace.files, f.IsInside) ∧
    ∃ symbol ∈ importedNamespace.toModel.symbolsAt { file := ⟨"/p/c.ts"⟩, line := 1, column := 31 },
      importedNamespace.toModel.spans symbol ≠ [] ∧
      ∃ f ∈ importedNamespace.files, ∀ span ∈ importedNamespace.toModel.spans symbol,
        span.file = f.path ∧ span.stop ≤ Text.byteLength f.source := by
  have hinside : ∀ f ∈ importedNamespace.files, f.IsInside := by decide +kernel
  obtain ⟨hsymbols, -⟩ :=
    symbolsAt_are_declared hinside { file := ⟨"/p/c.ts"⟩, line := 1, column := 31 }
  have hmem : Symbol.binding 0 ⟨0, 19, .program⟩ "x" ∈
      importedNamespace.toModel.symbolsAt { file := ⟨"/p/c.ts"⟩, line := 1, column := 31 } := by
    decide +kernel
  obtain ⟨hne, f, hf, -, hspans⟩ := hsymbols _ hmem
  exact ⟨hinside, _, hmem, hne, f.toSourceFile, hf, fun span hspan =>
    ⟨(hspans span hspan).2.1, (hspans span hspan).2.2.2⟩⟩

end Project

end RootCause.Scope
