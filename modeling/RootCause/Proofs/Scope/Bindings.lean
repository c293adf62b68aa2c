import RootCause.Proofs.Scope.Patterns
import RootCause.Source.Parser

/-!
# What variables and parameters declare

The facts of a file are gathered from the nodes under its root, where each node is met with those
around it (`IsUnder`), and what a node says stands in one piece among them
(`IsUnder.factsOfNode_infix`). A variable or a parameter has its pattern in a field of its own
(`bindingField?`). It declares the names that the pattern binds, each over its own extent, in the
nearest scope around it, and says nothing else (`binder_declares_binding_names`).
-/

namespace RootCause.Scope

open Source (Tree NodeKind Field)

variable {source : List Char} {above around : List Tree} {root t b p : Tree} {f : Field}
  {k : NodeKind}

/-! ## Nodes and the scopes around them -/

/-- A node is met under a root by way of named children. The nodes around it are given, the nearest
first. -/
inductive IsUnder (root : Tree) : List Tree → Tree → Prop
  | root : IsUnder root [] root
  | child {above : List Tree} {t c : Tree} (h : IsUnder root above t) (hc : c ∈ t.namedChildren) :
      IsUnder root (t :: above) c

/-- A scope is the first one among the nodes around a node, the nearest of which is the first. -/
def IsNearestScope (above : List Tree) (scope : ScopeKey) : Prop :=
  ∃ inner s outer, above = inner ++ s :: outer ∧ ScopeKey.of? s = some scope ∧
    ∀ a ∈ inner, ScopeKey.of? a = none

theorem enclosing?_eq_some_iff {scope : ScopeKey} :
    enclosing? above = some scope ↔ IsNearestScope above scope := by
  rw [enclosing?, scopesOf, List.head?_filterMap, List.findSome?_eq_some_iff, IsNearestScope]

theorem factsOfTrees_eq_flatMap (source : List Char) (above cs : List Tree) :
    factsOfTrees source above cs =
      (cs.filter Tree.isNamed).reverse.flatMap (factsOfTree source above) := by
  induction cs with
  | nil => rw [factsOfTrees]; rfl
  | cons c cs ih =>
    rw [factsOfTrees, ih]
    cases hc : c.isNamed <;> simp [hc]

theorem factsOfTree_eq (source : List Char) (above : List Tree) (t : Tree) :
    factsOfTree source above t = factsOfNode source above t ++
      t.namedChildren.reverse.flatMap (factsOfTree source (t :: above)) := by
  obtain ⟨l, children⟩ := t
  rw [factsOfTree, factsOfTrees_eq_flatMap, Tree.namedChildren, Tree.children]

namespace IsUnder

theorem eq_or_mem (h : IsUnder root above t) : t = root ∨ root ∈ above := by
  induction h with
  | root => exact Or.inl rfl
  | child h hc ih =>
    obtain rfl | hroot := ih
    · exact Or.inr List.mem_cons_self
    · exact Or.inr (List.mem_cons_of_mem _ hroot)

/-- What is said under a node of a file stands in one piece among what the file says. -/
theorem factsOfTree_infix (h : IsUnder root above t) :
    factsOfTree source above t <:+: factsOfTree source [] root := by
  induction h with
  | root => exact List.infix_rfl
  | child h hc ih =>
    refine List.IsInfix.trans ?_ ih
    obtain ⟨before, after, hsplit⟩ := List.append_of_mem (List.mem_reverse.mpr hc)
    nth_rewrite 2 [factsOfTree_eq]
    rw [hsplit, List.flatMap_append, List.flatMap_cons, ← List.append_assoc, ← List.append_assoc]
    exact (List.suffix_append _ _).isInfix.trans (List.prefix_append _ _).isInfix

theorem factsOfNode_infix (h : IsUnder root above t) :
    factsOfNode source above t <:+: factsOfTree source [] root := by
  refine List.IsInfix.trans ?_ h.factsOfTree_infix
  rw [factsOfTree_eq]
  exact (List.prefix_append _ _).isInfix

end IsUnder

/-! ## Declarations of a pattern's names -/

/-- The declaration that a fact is about, if it is about one. -/
def Fact.declaration? : Fact → Option Declaration
  | .declares d => some d
  | _ => none

theorem declarations_ofFacts (facts : List Fact) :
    (FileFacts.ofFacts facts).declarations = facts.filterMap Fact.declaration? := rfl

/-- The field in which a variable or a parameter has its pattern. -/
def bindingField? (t : Tree) : Option Field :=
  match t.kind with
  | .named .variableDeclarator => some .name
  | .named .requiredParameter | .named .optionalParameter => some .pattern
  | _ => none

/-- A node, with those above it, says what a variable or a parameter binds, with the nodes around
that and its pattern. -/
inductive IsBinder (above : List Tree) (t : Tree) : List Tree → Tree → Tree → Prop
  /-- A variable, or a parameter in parentheses. -/
  | ofField {f : Field} {p : Tree} (hfield : bindingField? t = some f) (hp : t.child? f = some p) :
      IsBinder above t above t p
  /-- The parameter of an arrow function without parentheses. -/
  | bare {p : Tree} (hkind : t.is .arrowFunction) (hp : t.child? .parameter = some p)
      (hname : p.is .identifier) : IsBinder above t (t :: above) p p
  /-- The parameter of a catch clause. -/
  | caught {p : Tree} (hkind : t.is .catchClause) (hp : t.child? .parameter = some p) :
      IsBinder above t (t :: above) p p

theorem factsOfNode_of_bindingField? (h : bindingField? t = some f) :
    factsOfNode source above t = factsOfPattern source above t f := by
  rw [bindingField?] at h
  rw [factsOfNode]
  split at h
  next hkind => rw [hkind, ← Option.some.inj h]; rfl
  next hkind => rw [hkind, ← Option.some.inj h]; rfl
  next hkind => rw [hkind, ← Option.some.inj h]; rfl
  next => cases h

theorem of?_eq_some_of_mem_scopeKinds (hkind : t.is k) (hk : k ∈ scopeKinds) :
    ScopeKey.of? t = some ⟨t.start, t.stop, k⟩ := by
  rw [ScopeKey.of?, is_iff.mp hkind]
  exact if_pos (List.contains_iff_mem.mpr hk)

theorem enclosing?_cons_of_of? {scope : ScopeKey} (h : ScopeKey.of? t = some scope) :
    enclosing? (t :: above) = some scope := by
  rw [enclosing?, scopesOf, List.filterMap_cons_some h, List.head?_cons]

namespace IsBinder

/-- What a variable or a parameter binds is declared over its extent, and nothing else is said. -/
theorem factsOfNode_eq (h : IsBinder above t around b p)
    {scope : ScopeKey} (hscope : IsNearestScope around scope) :
    factsOfNode source above t = declareAll (patternNames source p) scope b := by
  have henclosing := enclosing?_eq_some_iff.mpr hscope
  cases h with
  | ofField hfield hp =>
    rw [factsOfNode_of_bindingField? hfield, factsOfPattern, hp, henclosing]
  | bare hkind hp hname =>
    have hkey := of?_eq_some_of_mem_scopeKinds hkind (by decide)
    obtain rfl := Option.some.inj ((enclosing?_cons_of_of? hkey).symm.trans henclosing)
    have hnames : patternNames source b = [textOf source b] :=
      patternNames_of_isName (isName_iff.mpr (Or.inl (is_iff.mp hname)))
    rw [hnames, factsOfNode, is_iff.mp hkind]
    change factsOfArrow source t = _
    rw [factsOfArrow, hp, hkey]
    exact if_pos hname
  | caught hkind hp =>
    have hkey := of?_eq_some_of_mem_scopeKinds hkind (by decide)
    obtain rfl := Option.some.inj ((enclosing?_cons_of_of? hkey).symm.trans henclosing)
    rw [factsOfNode, is_iff.mp hkind]
    change factsOfCatch source t = _
    rw [factsOfCatch, hp, hkey]

/-- There is a scope around every variable and every parameter of a file. -/
theorem exists_isNearestScope (h : IsBinder above t around b p) (hunder : IsUnder root above t)
    (hroot : root.is .program) : ∃ scope, IsNearestScope around scope := by
  have hsome : ∃ s ∈ around, (ScopeKey.of? s).isSome := by
    cases h with
    | ofField hfield hp =>
      have hkey := of?_eq_some_of_mem_scopeKinds hroot (by decide)
      obtain rfl | hmem := hunder.eq_or_mem
      · rw [bindingField?, is_iff.mp hroot] at hfield
        cases hfield
      · exact ⟨root, hmem, by rw [hkey]; rfl⟩
    | bare hkind hp hname =>
      have hkey := of?_eq_some_of_mem_scopeKinds hkind (by decide)
      exact ⟨t, List.mem_cons_self, by rw [hkey]; rfl⟩
    | caught hkind hp =>
      have hkey := of?_eq_some_of_mem_scopeKinds hkind (by decide)
      exact ⟨t, List.mem_cons_self, by rw [hkey]; rfl⟩
  rw [← List.findSome?_isSome_iff, ← List.head?_filterMap] at hsome
  obtain ⟨scope, hfound⟩ := Option.isSome_iff_exists.mp hsome
  exact ⟨scope, enclosing?_eq_some_iff.mp hfound⟩

end IsBinder

/-- **A pattern binds exactly the names outside its keys and default values.** What is read of it
are their texts in document order, each as often as it occurs. A variable or a parameter with the
pattern declares exactly these names, each over its own extent, in the nearest scope around it. -/
theorem binder_declares_binding_names (source : List Char) (hp : IsPattern p) :
    patternNames source p = (bindingNames p).map (textOf source) ∧
    (IsLaidOut p →
      (∀ n, n ∈ bindingNames p ↔
        n ∈ subtrees p ∧ isName n ∧ ∀ e ∈ asidesOf p, n ∉ subtrees e) ∧
      (bindingNames p).Nodup ∧ (bindingNames p).Pairwise fun a b => a.stop ≤ b.start) ∧
    ∀ {root t b : Tree} {above around : List Tree}, root.is .program → IsUnder root above t →
      IsBinder above t around b p → ∃ scope, IsNearestScope around scope ∧
        let declared : List Declaration := (bindingNames p).map fun n =>
          ⟨textOf source n, scope, b.start, b.stop, .here⟩
        factsOfNode source above t = declared.map .declares ∧
          declared <:+: (FileFacts.collect source root).declarations := by
  have hnames := patternNames_eq_map_bindingNames source hp
  refine ⟨hnames, fun hlaid => ⟨fun n => hlaid.mem_bindingNames_iff, hlaid.nodup_bindingNames,
    hlaid.pairwise_bindingNames⟩, ?_⟩
  intro root t b above around hroot hunder hbinder
  obtain ⟨scope, hscope⟩ := hbinder.exists_isNearestScope hunder hroot
  refine ⟨scope, hscope, ?_⟩
  intro declared
  have hfacts : factsOfNode source above t = declared.map .declares := by
    rw [hbinder.factsOfNode_eq hscope, declareAll, hnames, List.map_map, List.map_map]
    rfl
  have hdeclared : (factsOfNode source above t).filterMap Fact.declaration? = declared := by
    rw [hfacts, List.filterMap_map]
    exact List.filterMap_some
  rw [FileFacts.collect, declarations_ofFacts]
  exact ⟨hfacts, hdeclared ▸ hunder.factsOfNode_infix.filterMap Fact.declaration?⟩

/-- A variable with a pattern in which there are a computed key, a comment and a default value. -/
def commentedSource : List Char := "const \x7b a, [k]: /* b */ [c = d(c)], ...e \x7d = f;".toList

/-- The pair in the pattern, with a comment in front of its value. -/
def commentedPair : Tree :=
  .node ⟨.named .pairPattern, none, 11, 34⟩ [
    .node ⟨.named .computedPropertyName, none, 11, 14⟩ [
      .node ⟨.token "[", none, 11, 12⟩ [],
      .node ⟨.named .identifier, none, 12, 13⟩ [],
      .node ⟨.token "]", none, 13, 14⟩ []],
    .node ⟨.token ":", none, 14, 15⟩ [],
    .node ⟨.named .comment, none, 16, 23⟩ [],
    .node ⟨.named .arrayPattern, some .value, 24, 34⟩ [
      .node ⟨.token "[", none, 24, 25⟩ [],
      .node ⟨.named .assignmentPattern, none, 25, 33⟩ [
        .node ⟨.named .identifier, some .left, 25, 26⟩ [],
        .node ⟨.token "=", none, 27, 28⟩ [],
        .node ⟨.named .callExpression, none, 29, 33⟩ [
          .node ⟨.named .identifier, none, 29, 30⟩ [],
          .node ⟨.named .arguments, none, 30, 33⟩ [
            .node ⟨.token "(", none, 30, 31⟩ [],
            .node ⟨.named .identifier, none, 31, 32⟩ [],
            .node ⟨.token ")", none, 32, 33⟩ []]]],
      .node ⟨.token "]", none, 33, 34⟩ []]]

/-- The pattern, with its signs. -/
def commentedPattern : Tree :=
  .node ⟨.named .objectPattern, some .name, 6, 42⟩ [
    .node ⟨.token "\x7b", none, 6, 7⟩ [],
    .node ⟨.named .shorthandPropertyIdentifierPattern, none, 8, 9⟩ [],
    .node ⟨.token ",", none, 9, 10⟩ [],
    commentedPair,
    .node ⟨.token ",", none, 34, 35⟩ [],
    .node ⟨.named .restPattern, none, 36, 40⟩ [
      .node ⟨.token "...", none, 36, 39⟩ [],
      .node ⟨.named .identifier, none, 39, 40⟩ []],
    .node ⟨.token "\x7d", none, 41, 42⟩ []]

/-- The variable. -/
def commentedVariable : Tree :=
  .node ⟨.named .variableDeclarator, none, 6, 46⟩ [
    commentedPattern,
    .node ⟨.token "=", none, 43, 44⟩ [],
    .node ⟨.named .identifier, some .value, 45, 46⟩ []]

/-- The declaration of the variable. -/
def commentedDeclaration : Tree :=
  .node ⟨.named .lexicalDeclaration, none, 0, 47⟩ [
    .node ⟨.token "const", none, 0, 5⟩ [],
    commentedVariable,
    .node ⟨.token ";", none, 46, 47⟩ []]

/-- The file. -/
def commentedFile : Tree := .node ⟨.named .program, none, 0, 47⟩ [commentedDeclaration]

theorem isPattern_commentedPair : IsPattern commentedPair := by
  refine .pair rfl rfl (by decide) rfl ?_
  refine .group (Or.inr (Or.inl rfl)) (List.forall_mem_singleton.mpr ?_)
  exact .withDefault (Or.inl rfl) rfl rfl (by decide) (.name rfl rfl)

theorem isPattern_commentedPattern : IsPattern commentedPattern := by
  refine .group (Or.inl rfl) (List.forall_mem_cons.mpr ⟨.name rfl rfl, ?_⟩)
  refine List.forall_mem_cons.mpr ⟨isPattern_commentedPair, List.forall_mem_singleton.mpr ?_⟩
  exact .group (Or.inr (Or.inr rfl)) (List.forall_mem_singleton.mpr (.name rfl rfl))

theorem isUnder_commentedVariable :
    IsUnder commentedFile [commentedDeclaration, commentedFile] commentedVariable :=
  .child (.child .root List.mem_cons_self) List.mem_cons_self

theorem commentedVariable_declares :
    IsPattern commentedPattern ∧ IsLaidOut commentedPattern ∧
    patternNames commentedSource commentedPattern = ["a", "c", "e"] ∧
    ((bindingNames commentedPattern).Pairwise fun a b => a.stop ≤ b.start) ∧
    ∃ scope, IsNearestScope [commentedDeclaration, commentedFile] scope ∧
      ["a", "c", "e"].map (⟨·, scope, 6, 46, .here⟩) <:+:
        (FileFacts.collect commentedSource commentedFile).declarations := by
  have hlaid : IsLaidOut commentedPattern := by decide +kernel
  have htexts : (bindingNames commentedPattern).map (textOf commentedSource) = ["a", "c", "e"] := by
    decide +kernel
  have hbinder : IsBinder [commentedDeclaration, commentedFile] commentedVariable
      [commentedDeclaration, commentedFile] commentedVariable commentedPattern := .ofField rfl rfl
  obtain ⟨hnames, hplaced, hdeclares⟩ :=
    binder_declares_binding_names commentedSource isPattern_commentedPattern
  obtain ⟨scope, hscope, -, hdeclared⟩ := hdeclares rfl isUnder_commentedVariable hbinder
  rw [htexts] at hnames
  refine ⟨isPattern_commentedPattern, hlaid, hnames, (hplaced hlaid).2.2, scope, hscope, ?_⟩
  rw [← htexts, List.map_map]
  exact hdeclared

/-- The file as it is read has no nodes for signs and comments, and declares the same. -/
example : (FileFacts.collect commentedSource (Source.parse false commentedSource)).declarations =
    ["a", "c", "e"].map (⟨·, ⟨0, 47, .program⟩, 6, 46, .here⟩) := by
  decide +kernel

end RootCause.Scope
