import RootCause.Scope.Facts
import RootCause.Source.Parser

/-!
# Modules that a file mentions

A file mentions a module where it imports it or exports names of it (`mentioned?`). The walk over
the tree meets the nodes in the reverse of the order in which they end
(`filterMap_mention?_factsOfTree`), and each module is kept where it is first met, which is where
the text mentions it last. The modules are in the order of the text if and only if the one of any
two that is mentioned first is also mentioned last, as in a file that mentions a single module
(`specifiers_in_order_iff`).
-/

namespace RootCause.Scope

open Source (Tree NodeKind)

variable {source : List Char} {above : List Tree} {t : Tree}

/-! ## Mentions in the order of the text -/

mutual

/-- A tree and the named nodes within it in the order in which they end. Of two nodes that stand
side by side, the first in the text is the first here. -/
def nodesOf : Tree → List Tree
  | .node l children => nodesIn children ++ [.node l children]

/-- The named trees of a list and the named nodes within them. -/
def nodesIn : List Tree → List Tree
  | [] => []
  | c :: cs => (if c.isNamed then nodesOf c else []) ++ nodesIn cs

end

/-- The module that a node mentions: the source of an import, or of an export of names of another
module. -/
def mentioned? (source : List Char) (t : Tree) : Option String :=
  if t.is .importStatement || t.is .exportStatement then
    (t.child? .source).map (unquotedText source)
  else none

/-- The modules that some nodes mention. -/
def mentions (source : List Char) (nodes : List Tree) : List String :=
  nodes.filterMap (mentioned? source)

/-! ## What a node mentions -/

/-- The module that a fact is about, if it says that one is mentioned. -/
def Fact.mention? : Fact → Option String
  | .mentions specifier => some specifier
  | _ => none

/-- No fact says that a module is mentioned. -/
def IsSilent (facts : List Fact) : Prop := ∀ f ∈ facts, f.mention? = none

theorem isSilent_nil : IsSilent [] := fun _ h => absurd h List.not_mem_nil

theorem IsSilent.append {fs gs : List Fact} (hf : IsSilent fs) (hg : IsSilent gs) :
    IsSilent (fs ++ gs) := List.forall_mem_append.mpr ⟨hf, hg⟩

theorem isSilent_declareAll (names : List String) (scope : ScopeKey) (extent : Tree) :
    IsSilent (declareAll names scope extent) := List.forall_mem_map.mpr fun _ _ => rfl

theorem isSilent_factsOfDeclaration : IsSilent (factsOfDeclaration source above t) := by
  unfold factsOfDeclaration
  split
  · exact isSilent_declareAll _ _ _
  · exact isSilent_nil

theorem isSilent_factsOfPattern (f : Source.Field) : IsSilent (factsOfPattern source above t f) := by
  unfold factsOfPattern
  split
  · exact isSilent_declareAll _ _ _
  · exact isSilent_nil

theorem isSilent_factsOfArrow : IsSilent (factsOfArrow source t) := by
  unfold factsOfArrow
  split
  · split
    · exact isSilent_declareAll _ _ _
    · exact isSilent_nil
  · exact isSilent_nil

theorem isSilent_factsOfCatch : IsSilent (factsOfCatch source t) := by
  unfold factsOfCatch
  split
  · exact isSilent_declareAll _ _ _
  · exact isSilent_nil

theorem isSilent_factsOfAnonymous : IsSilent (factsOfAnonymous above t) := by
  unfold factsOfAnonymous
  split
  · exact (isSilent_declareAll _ _ _).append (List.forall_mem_singleton.mpr rfl)
  · exact isSilent_nil

theorem isSilent_factsOfExportPart (specifier : Option String) (part : Tree) :
    IsSilent (factsOfExportPart source specifier part) := by
  intro f hf
  obtain ⟨e, rfl⟩ := exists_exports_of_mem_factsOfExportPart hf
  rfl

theorem IsSilent.filterMap_eq_nil {facts : List Fact} (h : IsSilent facts) :
    facts.filterMap Fact.mention? = [] := List.filterMap_eq_nil_iff.mpr h

/-- A node that mentions a module says so, and nothing more of the kind. -/
theorem IsSilent.filterMap_append {facts : List Fact} (h : IsSilent facts)
    (specifier : Option String) :
    (specifier.toList.map Fact.mentions ++ facts).filterMap Fact.mention? = specifier.toList := by
  rw [List.filterMap_append, h.filterMap_eq_nil, List.append_nil]
  cases specifier <;> rfl

theorem filterMap_mention?_factsOfImport :
    (factsOfImport source above t).filterMap Fact.mention? =
      ((t.child? .source).map (unquotedText source)).toList := by
  unfold factsOfImport
  cases t.child? .source with
  | none => rfl
  | some s =>
    refine IsSilent.filterMap_append ?_ (some (unquotedText source s))
    split
    · exact List.forall_mem_map.mpr fun _ _ => rfl
    · exact isSilent_nil

theorem filterMap_mention?_factsOfExport :
    (factsOfExport source above t).filterMap Fact.mention? =
      ((t.child? .source).map (unquotedText source)).toList := by
  refine IsSilent.filterMap_append ?_ _
  split
  · -- an exported declaration
    dsimp only
    split
    · split
      · exact List.forall_mem_singleton.mpr rfl
      · exact isSilent_factsOfAnonymous
    · exact List.forall_mem_map.mpr fun _ _ => rfl
  · split
    · -- an exported value
      split
      · exact List.forall_mem_singleton.mpr rfl
      · exact isSilent_factsOfAnonymous
    · intro f hf
      obtain ⟨part, -, hpart⟩ := List.mem_flatMap.mp hf
      exact isSilent_factsOfExportPart _ part f hpart

theorem mentioned?_of_kind {k : NodeKind} (h : t.kind = .named k) :
    mentioned? source t =
      if k = .importStatement ∨ k = .exportStatement then
        (t.child? .source).map (unquotedText source)
      else none := by
  simp [mentioned?, Tree.is, h]

theorem filterMap_mention?_factsOfNode :
    (factsOfNode source above t).filterMap Fact.mention? = (mentioned? source t).toList := by
  unfold factsOfNode
  split
  next h => simp [mentioned?, Tree.is, h]
  next k h =>
    rw [mentioned?_of_kind h]
    split
    next hk =>
      have hkind : ¬ (k = .importStatement ∨ k = .exportStatement) := by
        rintro (rfl | rfl) <;> exact absurd hk (by decide)
      rw [if_neg hkind]
      exact isSilent_factsOfDeclaration.filterMap_eq_nil
    next =>
      split
      · exact (isSilent_factsOfPattern .name).filterMap_eq_nil
      · exact (isSilent_factsOfPattern .pattern).filterMap_eq_nil
      · exact (isSilent_factsOfPattern .pattern).filterMap_eq_nil
      · exact isSilent_factsOfArrow.filterMap_eq_nil
      · exact isSilent_factsOfCatch.filterMap_eq_nil
      · exact filterMap_mention?_factsOfImport
      · exact filterMap_mention?_factsOfExport
      next hi he =>
        rw [if_neg (not_or.mpr ⟨hi, he⟩)]
        rfl

/-! ## What a tree mentions -/

mutual

/-- The walk over a tree meets the mentions in the reverse order. -/
theorem filterMap_mention?_factsOfTree (source : List Char) (above : List Tree) :
    ∀ t, (factsOfTree source above t).filterMap Fact.mention? = (mentions source (nodesOf t)).reverse
  | .node l children => by
    rw [factsOfTree, nodesOf, mentions, List.filterMap_append, List.filterMap_append,
      List.reverse_append, filterMap_mention?_factsOfNode,
      filterMap_mention?_factsOfTrees source _ children, mentions]
    cases h : mentioned? source (.node l children) <;> simp [h]

theorem filterMap_mention?_factsOfTrees (source : List Char) (above : List Tree) :
    ∀ ts, (factsOfTrees source above ts).filterMap Fact.mention? =
      (mentions source (nodesIn ts)).reverse
  | [] => rfl
  | c :: cs => by
    rw [factsOfTrees, nodesIn, mentions, List.filterMap_append, List.filterMap_append,
      List.reverse_append, filterMap_mention?_factsOfTrees source above cs, mentions]
    split
    · rw [filterMap_mention?_factsOfTree source above c, mentions]
    · rfl

end

/-! ## The modules of a file -/

theorem specifiers_ofFacts (facts : List Fact) :
    (FileFacts.ofFacts facts).specifiers = distinct (facts.filterMap Fact.mention?) := rfl

/-- **A file's modules are in the order of their last mentions, the last one first.** They are in
the order of their first mentions if and only if, of any two modules, the one that is mentioned
first is also the one whose last mention comes last. -/
theorem specifiers_in_order_iff (source : List Char) (t : Tree) :
    let mentioned := mentions source (nodesOf t)
    (FileFacts.collect source t).specifiers = distinct mentioned.reverse ∧
      ((FileFacts.collect source t).specifiers = distinct mentioned ↔
        ∀ a ∈ mentioned, ∀ b ∈ mentioned, mentioned.idxOf a < mentioned.idxOf b →
          mentioned.reverse.idxOf a < mentioned.reverse.idxOf b) := by
  intro mentioned
  have hlast : (FileFacts.collect source t).specifiers = distinct mentioned.reverse := by
    rw [FileFacts.collect, specifiers_ofFacts, filterMap_mention?_factsOfTree]
  refine ⟨hlast, ?_⟩
  rw [hlast, eq_comm, distinct_eq_distinct_iff fun _ => List.mem_reverse.symm]

/-- A file that imports two modules. -/
def twoImports : List Char := "import './b';\nimport './c';\n".toList

theorem twoImports_specifiers :
    (FileFacts.collect twoImports (Source.parse false twoImports)).specifiers = ["./c", "./b"] ∧
      distinct (mentions twoImports (nodesOf (Source.parse false twoImports))) = ["./b", "./c"] := by
  decide +kernel

end RootCause.Scope
