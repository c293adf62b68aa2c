import RootCause.Proofs.Diagnostic.Identity
import RootCause.Proofs.Order.Cycles
import RootCause.Proofs.Order.Keyed
import Mathlib.Data.Prod.Lex

/-!
# Where edges come from

An edge leads from a problem inside a declaration to a problem at which its symbol is used
(`IsDeclaredAt`), or from the first problem of a file to a problem of a file that imports it
(`IsImportedAt`), and there are no others (`leads_edges`). The edges are a sorted list without
repetitions, so that they depend on nothing but which diagnostics there are (`edges_congr`).
-/

namespace RootCause.Order

variable {σ : Type}

/-! ## The two kinds of edges -/

/-- Where a diagnostic ends that starts at the offset `start`: at its end, or where it starts if
no end is given or the model does not know it. -/
def EndsAt (m : SemanticModel σ) (d : Diagnostic) (start stop : Nat) : Prop :=
  (∃ line column, d.location.endLine = some line ∧ d.location.endColumn = some column ∧
    m.offsetAt d.file line column = some stop) ∨
  ((∀ line column, d.location.endLine = some line → d.location.endColumn = some column →
    m.offsetAt d.file line column = none) ∧ stop = start)

/-- A diagnostic lies in the extent of a declaration: it is in the declaration's file, and its whole
range, which never ends before it starts, is in the extent. -/
def LiesIn (m : SemanticModel σ) (d : Diagnostic) (s : Span) : Prop :=
  d.file.normalize = s.file.normalize ∧
    ∃ start stop, m.offsetAt d.file d.line d.column = some start ∧ EndsAt m d start stop ∧
      s.start ≤ start ∧ max start stop ≤ s.stop

/-- A diagnostic with the identity `b` is at a symbol, and one with the identity `a` lies in a
declaration of the symbol. -/
def IsDeclaredAt (m : SemanticModel σ) (ds : List Diagnostic) (a b : Id) : Prop :=
  ∃ u ∈ ds, u.id = b ∧ ∃ d ∈ ds, d.id = a ∧
    ∃ symbol ∈ m.symbolsAt u.location, ∃ span ∈ m.spans symbol, LiesIn m d span

/-- Line, column and identity of a diagnostic, as diagnostics of one file are ordered. -/
def positionOf (d : Diagnostic) : Nat ×ₗ Nat ×ₗ String :=
  toLex (d.line, toLex (d.column, d.id.text))

/-- The first diagnostic of a file has the identity `a`. -/
def IsFirstIn (ds : List Diagnostic) (file : Path) (a : Id) : Prop :=
  ∃ d ∈ ds, d.id = a ∧ d.file.normalize = file ∧
    ∀ e ∈ ds, e.file.normalize = file → positionOf d ≤ positionOf e

/-- A diagnostic with the identity `b` is in a file that imports another one, and the first
diagnostic there has the identity `a`. -/
def IsImportedAt (m : SemanticModel σ) (ds : List Diagnostic) (a b : Id) : Prop :=
  ∃ file imported : Path, imported.normalize ≠ file ∧ imported ∈ m.imports file ∧
    (∃ u ∈ ds, u.id = b ∧ u.file.normalize = file) ∧ IsFirstIn ds imported.normalize a

/-! ## Ranges -/

theorem rangeOf_eq_some_iff {m : SemanticModel σ} {d : Diagnostic} {range : Nat × Nat} :
    m.rangeOf d = some range ↔ ∃ start stop, m.offsetAt d.file d.line d.column = some start ∧
      EndsAt m d start stop ∧ range = (start, max start stop) := by
  simp only [SemanticModel.rangeOf, Option.map_eq_some_iff, EndsAt]
  refine exists_congr fun start => ?_
  cases hl : d.location.endLine with
  | none => simp [eq_comm]
  | some line =>
    cases hc : d.location.endColumn with
    | none => simp [eq_comm]
    | some column =>
      cases ho : m.offsetAt d.file line column with
      | none => simp [ho, eq_comm]
      | some stop => simp [ho, eq_comm]

theorem isIn_of_iff {m : SemanticModel σ} {d : Diagnostic} {s : Span} :
    (Node.of m d).isIn s = true ↔ LiesIn m d s := by
  simp only [Node.isIn, Bool.and_eq_true, decide_eq_true_eq, Option.any_eq_true, Span.covers, LiesIn]
  refine and_congr_right fun _ => ?_
  constructor
  · rintro ⟨range, hrange, hle⟩
    obtain ⟨start, stop, hstart, hstop, rfl⟩ := rangeOf_eq_some_iff.mp hrange
    exact ⟨start, stop, hstart, hstop, hle⟩
  · rintro ⟨start, stop, hstart, hstop, hle⟩
    exact ⟨_, rangeOf_eq_some_iff.mpr ⟨start, stop, hstart, hstop, rfl⟩, hle⟩

/-! ## The first node of a file -/

/-- Line, column and identity of a node. -/
def Node.position (n : Node) : Nat ×ₗ Nat ×ₗ String :=
  toLex (n.line, toLex (n.column, n.id.text))

theorem Node.precedes_iff {a b : Node} : a.precedes b = true ↔ a.position < b.position := by
  simp [Node.precedes, Node.position, Prod.Lex.lt_iff, Id.lt_iff_text_lt]

theorem Node.first?_eq_none_iff {ns : List Node} : Node.first? ns = none ↔ ns = [] := by
  cases ns with
  | nil => simp [Node.first?]
  | cons a ns =>
    cases hrest : Node.first? ns with
    | none => simp [Node.first?, hrest]
    | some best => by_cases h : best.precedes a = true <;> simp [Node.first?, hrest, h]

theorem Node.first?_eq_some {ns : List Node} {n : Node} (h : Node.first? ns = some n) :
    n ∈ ns ∧ ∀ k ∈ ns, n.position ≤ k.position := by
  induction ns generalizing n with
  | nil => simp [Node.first?] at h
  | cons a ns ih =>
    cases hrest : Node.first? ns with
    | none =>
      simp only [Node.first?, hrest, Option.some.injEq] at h
      simp [Node.first?_eq_none_iff.mp hrest, h]
    | some best =>
      obtain ⟨hbest, hmin⟩ := ih hrest
      simp only [Node.first?, hrest] at h
      by_cases hlt : best.precedes a = true
      · obtain rfl : best = n := by simpa [hlt] using h
        refine ⟨List.mem_cons_of_mem _ hbest, fun k hk => ?_⟩
        rcases List.mem_cons.mp hk with rfl | hk
        · exact (Node.precedes_iff.mp hlt).le
        · exact hmin k hk
      · obtain rfl : a = n := by simpa [hlt] using h
        have hle : a.position ≤ best.position := not_lt.mp (mt Node.precedes_iff.mpr hlt)
        refine ⟨List.mem_cons_self, fun k hk => ?_⟩
        rcases List.mem_cons.mp hk with rfl | hk
        · exact le_rfl
        · exact hle.trans (hmin k hk)

theorem mem_nodes_of_file {m : SemanticModel σ} {ds : List Diagnostic} {file : Path} {n : Node} :
    n ∈ (ds.map (Node.of m)).filter (·.file = file) ↔
      ∃ d ∈ ds, d.file.normalize = file ∧ n = Node.of m d := by
  simp only [List.mem_filter, List.mem_map, decide_eq_true_eq]
  constructor
  · rintro ⟨⟨d, hd, rfl⟩, hfile⟩
    exact ⟨d, hd, hfile, rfl⟩
  · rintro ⟨d, hd, hfile, rfl⟩
    exact ⟨⟨d, hd, rfl⟩, hfile⟩

theorem exists_first?_iff {m : SemanticModel σ} {ds : List Diagnostic} {file : Path} {a : Id} :
    (∃ n, Node.first? ((ds.map (Node.of m)).filter (·.file = file)) = some n ∧ n.id = a) ↔
      IsFirstIn ds file a := by
  constructor
  · rintro ⟨n, hn, rfl⟩
    obtain ⟨hmem, hmin⟩ := Node.first?_eq_some hn
    obtain ⟨d, hd, hfile, rfl⟩ := mem_nodes_of_file.mp hmem
    exact ⟨d, hd, rfl, hfile, fun e he hefile =>
      hmin (Node.of m e) (mem_nodes_of_file.mpr ⟨e, he, hefile, rfl⟩)⟩
  · rintro ⟨d, hd, rfl, hfile, hmin⟩
    have hmem := mem_nodes_of_file.mpr ⟨d, hd, hfile, (rfl : Node.of m d = _)⟩
    obtain ⟨n, hn⟩ := Option.ne_none_iff_exists'.mp
      (mt Node.first?_eq_none_iff.mp (List.ne_nil_of_mem hmem))
    obtain ⟨hnmem, hnmin⟩ := Node.first?_eq_some hn
    obtain ⟨e, he, hefile, rfl⟩ := mem_nodes_of_file.mp hnmem
    -- neither of the two is before the other, so they agree on line, column and identity
    have heq : (Node.of m e).position = (Node.of m d).position :=
      le_antisymm (hnmin _ hmem) (hmin e he hefile)
    refine ⟨Node.of m e, hn, Id.ext_text ?_⟩
    simp only [Node.position, EmbeddingLike.apply_eq_iff_eq, Prod.mk.injEq] at heq
    exact heq.2.2

/-! ## The edges of each kind -/

theorem mem_between {a b : Id} {e : Edge} : e ∈ Edge.between a b ↔ a ≠ b ∧ e = ⟨a, b⟩ := by
  by_cases h : a = b <;> simp [Edge.between, h]

theorem mem_usageEdges [DecidableEq σ] {m : SemanticModel σ} {ds : List Diagnostic} {u : Diagnostic}
    {a b : Id} :
    ⟨a, b⟩ ∈ usageEdges m (ds.map (Node.of m)) u ↔ a ≠ b ∧ u.id = b ∧ ∃ d ∈ ds, d.id = a ∧
      ∃ symbol ∈ m.symbolsAt u.location, ∃ span ∈ m.spans symbol, LiesIn m d span := by
  simp only [usageEdges, List.mem_flatMap, List.mem_filter, List.mem_map, mem_between,
    SemanticModel.symbolsOf, mem_distinct, Edge.mk.injEq]
  constructor
  · rintro ⟨symbol, hsymbol, span, hspan, _, ⟨⟨d, hd, rfl⟩, hin⟩, hne, rfl, rfl⟩
    exact ⟨hne, rfl, d, hd, rfl, symbol, hsymbol, span, hspan, isIn_of_iff.mp hin⟩
  · rintro ⟨hne, rfl, d, hd, rfl, symbol, hsymbol, span, hspan, hin⟩
    exact ⟨symbol, hsymbol, span, hspan, Node.of m d, ⟨⟨d, hd, rfl⟩, isIn_of_iff.mpr hin⟩, hne, rfl,
      rfl⟩

theorem mem_importEdges {m : SemanticModel σ} {ds : List Diagnostic} {file : Path} {a b : Id} :
    ⟨a, b⟩ ∈ importEdges m (ds.map (Node.of m)) file ↔ a ≠ b ∧ ∃ imported ∈ m.imports file,
      imported.normalize ≠ file ∧ (∃ u ∈ ds, u.id = b ∧ u.file.normalize = file) ∧
        IsFirstIn ds imported.normalize a := by
  simp only [importEdges, List.mem_flatMap]
  constructor
  · rintro ⟨imported, himport, he⟩
    by_cases hself : imported.normalize = file
    · simp [hself] at he
    rw [if_neg hself] at he
    cases hfirst : Node.first? ((ds.map (Node.of m)).filter (·.file = imported.normalize)) with
    | none => simp [hfirst] at he
    | some first =>
      simp only [hfirst, List.mem_flatMap, mem_nodes_of_file, mem_between, Edge.mk.injEq] at he
      obtain ⟨_, ⟨u, hu, hufile, rfl⟩, hne, rfl, rfl⟩ := he
      exact ⟨hne, imported, himport, hself, ⟨u, hu, rfl, hufile⟩,
        exists_first?_iff.mp ⟨first, hfirst, rfl⟩⟩
  · rintro ⟨hne, imported, himport, hself, ⟨u, hu, rfl, hufile⟩, hfirst⟩
    obtain ⟨first, hfirst, rfl⟩ := exists_first?_iff.mpr hfirst
    refine ⟨imported, himport, ?_⟩
    rw [if_neg hself, hfirst]
    simp only [List.mem_flatMap, mem_nodes_of_file, mem_between]
    exact ⟨Node.of m u, ⟨u, hu, hufile, rfl⟩, hne, rfl⟩

/-! ## All edges -/

variable [DecidableEq σ] {m : SemanticModel σ} {ds : List Diagnostic}

theorem leads_edges {a b : Id} :
    Leads (edges m ds) a b ↔ a ≠ b ∧ (IsDeclaredAt m ds a b ∨ IsImportedAt m ds a b) := by
  simp only [Leads, edges, Edge.sorted, List.mem_mergeSort, mem_distinct, List.mem_append,
    List.mem_flatMap, List.mem_map, mem_usageEdges, mem_importEdges]
  constructor
  · rintro (⟨u, hu, hne, hb, hdecl⟩ | ⟨file, -, hne, imported, himport, hself, huse, hfirst⟩)
    · exact ⟨hne, .inl ⟨u, hu, hb, hdecl⟩⟩
    · exact ⟨hne, .inr ⟨file, imported, hself, himport, huse, hfirst⟩⟩
  · rintro ⟨hne, ⟨u, hu, hb, hdecl⟩ | ⟨file, imported, hself, himport, ⟨u, hu, hb, hfile⟩, hfirst⟩⟩
    · exact .inl ⟨u, hu, hne, hb, hdecl⟩
    · exact .inr ⟨file, ⟨Node.of m u, ⟨u, hu, rfl⟩, hfile⟩, hne, imported, himport, hself,
        ⟨u, hu, hb, hfile⟩, hfirst⟩

/-- Both ends of an edge are different identities of the diagnostics. -/
theorem links_of_leads_edges {a b : Id} (h : Leads (edges m ds) a b) :
    Links (ds.map Diagnostic.id) (edges m ds) a b := by
  have hmem : ∀ d ∈ ds, d.id ∈ ds.map Diagnostic.id := fun d hd => List.mem_map_of_mem hd
  obtain ⟨hne, ⟨u, hu, rfl, d, hd, rfl, -⟩ | ⟨-, -, -, -, ⟨u, hu, rfl, -⟩, d, hd, rfl, -⟩⟩ :=
    leads_edges.mp h
  · exact ⟨hne, hmem d hd, hmem u hu, h⟩
  · exact ⟨hne, hmem d hd, hmem u hu, h⟩

/-! ## The order of edges -/

/-- Source and target of an edge, as edges are ordered. -/
def Edge.ends (e : Edge) : String ×ₗ String := toLex (e.source.text, e.target.text)

theorem Edge.ends_injective : Function.Injective Edge.ends := by
  rintro ⟨⟨a⟩, ⟨b⟩⟩ ⟨⟨a'⟩, ⟨b'⟩⟩ h
  simpa [Edge.ends] using h

theorem Edge.le_iff (e f : Edge) : e.le f = true ↔ e.ends ≤ f.ends := by
  have hsource : e.source = f.source ↔ e.source.text = f.source.text :=
    ⟨congrArg Id.text, Id.ext_text⟩
  simp only [Edge.le, Edge.ends, Prod.Lex.le_iff, Id.lt_iff_text_lt, Bool.or_eq_true,
    Bool.and_eq_true, decide_eq_true_eq, beq_iff_eq, hsource, Bool.not_eq_true', decide_eq_false_iff_not,
    not_lt, ofLex_toLex]

theorem nodup_edges (m : SemanticModel σ) (ds : List Diagnostic) : (edges m ds).Nodup :=
  (List.mergeSort_perm _ _).nodup_iff.mpr (nodup_distinct _)

theorem pairwise_edges (m : SemanticModel σ) (ds : List Diagnostic) :
    (edges m ds).Pairwise fun e f => e.ends ≤ f.ends :=
  pairwise_mergeSort_of_key Edge.ends Edge.le_iff _

/-- The edges depend only on which diagnostics there are. -/
theorem edges_congr {ds' : List Diagnostic} (h : ∀ d, d ∈ ds ↔ d ∈ ds') :
    edges m ds = edges m ds' := by
  have hleads : ∀ a b, Leads (edges m ds) a b ↔ Leads (edges m ds') a b := fun a b => by
    simp only [leads_edges, IsDeclaredAt, IsImportedAt, IsFirstIn, h]
  have hperm : (edges m ds).Perm (edges m ds') :=
    (List.perm_ext_iff_of_nodup (nodup_edges m ds) (nodup_edges m ds')).mpr fun ⟨a, b⟩ => hleads a b
  exact hperm.eq_of_pairwise (fun e f _ _ hef hfe => Edge.ends_injective (le_antisymm hef hfe))
    (pairwise_edges m ds) (pairwise_edges m ds')

/-- **Where edges come from.** An edge leads from `a` to `b` exactly if these are different and a
diagnostic `a` lies in the declaration of a symbol at a diagnostic `b`, or a diagnostic `b` is in a
file that imports the file whose first diagnostic is `a`. So both ends are identities of the
diagnostics, and neither order nor repetitions of the diagnostics matter. -/
theorem leads_edges_iff_declared_or_imported (m : SemanticModel σ) (ds : List Diagnostic) :
    (∀ a b, Leads (edges m ds) a b ↔
      a ≠ b ∧ (IsDeclaredAt m ds a b ∨ IsImportedAt m ds a b)) ∧
    (∀ e ∈ edges m ds, e.source ≠ e.target ∧ e.source ∈ ds.map Diagnostic.id ∧
      e.target ∈ ds.map Diagnostic.id) ∧
    ∀ ds' : List Diagnostic, (∀ d, d ∈ ds' ↔ d ∈ ds) → edges m ds' = edges m ds := by
  have hends : ∀ e ∈ edges m ds, e.source ≠ e.target ∧ e.source ∈ ds.map Diagnostic.id ∧
      e.target ∈ ds.map Diagnostic.id := by
    intro e he
    have hleads : Leads (edges m ds) e.source e.target := he
    obtain ⟨hne, hsource, htarget, -⟩ := links_of_leads_edges hleads
    exact ⟨hne, hsource, htarget⟩
  refine ⟨?_, hends, ?_⟩
  · intro a b
    exact leads_edges
  · intro ds' h
    exact edges_congr h

end RootCause.Order
