import RootCause.Proofs.Order.Least
import RootCause.Proofs.Order.Presentation

/-!
# Permuted diagnostics

The order in which diagnostics are given matters only where they agree on all that they are sorted
by, and behind cycles of edges. Edges and settled identities are the same for permuted diagnostics,
and what is settled is ranked by its place among the settled identities (`rankOf_of_mem_settled`).
The diagnostics of settled identities come first (`order_eq_append`) and are ascending in that place
and in what they are sorted by (`pairwise_settledPart`), and a list that is ascending in a key is
determined by its members as far as the key tells them apart.
-/

namespace RootCause.Order

/-! ## Ranks of settled identities -/

section

variable {ids : List Id} {es : List Edge} {id : Id}

theorem rankOf_of_mem_settled (h : id ∈ settled ids es) :
    (rank ids es).rankOf id = (settled ids es).idxOf id := by
  have hlt : (settled ids es).idxOf id < (settled ids es).length := List.idxOf_lt_length_of_mem h
  have hget : (rank ids es).order[(settled ids es).idxOf id]? = some id := by
    rw [order_rank, List.getElem?_append_left hlt, List.getElem?_eq_getElem hlt,
      List.getElem_idxOf hlt]
  rw [Ranking.rankOf, (Ranking.get?_eq_some_iff (nodup_order_rank ids es)).mpr hget,
    Option.getD_some]

theorem rankOf_lt_length_settled_iff :
    (rank ids es).rankOf id < (settled ids es).length ↔ id ∈ settled ids es := by
  constructor
  · intro h
    cases hget : (rank ids es).get? id with
    | none =>
      have hle : (settled ids es).length ≤ (rank ids es).size := by
        rw [Ranking.size, order_rank, List.length_append]
        exact Nat.le_add_right _ _
      rw [Ranking.rankOf, hget, Option.getD_none] at h
      exact absurd h (not_lt.mpr hle)
    | some i =>
      rw [Ranking.rankOf, hget, Option.getD_some] at h
      have hi := (Ranking.get?_eq_some_iff (nodup_order_rank ids es)).mp hget
      rw [order_rank, List.getElem?_append_left h] at hi
      exact List.mem_of_getElem? hi
  · intro h
    rw [rankOf_of_mem_settled h]
    exact List.idxOf_lt_length_of_mem h

end

/-! ## The settled part -/

/-- A list consists of the elements with a property and then the others, if none that has it stands
behind one that has not. -/
theorem eq_filter_append_filter_not {α : Type} {p : α → Prop} [DecidablePred p] {l : List α}
    (h : l.Pairwise fun a b => p b → p a) :
    l = l.filter (p ·) ++ l.filter (¬ p ·) := by
  induction l with
  | nil => rfl
  | cons a l ih =>
    obtain ⟨ha, hl⟩ := List.pairwise_cons.mp h
    have ih := ih hl
    by_cases hp : p a
    · simpa [hp] using ih
    · have hnone : l.filter (p ·) = [] :=
        List.filter_eq_nil_iff.mpr fun b hb hpb => hp (ha b hb (of_decide_eq_true hpb))
      rw [hnone] at ih
      simpa [hp, hnone] using ih

variable {σ : Type} [DecidableEq σ] (m : SemanticModel σ) (ds : List Diagnostic)

/-- The identities of some diagnostics that are settled in a model. -/
abbrev settledIds : List Id := settled (ds.map Diagnostic.id) (edges m ds)

/-- The ordered diagnostics of settled identities. -/
def settledPart : List Diagnostic := (order (some m) ds).filter (·.id ∈ settledIds m ds)

/-- The ordered diagnostics of identities behind a cycle. -/
def cyclicPart : List Diagnostic := (order (some m) ds).filter (·.id ∉ settledIds m ds)

theorem order_eq_append : order (some m) ds = settledPart m ds ++ cyclicPart m ds := by
  have hsorted : (order (some m) ds).Pairwise fun d e =>
      e.id ∈ settledIds m ds → d.id ∈ settledIds m ds := by
    refine (pairwise_sortRank (some (rankingOf m ds)) ds).imp fun {d e} hde he => ?_
    rw [sortRank_some, sortRank_some] at hde
    exact rankOf_lt_length_settled_iff.mp (hde.trans_lt (rankOf_lt_length_settled_iff.mpr he))
  exact eq_filter_append_filter_not hsorted

theorem mem_settledIds {d : Diagnostic} (hd : d ∈ ds) :
    d.id ∈ settledIds m ds ↔ ¬ BehindCycle (Leads (edges m ds)) d.id := by
  rw [settledIds, mem_settled, links_eq_leads_edges]
  exact and_iff_right (List.mem_map_of_mem hd)

theorem mem_settledPart {d : Diagnostic} :
    d ∈ settledPart m ds ↔ d ∈ ds ∧ ¬ BehindCycle (Leads (edges m ds)) d.id := by
  rw [settledPart, List.mem_filter, order, (sort_perm _ ds).mem_iff, decide_eq_true_iff]
  exact and_congr_right fun hd => mem_settledIds m ds hd

theorem mem_cyclicPart {d : Diagnostic} :
    d ∈ cyclicPart m ds ↔ d ∈ ds ∧ BehindCycle (Leads (edges m ds)) d.id := by
  rw [cyclicPart, List.mem_filter, order, (sort_perm _ ds).mem_iff, decide_eq_true_iff]
  refine and_congr_right fun hd => ?_
  rw [mem_settledIds m ds hd, not_not]

/-! ## Traits -/

/-- What an order can tell diagnostics apart by. -/
structure Traits where
  id : Id
  severity : Severity
  file : Path
  line : Nat
  column : Nat
  deriving DecidableEq

/-- The traits of a diagnostic. -/
def traitsOf (d : Diagnostic) : Traits := ⟨d.id, d.severity, d.file, d.line, d.column⟩

/-- Different diagnostics of a list differ in identity, severity, file, line or column. -/
def AreToldApart (ds : List Diagnostic) : Prop :=
  ∀ d ∈ ds, ∀ e ∈ ds, traitsOf d = traitsOf e → d = e

instance (ds : List Diagnostic) : Decidable (AreToldApart ds) :=
  inferInstanceAs (Decidable (∀ d ∈ ds, ∀ e ∈ ds, traitsOf d = traitsOf e → d = e))

/-- What settled diagnostics are sorted by: the place of the identity among the settled ones, and
then severity, file, line and column. -/
def Traits.key (ids : List Id) (t : Traits) : Nat ×ₗ Place :=
  toLex (ids.idxOf t.id,
    toLex (OrderDual.toDual t.severity.level, toLex (t.file.text, toLex (t.line, t.column))))

theorem Severity.level_injective : Function.Injective Severity.level := by
  intro s s' h
  cases s <;> cases s' <;> first | rfl | exact absurd h (by decide)

theorem Traits.key_inj {ids : List Id} {t u : Traits} (ht : t.id ∈ ids)
    (h : t.key ids = u.key ids) : t = u := by
  obtain ⟨id, severity, ⟨file⟩, line, column⟩ := t
  obtain ⟨id', severity', ⟨file'⟩, line', column'⟩ := u
  simp only [key, EmbeddingLike.apply_eq_iff_eq, Prod.mk.injEq] at h
  obtain ⟨hid, hlevel, rfl, rfl, rfl⟩ := h
  obtain rfl : id = id' := (List.idxOf_inj ht).mp hid
  rw [Severity.level_injective hlevel]

/-! ## Two orders of the same diagnostics -/

theorem pairwise_settledPart : (settledPart m ds).Pairwise fun d e =>
    (traitsOf d).key (settledIds m ds) ≤ (traitsOf e).key (settledIds m ds) := by
  have hrank : ∀ d ∈ settledPart m ds,
      sortRank (some (rankingOf m ds)) d = (settledIds m ds).idxOf d.id := fun d hd =>
    rankOf_of_mem_settled (of_decide_eq_true (List.mem_filter.mp hd).2)
  refine ((pairwise_sort (some (rankingOf m ds)) ds).filter _).imp_of_mem fun {d e} hd he hde => ?_
  rwa [linear_sortKey, linear_sortKey, hrank d hd, hrank e he] at hde

theorem traitsOf_eq_of_key_le {d e : Diagnostic} (hd : d ∈ settledPart m ds)
    (hde : (traitsOf d).key (settledIds m ds) ≤ (traitsOf e).key (settledIds m ds))
    (hed : (traitsOf e).key (settledIds m ds) ≤ (traitsOf d).key (settledIds m ds)) :
    traitsOf d = traitsOf e :=
  Traits.key_inj (of_decide_eq_true (List.mem_filter.mp hd).2) (le_antisymm hde hed)

section

variable {m : SemanticModel σ} {ds ds' : List Diagnostic} (h : ds.Perm ds')

include h

theorem edges_of_perm : edges m ds = edges m ds' := edges_congr fun _ => h.mem_iff

theorem settledIds_of_perm : settledIds m ds = settledIds m ds' :=
  settled_congr (fun _ => (h.map Diagnostic.id).mem_iff) fun e => by rw [edges_of_perm h]

theorem settledPart_perm : (settledPart m ds).Perm (settledPart m ds') := by
  have horder : (order (some m) ds).Perm (order (some m) ds') :=
    (sort_perm _ ds).trans (h.trans (sort_perm _ ds').symm)
  rw [settledPart, settledPart, settledIds_of_perm h]
  exact horder.filter _

/-- Of permuted diagnostics the settled ones show the same traits in the same order. -/
theorem map_traitsOf_settledPart :
    (settledPart m ds).map traitsOf = (settledPart m ds').map traitsOf := by
  have hsorted : ((settledPart m ds).map traitsOf).Pairwise fun t u =>
      t.key (settledIds m ds) ≤ u.key (settledIds m ds) :=
    List.pairwise_map.mpr (pairwise_settledPart m ds)
  have hsorted' : ((settledPart m ds').map traitsOf).Pairwise fun t u =>
      t.key (settledIds m ds) ≤ u.key (settledIds m ds) := by
    rw [settledIds_of_perm h]
    exact List.pairwise_map.mpr (pairwise_settledPart m ds')
  refine ((settledPart_perm h).map traitsOf).eq_of_pairwise ?_ hsorted hsorted'
  intro t u ht hu htu hut
  obtain ⟨d, hd, rfl⟩ := List.mem_map.mp ht
  obtain ⟨e, -, rfl⟩ := List.mem_map.mp hu
  exact traitsOf_eq_of_key_le m ds hd htu hut

/-- Of permuted diagnostics the settled ones come in the same order if they are told apart. -/
theorem settledPart_eq_of_areToldApart (hapart : AreToldApart (settledPart m ds)) :
    settledPart m ds = settledPart m ds' := by
  have hsorted' := pairwise_settledPart m ds'
  rw [← settledIds_of_perm h] at hsorted'
  refine (settledPart_perm h).eq_of_pairwise ?_ (pairwise_settledPart m ds) hsorted'
  intro d e hd he hde hed
  exact hapart d hd e ((settledPart_perm h).mem_iff.mpr he) (traitsOf_eq_of_key_le m ds hd hde hed)

end

/-- The ordered diagnostics fall into those that are not behind a cycle and, after them, those that
are. -/
structure IsSplitAtCycles (free rest : List Diagnostic) : Prop where
  order_eq : order (some m) ds = free ++ rest
  not_behind : ∀ d ∈ free, ¬ BehindCycle (Leads (edges m ds)) d.id
  behind : ∀ d ∈ rest, BehindCycle (Leads (edges m ds)) d.id

theorem isSplitAtCycles : IsSplitAtCycles m ds (settledPart m ds) (cyclicPart m ds) where
  order_eq := order_eq_append m ds
  not_behind _ hd := ((mem_settledPart m ds).mp hd).2
  behind _ hd := ((mem_cyclicPart m ds).mp hd).2

theorem order_eq_settledPart (h : Acyclic (Leads (edges m ds))) :
    order (some m) ds = settledPart m ds := by
  have hnone : cyclicPart m ds = [] :=
    List.eq_nil_iff_forall_not_mem.mpr fun d hd => h.not_behind d.id ((mem_cyclicPart m ds).mp hd).2
  rw [order_eq_append, hnone, List.append_nil]

/-- **The order in which diagnostics come matters only for ties and cycles.** Permuted diagnostics
have the same edges. Without cycles they are ordered into the same sequence of identities,
severities, files, lines and columns, and into the same list if these tell different diagnostics
apart. With cycles this goes for what is not behind one, and that comes first. -/
theorem order_of_perm (m : SemanticModel σ) {ds ds' : List Diagnostic} (h : ds.Perm ds') :
    edges m ds = edges m ds' ∧
    (Acyclic (Leads (edges m ds)) →
      (order (some m) ds).map traitsOf = (order (some m) ds').map traitsOf ∧
      (AreToldApart ds → order (some m) ds = order (some m) ds')) ∧
    ∃ free rest free' rest', IsSplitAtCycles m ds free rest ∧ IsSplitAtCycles m ds' free' rest' ∧
      free.map traitsOf = free'.map traitsOf ∧ (AreToldApart free → free = free') := by
  have hedges : edges m ds = edges m ds' := edges_of_perm h
  refine ⟨hedges, fun hacyclic => ?_, settledPart m ds, cyclicPart m ds, settledPart m ds',
    cyclicPart m ds', isSplitAtCycles m ds, isSplitAtCycles m ds', map_traitsOf_settledPart h,
    settledPart_eq_of_areToldApart h⟩
  rw [order_eq_settledPart m ds hacyclic, order_eq_settledPart m ds' (hedges ▸ hacyclic)]
  refine ⟨map_traitsOf_settledPart h, fun hapart => settledPart_eq_of_areToldApart h ?_⟩
  intro d hd e he
  exact hapart d ((mem_settledPart m ds).mp hd).1 e ((mem_settledPart m ds).mp he).1

/-! ## A file that imports another one -/

/-- A file with one problem and one with two, of which one is reported twice. -/
def layers : List Diagnostic :=
  let problem (file : String) (line : Nat) (severity : Severity) : Diagnostic :=
    { tool := .tsc, message := "", severity, location := { file := ⟨file⟩, line, column := 1 } }
  [problem "/a" 1 .error, problem "/b" 2 .warning, problem "/b" 2 .hint, problem "/b" 1 .hint]

/-- The first file imports the second one. -/
def layerModel : SemanticModel String :=
  TableModel.toModel { imports := [(⟨"/a"⟩, ⟨"/b"⟩)] }

theorem order_reverse_layers :
    layers.Perm layers.reverse ∧ Acyclic (Leads (edges layerModel layers)) ∧
    AreToldApart layers ∧
    order (some layerModel) layers = order (some layerModel) layers.reverse := by
  have hperm : layers.Perm layers.reverse := layers.reverse_perm.symm
  have hedges : edges layerModel layers = [⟨⟨"/b:1:1:tsc:no-rule"⟩, ⟨"/a:1:1:tsc:no-rule"⟩⟩] := by
    decide +kernel
  have hacyclic : Acyclic (Leads (edges layerModel layers)) := by
    refine .of_lt (fun id => if id.text = "/b:1:1:tsc:no-rule" then 0 else 1) fun a b hab => ?_
    rw [Leads, hedges, List.mem_singleton] at hab
    cases hab
    decide
  have hapart : AreToldApart layers := by decide
  exact ⟨hperm, hacyclic, hapart, ((order_of_perm layerModel hperm).2.1 hacyclic).2 hapart⟩

end RootCause.Order
