import RootCause.Order.Sort
import RootCause.Proofs.Order.EdgeSources
import RootCause.Proofs.Order.Ranking

/-!
# Presentation order

Sorting moves whole diagnostics and is stable (`sort_perm`, `filter_sort`). As different identities
have different ranks, the diagnostics of one identity stand together (`exists_block_order`), and as
an edge to an identity that is not behind a cycle leads to a higher rank, causes come before what
they cause (`lt_of_leads_edges`).
-/

namespace RootCause.Order

/-! ## Keys -/

/-- What diagnostics of one rank are sorted by: falling severity, file, line and column. -/
abbrev Place := Natᵒᵈ ×ₗ String ×ₗ Nat ×ₗ Nat

/-- The place of a diagnostic. -/
def placeOf (d : Diagnostic) : Place :=
  toLex (OrderDual.toDual d.severity.level, toLex (d.file.text, toLex (d.line, d.column)))

/-- A key as a member of a linear order. -/
def SortKey.linear (k : SortKey) : Nat ×ₗ Place :=
  toLex (k.rank, toLex (OrderDual.toDual k.severity, toLex (k.file, toLex (k.line, k.column))))

theorem SortKey.le_iff {a b : SortKey} : a.le b = true ↔ a.linear ≤ b.linear := by
  simp only [SortKey.le, SortKey.compare, SortKey.linear, Ordering.isLE_then_iff_or,
    compare_lt_iff_lt, compare_eq_iff_eq, Prod.Lex.le_iff, ofLex_toLex, OrderDual.toDual_lt_toDual,
    EmbeddingLike.apply_eq_iff_eq, Std.isLE_compare]
  rw [@eq_comm _ b.severity]

theorem linear_sortKey (ranking : Option Ranking) (d : Diagnostic) :
    (sortKey ranking d).linear = toLex (sortRank ranking d, placeOf d) := rfl

/-! ## Sorting -/

theorem sort_eq_mergeSort (ranking : Option Ranking) (ds : List Diagnostic) :
    sort ranking ds = ds.mergeSort fun a b => (sortKey ranking a).le (sortKey ranking b) := by
  have hmap := List.map_mergeSort (f := fun d => (sortKey ranking d, d)) (l := ds)
    (r := fun a b => (sortKey ranking a).le (sortKey ranking b))
    (s := fun a b : SortKey × Diagnostic => a.1.le b.1) fun a _ b _ => rfl
  rw [sort, ← hmap, List.map_map]
  exact List.map_id _

theorem sort_perm (ranking : Option Ranking) (ds : List Diagnostic) :
    (sort ranking ds).Perm ds := by
  rw [sort_eq_mergeSort]
  exact List.mergeSort_perm _ _

theorem pairwise_sort (ranking : Option Ranking) (ds : List Diagnostic) :
    (sort ranking ds).Pairwise fun a b =>
      (sortKey ranking a).linear ≤ (sortKey ranking b).linear := by
  rw [sort_eq_mergeSort]
  exact pairwise_mergeSort_of_key (fun d => (sortKey ranking d).linear)
    (fun a b => SortKey.le_iff) ds

/-- Diagnostics that agree on rank and place keep the order in which they came. -/
theorem filter_sort (ranking : Option Ranking) (ds : List Diagnostic) (p : Diagnostic → Bool)
    (hrank : ∀ a b, p a = true → p b = true → sortRank ranking a = sortRank ranking b)
    (hplace : ∀ a b, p a = true → p b = true → placeOf a = placeOf b) :
    (sort ranking ds).filter p = ds.filter p := by
  rw [sort_eq_mergeSort]
  refine filter_mergeSort_of_key (fun d => (sortKey ranking d).linear)
    (fun a b => SortKey.le_iff) ds p fun a b ha hb => ?_
  rw [linear_sortKey, linear_sortKey, hrank a b ha hb, hplace a b ha hb]

theorem pairwise_sortRank (ranking : Option Ranking) (ds : List Diagnostic) :
    (sort ranking ds).Pairwise fun a b => sortRank ranking a ≤ sortRank ranking b :=
  (pairwise_sort ranking ds).imp fun {a b} h => by
    rw [linear_sortKey, linear_sortKey, Prod.Lex.le_iff] at h
    rcases h with hlt | ⟨heq, -⟩
    · exact hlt.le
    · exact heq.le

/-! ## Ranks of identities -/

/-- The rank that an identity is sorted by. -/
def Ranking.rankOf (r : Ranking) (id : Id) : Nat := (r.get? id).getD r.size

theorem sortRank_some (r : Ranking) (d : Diagnostic) : sortRank (some r) d = r.rankOf d.id := rfl

theorem Ranking.rankOf_lt_of_before {r : Ranking} {a b : Id} (h : r.Before a b) :
    r.rankOf a < r.rankOf b := by
  obtain ⟨i, j, hi, hj, hlt⟩ := h
  simpa [Ranking.rankOf, hi, hj] using hlt

/-- Only one identity has the rank of a ranked one. -/
theorem Ranking.rankOf_eq_iff {r : Ranking} (h : r.order.Nodup) {a b : Id} (ha : a ∈ r.order) :
    r.rankOf a = r.rankOf b ↔ a = b := by
  refine ⟨fun heq => ?_, congrArg _⟩
  obtain ⟨i, hi⟩ := List.getElem?_of_mem ha
  have hget : r.get? a = some i := (Ranking.get?_eq_some_iff h).mpr hi
  have hlt : i < r.size := (List.getElem?_eq_some_iff.mp hi).1
  cases hb : r.get? b with
  | none =>
    simp only [Ranking.rankOf, hget, hb, Option.getD_some, Option.getD_none] at heq
    omega
  | some j =>
    obtain rfl : i = j := by simpa [Ranking.rankOf, hget, hb] using heq
    have hj := (Ranking.get?_eq_some_iff h).mp hb
    exact Option.some.inj (hi.symm.trans hj)

/-! ## Causes before what they cause -/

variable {σ : Type} [DecidableEq σ] (m : SemanticModel σ) (ds : List Diagnostic)

theorem links_eq_leads_edges : Links (ds.map Diagnostic.id) (edges m ds) = Leads (edges m ds) := by
  funext a b
  exact propext ⟨fun h => h.2.2.2, links_of_leads_edges⟩

theorem rankOf_rankingOf_eq_iff {d : Diagnostic} (hd : d ∈ ds) (id : Id) :
    sortRank (some (rankingOf m ds)) d = (rankingOf m ds).rankOf id ↔ d.id = id := by
  rw [sortRank_some]
  exact Ranking.rankOf_eq_iff (nodup_order_rank _ _) (mem_order_rank.mpr (List.mem_map_of_mem hd))

/-- The diagnostics of one identity stand together, sorted by place. -/
theorem exists_block_order (id : Id) : ∃ pre block post,
    order (some m) ds = pre ++ block ++ post ∧ (∀ d ∈ block, d.id = id) ∧
      (∀ d ∈ pre ++ post, d.id ≠ id) ∧ block.Pairwise fun d e => placeOf d ≤ placeOf e := by
  set r := rankingOf m ds
  have hrank : ∀ d ∈ order (some m) ds, sortRank (some r) d = r.rankOf id ↔ d.id = id := fun d hd =>
    rankOf_rankingOf_eq_iff m ds ((sort_perm _ ds).mem_iff.mp hd) id
  refine ⟨_, _, _, eq_append_filter_of_pairwise (pairwise_sortRank (some r) ds) (r.rankOf id),
    fun d hd => ?_, fun d hd => ?_, ?_⟩
  · obtain ⟨hd, heq⟩ := List.mem_filter.mp hd
    exact (hrank d hd).mp (by simpa using heq)
  · rcases List.mem_append.mp hd with hd | hd
    · obtain ⟨hd, hlt⟩ := List.mem_filter.mp hd
      exact fun hid => (of_decide_eq_true hlt).ne ((hrank d hd).mpr hid)
    · obtain ⟨hd, hgt⟩ := List.mem_filter.mp hd
      exact fun hid => (of_decide_eq_true hgt).ne' ((hrank d hd).mpr hid)
  · refine ((pairwise_sort (some r) ds).filter _).imp_of_mem fun {d e} hd he h => ?_
    have hd : sortRank (some r) d = r.rankOf id := of_decide_eq_true (List.mem_filter.mp hd).2
    have he : sortRank (some r) e = r.rankOf id := of_decide_eq_true (List.mem_filter.mp he).2
    rw [linear_sortKey, linear_sortKey, hd, he, Prod.Lex.le_iff] at h
    exact h.elim (fun hlt => absurd hlt (lt_irrefl _)) And.right

/-- An edge to an identity that is not behind a cycle goes along the order. -/
theorem lt_of_leads_edges {a b : Id} (hab : Leads (edges m ds) a b)
    (hb : ¬ BehindCycle (Leads (edges m ds)) b) {i j : Nat} {d e : Diagnostic}
    (hi : (order (some m) ds)[i]? = some d) (hj : (order (some m) ds)[j]? = some e)
    (hd : d.id = a) (he : e.id = b) : i < j := by
  have hlinks := links_of_leads_edges hab
  have hsettled : b ∈ settled (ds.map Diagnostic.id) (edges m ds) := by
    rw [mem_settled, links_eq_leads_edges]
    exact ⟨hlinks.2.2.1, hb⟩
  have hlt : (rankingOf m ds).rankOf a < (rankingOf m ds).rankOf b :=
    Ranking.rankOf_lt_of_before (before_of_mem_settled hlinks hsettled)
  by_contra hij
  obtain ⟨hjlt, rfl⟩ := List.getElem?_eq_some_iff.mp hj
  obtain ⟨hilt, rfl⟩ := List.getElem?_eq_some_iff.mp hi
  subst hd he
  rcases Nat.lt_or_eq_of_le (not_lt.mp hij) with hji | rfl
  · have hle := List.pairwise_iff_getElem.mp (pairwise_sortRank (some (rankingOf m ds)) ds)
      j i hjlt hilt hji
    exact absurd hle (not_le.mpr hlt)
  · exact lt_irrefl _ hlt

/-- **Causes come before what they cause.** Ordering moves whole diagnostics; those of one identity
form a block, sorted by falling severity, file, line and column and else in the order in which they
came; and along every edge to an identity that is not behind a cycle of edges, all diagnostics of
the source come before all those of the target. -/
theorem order_blocks_along_edges :
    (order (some m) ds).Perm ds ∧
    (∀ id, ∃ pre block post, order (some m) ds = pre ++ block ++ post ∧
      (∀ d ∈ block, d.id = id) ∧ (∀ d ∈ pre ++ post, d.id ≠ id) ∧
      block.Pairwise fun d e => placeOf d ≤ placeOf e) ∧
    (∀ id place, (order (some m) ds).filter (fun d => d.id = id ∧ placeOf d = place) =
      ds.filter fun d => d.id = id ∧ placeOf d = place) ∧
    ∀ a b, Leads (edges m ds) a b → ¬ BehindCycle (Leads (edges m ds)) b →
      ∀ (i j : Nat) (d e : Diagnostic), (order (some m) ds)[i]? = some d →
        (order (some m) ds)[j]? = some e → d.id = a → e.id = b → i < j := by
  have hties : ∀ id place, (order (some m) ds).filter (fun d => d.id = id ∧ placeOf d = place) =
      ds.filter fun d => d.id = id ∧ placeOf d = place := by
    intro id place
    refine filter_sort (some (rankingOf m ds)) ds (fun d => d.id = id ∧ placeOf d = place) ?_ ?_
    · intro d e hd he
      rw [sortRank_some, sortRank_some, (of_decide_eq_true hd).1, (of_decide_eq_true he).1]
    · intro d e hd he
      rw [(of_decide_eq_true hd).2, (of_decide_eq_true he).2]
  refine ⟨sort_perm _ ds, exists_block_order m ds, hties, ?_⟩
  intro a b hab hb i j d e hi hj hd he
  exact lt_of_leads_edges m ds hab hb hi hj hd he

end RootCause.Order
