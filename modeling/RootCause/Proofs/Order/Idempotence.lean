import RootCause.Proofs.Order.Least
import RootCause.Proofs.Order.Presentation

/-!
# Ordering twice

Ordered diagnostics stay as they are when they are ordered again. Ordering moves diagnostics, so it
changes neither the edges nor what is settled; what lies behind a cycle is ranked in the order in
which it is met, and in the ordered diagnostics it is met in the order of the ranks
(`distinct_ids_order`). So the second ranking is the first one (`rankingOf_order`), and a sort
leaves a sorted list alone (`sort_sort`).
-/

namespace RootCause.Order

/-- A sort leaves sorted diagnostics alone. -/
theorem sort_sort (ranking : Option Ranking) (ds : List Diagnostic) :
    sort ranking (sort ranking ds) = sort ranking ds := by
  rw [sort_eq_mergeSort ranking (sort ranking ds)]
  exact List.mergeSort_of_pairwise ((pairwise_sort ranking ds).imp SortKey.le_iff.mpr)

/-! ## Identities in the order of their ranks -/

theorem Ranking.rankOf_of_getElem? {r : Ranking} (h : r.order.Nodup) {id : Id} {i : Nat}
    (hi : r.order[i]? = some id) : r.rankOf id = i := by
  rw [Ranking.rankOf, (Ranking.get?_eq_some_iff h).mpr hi, Option.getD_some]

theorem Ranking.pairwise_rankOf {r : Ranking} (h : r.order.Nodup) :
    r.order.Pairwise fun a b => r.rankOf a ≤ r.rankOf b := by
  refine List.pairwise_iff_getElem.mpr fun i j hi hj hij => ?_
  rw [Ranking.rankOf_of_getElem? h (List.getElem?_eq_getElem hi),
    Ranking.rankOf_of_getElem? h (List.getElem?_eq_getElem hj)]
  exact hij.le

variable {σ : Type} [DecidableEq σ] (m : SemanticModel σ) (ds : List Diagnostic)

theorem mem_order {d : Diagnostic} : d ∈ order (some m) ds ↔ d ∈ ds :=
  (sort_perm _ ds).mem_iff

theorem mem_ids_order {id : Id} :
    id ∈ (order (some m) ds).map Diagnostic.id ↔ id ∈ ds.map Diagnostic.id :=
  ((sort_perm _ ds).map _).mem_iff

theorem edges_order : edges m (order (some m) ds) = edges m ds :=
  edges_congr fun _ => mem_order m ds

/-- Ordered diagnostics are met in the order of the ranks of their identities. -/
theorem distinct_ids_order :
    distinct ((order (some m) ds).map Diagnostic.id) = (rankingOf m ds).order := by
  set r := rankingOf m ds
  have hnodup : r.order.Nodup := nodup_order_rank _ _
  have hmem : ∀ id, id ∈ distinct ((order (some m) ds).map Diagnostic.id) ↔ id ∈ r.order := by
    intro id
    rw [mem_distinct, mem_ids_order]
    exact mem_order_rank.symm
  have hperm := (List.perm_ext_iff_of_nodup (nodup_distinct _) hnodup).mpr hmem
  have hsorted : ((order (some m) ds).map Diagnostic.id).Pairwise fun a b =>
      r.rankOf a ≤ r.rankOf b :=
    List.pairwise_map.mpr (pairwise_sortRank (some r) ds)
  refine hperm.eq_of_pairwise (fun a b _ hb hab hba => ?_) (hsorted.sublist (distinct_sublist _))
    (Ranking.pairwise_rankOf hnodup)
  exact ((Ranking.rankOf_eq_iff hnodup hb).mp (le_antisymm hba hab)).symm

/-- Ordered diagnostics have the ranking that they were ordered by. -/
theorem rankingOf_order : rankingOf m (order (some m) ds) = rankingOf m ds := by
  have hsettled : settled ((order (some m) ds).map Diagnostic.id) (edges m ds) =
      settled (ds.map Diagnostic.id) (edges m ds) :=
    settled_congr (fun _ => mem_ids_order m ds) fun _ => Iff.rfl
  refine Ranking.ext_order ?_
  rw [rankingOf, edges_order, order_rank, hsettled, distinct_ids_order, rankingOf, order_rank,
    List.filter_append]
  -- of the settled identities none is left, and the others are not settled
  have hfirst : (settled (ds.map Diagnostic.id) (edges m ds)).filter
      (· ∉ settled (ds.map Diagnostic.id) (edges m ds)) = [] :=
    List.filter_eq_nil_iff.mpr fun id hid => by simpa using hid
  rw [hfirst, List.nil_append, List.filter_filter]
  simp only [Bool.and_self]

/-- **Ordering is idempotent**, with cycles of edges or without. -/
theorem order_order (m : SemanticModel σ) (ds : List Diagnostic) :
    order (some m) (order (some m) ds) = order (some m) ds := by
  have hranking : rankingOf m (order (some m) ds) = rankingOf m ds := rankingOf_order m ds
  calc order (some m) (order (some m) ds)
      = sort (some (rankingOf m (order (some m) ds))) (order (some m) ds) := rfl
    _ = sort (some (rankingOf m ds)) (sort (some (rankingOf m ds)) ds) := by rw [hranking]; rfl
    _ = sort (some (rankingOf m ds)) ds := sort_sort _ ds
    _ = order (some m) ds := rfl

end RootCause.Order
