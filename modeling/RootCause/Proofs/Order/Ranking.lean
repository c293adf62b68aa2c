import RootCause.Proofs.Order.Placement

/-!
# Ranks

A ranking lists the identities that the machine places (`settled`) and then the others in the order
in which they were given. The settled ones are those that are not behind a cycle (`mem_settled`),
and stand after everything that leads to them (`isAfterPreds_settled`); so every edge to a settled
identity leads to a higher rank (`before_of_mem_settled`).
-/

namespace RootCause.Order

variable {ids : List Id} {es : List Edge}

/-! ## Ranks as positions -/

/-- Both identities have a rank, and the first one's is smaller. -/
def Ranking.Before (r : Ranking) (a b : Id) : Prop :=
  ∃ i j, r.get? a = some i ∧ r.get? b = some j ∧ i < j

theorem Ranking.ext_order {r r' : Ranking} (h : r.order = r'.order) : r = r' := by
  cases r
  cases r'
  exact congrArg Ranking.mk h

theorem Ranking.get?_eq_some_iff {r : Ranking} (h : r.order.Nodup) {id : Id} {i : Nat} :
    r.get? id = some i ↔ r.order[i]? = some id :=
  position?_eq_some_iff h

theorem Ranking.get?_eq_none_iff {r : Ranking} {id : Id} : r.get? id = none ↔ id ∉ r.order :=
  position?_eq_none_iff

/-- Before an identity in the order are those that are ranked before it. -/
theorem Ranking.before_iff_of_order_eq {r : Ranking} (h : r.order.Nodup) {pre post : List Id}
    {a b : Id} (heq : r.order = pre ++ b :: post) : r.Before a b ↔ a ∈ pre := by
  have hb : r.get? b = some pre.length := by
    rw [Ranking.get?_eq_some_iff h, heq, List.getElem?_append_right le_rfl]
    simp
  constructor
  · rintro ⟨i, j, hi, hj, hlt⟩
    obtain rfl : j = pre.length := Option.some.inj (hj.symm.trans hb)
    rw [Ranking.get?_eq_some_iff h, heq, List.getElem?_append_left hlt] at hi
    exact List.mem_of_getElem? hi
  · intro ha
    obtain ⟨i, hi⟩ := List.getElem?_of_mem ha
    have hlt : i < pre.length := (List.getElem?_eq_some_iff.mp hi).1
    refine ⟨i, pre.length, ?_, hb, hlt⟩
    rw [Ranking.get?_eq_some_iff h, heq, List.getElem?_append_left hlt, hi]

/-! ## The settled identities -/

theorem leads_innerEdges_distinct (ids : List Id) (es : List Edge) :
    Leads (innerEdges (distinct ids) es) = Links ids es := by
  funext a b
  rw [leads_innerEdges]
  simp [Links]

/-- The identities that the machine places, in their order. -/
def settled (ids : List Id) (es : List Edge) : List Id :=
  ((Placement.start (distinct ids) (innerEdges (distinct ids) es)).run
    (innerEdges (distinct ids) es) (distinct ids).length).placed

theorem order_rank (ids : List Id) (es : List Edge) :
    (rank ids es).order = settled ids es ++ (distinct ids).filter (· ∉ settled ids es) := rfl

theorem nodup_settled (ids : List Id) (es : List Edge) : (settled ids es).Nodup :=
  have h := isInner_innerEdges ids es
  ((Placement.Invariant.start h).run h _).nodup

theorem isAfterPreds_settled (ids : List Id) (es : List Edge) :
    IsAfterPreds (Links ids es) (settled ids es) := by
  have h := isInner_innerEdges ids es
  rw [← leads_innerEdges_distinct]
  exact ((Placement.Invariant.start h).run h _).after

/-- **The machine settles what no cycle leads to.** -/
theorem mem_settled {id : Id} :
    id ∈ settled ids es ↔ id ∈ ids ∧ ¬ BehindCycle (Links ids es) id := by
  have h := isInner_innerEdges ids es
  have hrun := (Placement.Invariant.start h).run h (distinct ids).length
  rw [settled, hrun.mem_placed_iff h (Placement.Invariant.ready_run_eq_nil h),
    leads_innerEdges_distinct, mem_distinct]

theorem mem_unsettled {id : Id} :
    id ∈ (distinct ids).filter (· ∉ settled ids es) ↔
      id ∈ ids ∧ BehindCycle (Links ids es) id := by
  simp only [List.mem_filter, mem_distinct, decide_eq_true_eq, mem_settled, not_and, not_not]
  constructor
  · rintro ⟨hid, hbehind⟩
    exact ⟨hid, hbehind hid⟩
  · rintro ⟨hid, hbehind⟩
    exact ⟨hid, fun _ => hbehind⟩

/-! ## The ranking -/

theorem mem_order_rank {id : Id} : id ∈ (rank ids es).order ↔ id ∈ ids := by
  have hsub : id ∈ settled ids es → id ∈ ids := fun h => (mem_settled.mp h).1
  by_cases h : id ∈ settled ids es
  · simp [order_rank, h, hsub h]
  · simp [order_rank, h]

theorem nodup_order_rank (ids : List Id) (es : List Edge) : (rank ids es).order.Nodup := by
  rw [order_rank]
  refine List.nodup_append.mpr ⟨nodup_settled ids es, (nodup_distinct ids).filter _, ?_⟩
  rintro a ha b hb rfl
  simp [ha] at hb

theorem before_iff_of_settled_eq {pre post : List Id} {a b : Id}
    (hsplit : settled ids es = pre ++ b :: post) : (rank ids es).Before a b ↔ a ∈ pre := by
  have horder : (rank ids es).order =
      pre ++ b :: (post ++ (distinct ids).filter (· ∉ settled ids es)) := by
    rw [order_rank]
    nth_rewrite 1 [hsplit]
    simp
  exact Ranking.before_iff_of_order_eq (nodup_order_rank ids es) horder

theorem before_of_mem_settled {a b : Id} (hab : Links ids es a b) (hb : b ∈ settled ids es) :
    (rank ids es).Before a b := by
  obtain ⟨pre, post, hsplit⟩ := List.append_of_mem hb
  exact (before_iff_of_settled_eq hsplit).mpr (isAfterPreds_settled ids es pre b post hsplit a hab)

/-- **A ranking respects every edge that no cycle leads to.** It lists the identities once each,
first those that are not behind a cycle, in an order that every edge to one of them goes along, and
then the others in the order of their first occurrences; without cycles every edge is respected. -/
theorem rank_settles_acyclic_part (ids : List Id) (es : List Edge) :
    ((rank ids es).order.Nodup ∧ ∀ id, id ∈ (rank ids es).order ↔ id ∈ ids) ∧
    (∀ id i, (rank ids es).get? id = some i ↔ (rank ids es).order[i]? = some id) ∧
    (∀ id, (rank ids es).get? id = none ↔ id ∉ ids) ∧
    (∃ free rest, (rank ids es).order = free ++ rest ∧
      (∀ id, id ∈ free ↔ id ∈ ids ∧ ¬ BehindCycle (Links ids es) id) ∧
      (∀ id, id ∈ rest ↔ id ∈ ids ∧ BehindCycle (Links ids es) id) ∧
      (rest.Pairwise fun a b => ids.idxOf a < ids.idxOf b) ∧
      ∀ a b, Links ids es a b → b ∈ free → (rank ids es).Before a b) ∧
    (Acyclic (Links ids es) → ∀ a b, Links ids es a b → (rank ids es).Before a b) := by
  have hnodup : (rank ids es).order.Nodup := nodup_order_rank ids es
  have hnone : ∀ id, (rank ids es).get? id = none ↔ id ∉ ids := by
    intro id
    rw [Ranking.get?_eq_none_iff, mem_order_rank]
  have hacyclic : Acyclic (Links ids es) →
      ∀ a b, Links ids es a b → (rank ids es).Before a b := by
    intro h a b hab
    have hb : b ∈ settled ids es := mem_settled.mpr ⟨hab.2.2.1, h.not_behind b⟩
    exact before_of_mem_settled hab hb
  refine ⟨⟨hnodup, fun id => mem_order_rank⟩, fun id i => Ranking.get?_eq_some_iff hnodup, hnone,
    ⟨settled ids es, _, order_rank ids es, fun id => mem_settled, fun id => mem_unsettled,
      (pairwise_idxOf_distinct ids).filter _, ?_⟩, hacyclic⟩
  intro a b hab hb
  exact before_of_mem_settled hab hb

/-- Of a cycle between `x` and `y` and what it leads to nothing is settled. -/
example : (rank [⟨"z"⟩, ⟨"y"⟩, ⟨"x"⟩, ⟨"w"⟩]
    [⟨⟨"x"⟩, ⟨"y"⟩⟩, ⟨⟨"y"⟩, ⟨"x"⟩⟩, ⟨⟨"y"⟩, ⟨"z"⟩⟩]).order = [⟨"w"⟩, ⟨"z"⟩, ⟨"y"⟩, ⟨"x"⟩] := by
  decide

end RootCause.Order
