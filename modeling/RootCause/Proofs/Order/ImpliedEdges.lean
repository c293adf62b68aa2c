import RootCause.Proofs.Order.Least

/-!
# Edges that a ranking goes along

Edges that lead to a higher rank are implied: to add them changes no rank, with cycles or without
(`rank_of_implied_edges`). What is settled stands after all that the new edges lead from, so it
stays settled, and whatever was smallest among those that could be placed still is, as with more
edges no more of them can be placed. New edges between what lies behind cycles may close further
cycles, but as they lead to nothing that is settled, the rest is the same.
-/

namespace RootCause.Order

variable {ids : List Id} {es fs es' : List Edge}

section

variable (hfs : ∀ f ∈ fs, (rank ids es).Before f.source f.target)
  (hes' : ∀ e, e ∈ es' ↔ e ∈ es ∨ e ∈ fs)

include hfs hes'

/-- Along the new edges, too, the settled identities stand after their predecessors. -/
theorem isAfterPreds_settled_of_implied : IsAfterPreds (Links ids es') (settled ids es) := by
  intro pre b post hsplit a hab
  obtain ⟨hne, ha, hb, hleads⟩ := hab
  rcases (hes' _).mp hleads with hes | hf
  · exact isAfterPreds_settled ids es pre b post hsplit a ⟨hne, ha, hb, hes⟩
  · exact (before_iff_of_settled_eq hsplit).mp (hfs _ hf)

theorem settled_of_implied_edges : settled ids es = settled ids es' := by
  have hlinks : Links ids es ≤ Links ids es' := links_mono fun e he => (hes' e).mpr (.inl he)
  have hafter := isAfterPreds_settled_of_implied hfs hes'
  refine eq_settled_of_isGreedy ?_ hafter (nodup_settled ids es) fun id => ?_
  · -- what can be placed along all edges can be placed along the old ones
    intro pre b post hsplit c hc hout hpreds
    exact isGreedy_settled ids es pre b post hsplit c hc hout fun a hac => hpreds a (hlinks a c hac)
  · constructor
    · intro h
      exact mem_settled.mpr ⟨settled_subset ids es h, hafter.not_behind id h⟩
    · intro h
      obtain ⟨hid, hcycle⟩ := mem_settled.mp h
      exact mem_settled.mpr ⟨hid, fun hbehind => hcycle (hbehind.mono hlinks)⟩

end

/-- **To add edges that the ranking goes along changes nothing**, whether there are cycles or
not. -/
theorem rank_of_implied_edges (hfs : ∀ f ∈ fs, (rank ids es).Before f.source f.target)
    (hes' : ∀ e, e ∈ es' ↔ e ∈ es ∨ e ∈ fs) : rank ids es' = rank ids es := by
  have hsettled : settled ids es = settled ids es' := settled_of_implied_edges hfs hes'
  refine Ranking.ext_order ?_
  rw [order_rank, order_rank, hsettled]

/-! ## A second cycle -/

/-- Two identities that nothing leads to, and three others. -/
def knotIds : List Id := [⟨"z"⟩, ⟨"y"⟩, ⟨"x"⟩, ⟨"w"⟩, ⟨"v"⟩]

/-- A cycle between two of the others, and an edge from it to the third. -/
def knot : List Edge := [⟨⟨"x"⟩, ⟨"y"⟩⟩, ⟨⟨"y"⟩, ⟨"x"⟩⟩, ⟨⟨"y"⟩, ⟨"z"⟩⟩]

/-- Edges that the ranking goes along, of which the last closes a second cycle. -/
def alongKnot : List Edge := [⟨⟨"v"⟩, ⟨"w"⟩⟩, ⟨⟨"w"⟩, ⟨"x"⟩⟩, ⟨⟨"z"⟩, ⟨"y"⟩⟩]

theorem rank_knot_append_alongKnot :
    (∀ f ∈ alongKnot, (rank knotIds knot).Before f.source f.target) ∧
    (∀ e, e ∈ alongKnot ++ knot ↔ e ∈ knot ∨ e ∈ alongKnot) ∧
    rank knotIds (alongKnot ++ knot) = rank knotIds knot := by
  have halong : ∀ f ∈ alongKnot, (rank knotIds knot).Before f.source f.target := by
    intro f hf
    simp only [alongKnot, List.mem_cons, List.not_mem_nil, or_false] at hf
    rcases hf with rfl | rfl | rfl
    · exact ⟨0, 1, by decide, by decide, by decide⟩
    · exact ⟨1, 4, by decide, by decide, by decide⟩
    · exact ⟨2, 3, by decide, by decide, by decide⟩
  have hunion : ∀ e, e ∈ alongKnot ++ knot ↔ e ∈ knot ∨ e ∈ alongKnot := fun e => by
    rw [List.mem_append, or_comm]
  exact ⟨halong, hunion, rank_of_implied_edges halong hunion⟩

end RootCause.Order
