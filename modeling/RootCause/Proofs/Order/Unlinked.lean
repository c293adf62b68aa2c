import RootCause.Proofs.Order.Least

/-!
# Identities that no edge connects

Where no edge leads from one class of identities to the other, either class is ranked as if the
other one were not there (`filter_order_rank_of_unlinked`). A class that edges do not leave has its
own cycles and what lies behind them (`Separates.behindCycle_within_iff`). In the settled identities
the members of the class stand after their predecessors, which are all in the class, and each is the
least member that could stand there: to place a member waits for members alone. So they are in the
one order in which the class is settled without the others (`settled_filter`). What lies behind a
cycle is in the order of the list in both rankings.
-/

namespace RootCause.Order

open Relation

/-! ## Classes that no edge leaves -/

section

variable {α : Type} {r : α → α → Prop} {c : α → Prop}

/-- Both ends of every edge are in the class, or neither is. -/
def Separates (r : α → α → Prop) (c : α → Prop) : Prop := ∀ a b, r a b → (c a ↔ c b)

/-- The edges inside a class. -/
def Within (r : α → α → Prop) (c : α → Prop) (a b : α) : Prop := r a b ∧ c a ∧ c b

theorem Separates.transGen (h : Separates r c) : Separates (TransGen r) c := by
  intro a b hab
  induction hab with
  | single hab => exact h _ _ hab
  | tail _ hbd ih => exact ih.trans (h _ _ hbd)

theorem Separates.transGen_within_iff (h : Separates r c) {a b : α} :
    TransGen (Within r c) a b ↔ TransGen r a b ∧ c a := by
  constructor
  · intro hab
    obtain ⟨_, hfirst, -⟩ := TransGen.head'_iff.mp hab
    exact ⟨TransGen.mono (fun _ _ hstep => hstep.1) a b hab, hfirst.2.1⟩
  · rintro ⟨hab, ha⟩
    induction hab with
    | single hab => exact .single ⟨hab, ha, (h _ _ hab).mp ha⟩
    | tail hab hbd ih =>
      have hb := (h.transGen _ _ hab).mp ha
      exact ih.tail ⟨hbd, hb, (h _ _ hbd).mp hb⟩

/-- Of what is behind a cycle the members of the class are behind one inside the class. -/
theorem Separates.behindCycle_within_iff (h : Separates r c) {b : α} :
    BehindCycle (Within r c) b ↔ BehindCycle r b ∧ c b := by
  simp only [BehindCycle, OnCycle, reflTransGen_iff_eq_or_transGen, h.transGen_within_iff]
  constructor
  · rintro ⟨a, ⟨hcycle, ha⟩, rfl | ⟨hab, -⟩⟩
    · exact ⟨⟨b, hcycle, .inl rfl⟩, ha⟩
    · exact ⟨⟨a, hcycle, .inr hab⟩, (h.transGen _ _ hab).mp ha⟩
  · rintro ⟨⟨a, hcycle, rfl | hab⟩, hb⟩
    · exact ⟨b, ⟨hcycle, hb⟩, .inl rfl⟩
    · have ha := (h.transGen _ _ hab).mpr hb
      exact ⟨a, ⟨hcycle, ha⟩, .inr ⟨hab, ha⟩⟩

variable [DecidablePred c] {l : List α}

/-- What stands in front of a member of the class, in the list of the members and in the whole. -/
theorem exists_split_of_filter_eq {pre post : List α} {b : α}
    (h : l.filter (c ·) = pre ++ b :: post) :
    ∃ pre' post', l = pre' ++ b :: post' ∧ pre'.filter (c ·) = pre := by
  obtain ⟨l₁, l₂, rfl, rfl, hl₂⟩ := List.filter_eq_append_iff.mp h
  obtain ⟨l₃, l₄, rfl, hnone, -, -⟩ := List.filter_eq_cons_iff.mp hl₂
  refine ⟨l₁ ++ l₃, l₄, by simp, ?_⟩
  rw [List.filter_append, List.filter_eq_nil_iff.mpr hnone, List.append_nil]

theorem IsAfterPreds.filter (h : IsAfterPreds r l) :
    IsAfterPreds (Within r c) (l.filter (c ·)) := by
  intro pre b post hsplit a hab
  obtain ⟨pre', post', hl, rfl⟩ := exists_split_of_filter_eq hsplit
  exact List.mem_filter.mpr ⟨h pre' b post' hl a hab.1, by simpa using hab.2.1⟩

end

section

variable {c : Id → Prop} [DecidablePred c]

theorem IsGreedy.filter {r : Id → Id → Prop} {s l : List Id} (h : IsGreedy r s l)
    (hc : Separates r c) : IsGreedy (Within r c) (s.filter (c ·)) (l.filter (c ·)) := by
  intro pre b post hsplit d hd hout hpreds
  obtain ⟨pre', post', hl, rfl⟩ := exists_split_of_filter_eq hsplit
  obtain ⟨hds, hdc⟩ : d ∈ s ∧ c d := by simpa using hd
  refine h pre' b post' hl d hds (fun hpre => hout ?_) fun a had => ?_
  · exact List.mem_filter.mpr ⟨hpre, by simpa using hdc⟩
  · -- all predecessors of a member are members
    have ha : Within r c a d := ⟨had, (hc a d had).mpr hdc, hdc⟩
    exact (List.mem_filter.mp (hpreds a ha)).1

/-! ## Rankings -/

variable {ids : List Id} {es : List Edge}

theorem links_filter : Links (ids.filter (c ·)) es = Within (Links ids es) c := by
  funext a b
  simp only [Links, Within, List.mem_filter, decide_eq_true_eq, eq_iff_iff]
  tauto

theorem settled_filter (hc : Separates (Links ids es) c) :
    (settled ids es).filter (c ·) = settled (ids.filter (c ·)) es := by
  refine eq_settled_of_isGreedy ?_ ?_ ((nodup_settled ids es).filter _) fun id => ?_
  · rw [links_filter]
    exact (isGreedy_settled ids es).filter hc
  · rw [links_filter]
    exact (isAfterPreds_settled ids es).filter
  · simp only [List.mem_filter, mem_settled, links_filter, hc.behindCycle_within_iff,
      decide_eq_true_eq]
    tauto

theorem filter_order_rank (hc : Separates (Links ids es) c) :
    (rank ids es).order.filter (c ·) = (rank (ids.filter (c ·)) es).order := by
  rw [order_rank, order_rank, List.filter_append, ← settled_filter hc, ← filter_distinct,
    List.filter_filter, List.filter_filter]
  congr 1
  refine List.filter_congr fun id _ => ?_
  by_cases hid : c id <;> simp [hid]

end

/-- **Identities that no edge connects do not disturb each other.** Let every identity of a list be
in exactly one of two classes, with no edge between identities of different classes. Then to leave
out the identities of one class from the ranking is to rank the others without them, whatever
cycles there are in either class. -/
theorem filter_order_rank_of_unlinked {ids : List Id} {es : List Edge} {C D : Id → Prop}
    [DecidablePred C] [DecidablePred D] (hsplit : ∀ id ∈ ids, C id ↔ ¬ D id)
    (hunlinked : ∀ e ∈ es, e.source ∈ ids → e.target ∈ ids →
      ¬ (C e.source ∧ D e.target) ∧ ¬ (D e.source ∧ C e.target)) :
    (rank ids es).order.filter (¬ D ·) = (rank (ids.filter (C ·)) es).order := by
  have hseparates : Separates (Links ids es) C := by
    rintro a b ⟨-, ha, hb, hab⟩
    have hedge := hunlinked ⟨a, b⟩ hab ha hb
    have haD := hsplit a ha
    have hbD := hsplit b hb
    tauto
  rw [← filter_order_rank hseparates]
  refine List.filter_congr fun id hid => ?_
  exact decide_eq_decide.mpr (hsplit id (mem_order_rank.mp hid)).symm

/-! ## Two knots -/

/-- The identities of two knots, mixed up. -/
def tangledIds : List Id := [⟨"r"⟩, ⟨"k"⟩, ⟨"q"⟩, ⟨"m"⟩, ⟨"p"⟩, ⟨"l"⟩, ⟨"s"⟩, ⟨"j"⟩]

/-- In either knot a cycle, and an edge from it to a third identity. -/
def tangle : List Edge :=
  [⟨⟨"p"⟩, ⟨"q"⟩⟩, ⟨⟨"q"⟩, ⟨"p"⟩⟩, ⟨⟨"q"⟩, ⟨"r"⟩⟩, ⟨⟨"l"⟩, ⟨"m"⟩⟩, ⟨⟨"m"⟩, ⟨"l"⟩⟩, ⟨⟨"m"⟩, ⟨"k"⟩⟩]

/-- The identities of the one knot. -/
def upperKnot : List Id := [⟨"p"⟩, ⟨"q"⟩, ⟨"r"⟩, ⟨"s"⟩]

/-- The identities of the other knot. -/
def lowerKnot : List Id := [⟨"j"⟩, ⟨"k"⟩, ⟨"l"⟩, ⟨"m"⟩]

theorem filter_order_rank_tangle :
    (∀ id ∈ tangledIds, id ∈ upperKnot ↔ ¬ id ∈ lowerKnot) ∧
    (∀ e ∈ tangle, e.source ∈ tangledIds → e.target ∈ tangledIds →
      ¬ (e.source ∈ upperKnot ∧ e.target ∈ lowerKnot) ∧
        ¬ (e.source ∈ lowerKnot ∧ e.target ∈ upperKnot)) ∧
    (rank tangledIds tangle).order.filter (¬ · ∈ lowerKnot) =
      (rank (tangledIds.filter (· ∈ upperKnot)) tangle).order := by
  have hsplit : ∀ id ∈ tangledIds, id ∈ upperKnot ↔ ¬ id ∈ lowerKnot := by decide
  have hunlinked : ∀ e ∈ tangle, e.source ∈ tangledIds → e.target ∈ tangledIds →
      ¬ (e.source ∈ upperKnot ∧ e.target ∈ lowerKnot) ∧
        ¬ (e.source ∈ lowerKnot ∧ e.target ∈ upperKnot) := by decide
  exact ⟨hsplit, hunlinked, filter_order_rank_of_unlinked hsplit hunlinked⟩

end RootCause.Order
