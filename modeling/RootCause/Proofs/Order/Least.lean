import RootCause.Proofs.Order.Ranking
import RootCause.Proofs.Text.Octets
import Mathlib.Data.List.Lex

/-!
# The least order

The machine always places the smallest identity that can be placed (`isGreedy_settled`). An order
that is greedy in this sense is the lexicographically least of those that every edge goes along
(`IsGreedy.eq_or_lex`): where another one first differs, it has an identity that the machine could
have placed there, and so a greater one. As there is but one greedy order of the same identities
(`IsGreedy.unique`), the settled identities do not depend on the order in which identities and edges
are given (`settled_congr`).
-/

namespace RootCause.Order

/-! ## Orders that edges go along -/

section

variable {α : Type}

theorem notMem_of_nodup_append_cons {pre post : List α} {b : α} (h : (pre ++ b :: post).Nodup) :
    b ∉ pre := fun hb =>
  (List.nodup_append.mp h).2.2 b hb b List.mem_cons_self rfl

theorem exists_first_difference {l l' : List α} (hlength : l.length = l'.length) (hne : l ≠ l') :
    ∃ pre b post c post', l = pre ++ b :: post ∧ l' = pre ++ c :: post' ∧ b ≠ c := by
  induction l generalizing l' with
  | nil => exact absurd (List.length_eq_zero_iff.mp hlength.symm).symm hne
  | cons b l ih =>
    obtain ⟨c, l', rfl⟩ := List.exists_cons_of_length_eq_add_one hlength.symm
    by_cases hbc : b = c
    · subst hbc
      obtain ⟨pre, b', post, c', post', rfl, rfl, hdiff⟩ :=
        ih (Nat.succ.inj hlength) fun h => hne (h ▸ rfl)
      exact ⟨b :: pre, b', post, c', post', rfl, rfl, hdiff⟩
    · exact ⟨[], b, l, c, l', rfl, rfl, hbc⟩

variable [DecidableEq α] {r : α → α → Prop}

/-- Every edge between two elements of a list leads from the earlier to the later one. -/
def IsForward (r : α → α → Prop) (l : List α) : Prop :=
  ∀ a ∈ l, ∀ b ∈ l, r a b → l.idxOf a < l.idxOf b

/-- In a list that lacks no predecessor the two ways to say that edges go forward agree. -/
theorem isForward_iff_isAfterPreds {l : List α} (hl : l.Nodup)
    (hpreds : ∀ b ∈ l, ∀ a, r a b → a ∈ l) : IsForward r l ↔ IsAfterPreds r l := by
  constructor
  · rintro h pre b post rfl a hab
    have hb : b ∈ pre ++ b :: post := by simp
    have hlt := h a (hpreds b hb a hab) b hb hab
    by_contra ha
    rw [List.idxOf_append_of_notMem ha,
      List.idxOf_append_of_notMem (notMem_of_nodup_append_cons hl), List.idxOf_cons_self] at hlt
    omega
  · intro h a _ b hb hab
    obtain ⟨pre, post, rfl⟩ := List.append_of_mem hb
    have ha : a ∈ pre := h pre b post rfl a hab
    have hlt : pre.idxOf a < pre.length := List.idxOf_lt_length_of_mem ha
    rw [List.idxOf_append_of_mem ha, List.idxOf_append_of_notMem (notMem_of_nodup_append_cons hl),
      List.idxOf_cons_self]
    omega

end

/-! ## Greedy orders -/

section

variable {r : Id → Id → Prop} {s l l' : List Id}

/-- Every identity of a list is the least that could stand in its place: no smaller one of `s` that
is not in front of it has all its predecessors in front of it. -/
def IsGreedy (r : Id → Id → Prop) (s l : List Id) : Prop :=
  ∀ pre b post, l = pre ++ b :: post → ∀ c ∈ s, c ∉ pre → (∀ a, r a c → a ∈ pre) → ¬ c < b

theorem IsGreedy.nil : IsGreedy r s [] := by
  intro pre b post h
  simp at h

theorem IsGreedy.snoc {b : Id} (h : IsGreedy r s l)
    (hb : ∀ c ∈ s, c ∉ l → (∀ a, r a c → a ∈ l) → ¬ c < b) : IsGreedy r s (l ++ [b]) := by
  intro pre d post hl
  rcases List.eq_nil_or_concat post with rfl | ⟨post, e, rfl⟩
  · obtain ⟨rfl, hbd⟩ := List.append_inj' hl rfl
    obtain rfl : b = d := by simpa using hbd
    exact hb
  · have hl' : l ++ [b] = (pre ++ d :: post) ++ [e] := by simpa using hl
    obtain ⟨hl', -⟩ := List.append_inj' hl' rfl
    exact h pre d post hl'

/-- Where another order that edges go along first differs, it has no smaller identity. -/
theorem IsGreedy.not_lt {pre post post' : List Id} {b c : Id}
    (h : IsGreedy r s (pre ++ b :: post)) (hafter : IsAfterPreds r (pre ++ c :: post'))
    (hnodup : (pre ++ c :: post').Nodup) (hsub : pre ++ c :: post' ⊆ s) : ¬ c < b :=
  h pre b post rfl c (hsub (by simp)) (notMem_of_nodup_append_cons hnodup) (hafter pre c post' rfl)

/-- **A greedy order is the least of those that edges go along.** -/
theorem IsGreedy.eq_or_lex (h : IsGreedy r s l) (hafter : IsAfterPreds r l') (hnodup : l'.Nodup)
    (hsub : l' ⊆ s) (hlength : l.length = l'.length) : l = l' ∨ List.Lex (· < ·) l l' := by
  by_cases heq : l = l'
  · exact .inl heq
  · obtain ⟨pre, b, post, c, post', rfl, rfl, hbc⟩ := exists_first_difference hlength heq
    have hlt : b < c := (Id.lt_or_gt_of_ne hbc).resolve_right (h.not_lt hafter hnodup hsub)
    exact .inr (List.Lex.append_left _ (.rel hlt) pre)

theorem IsGreedy.unique (h : IsGreedy r s l) (h' : IsGreedy r s l') (hafter : IsAfterPreds r l)
    (hafter' : IsAfterPreds r l') (hnodup : l.Nodup) (hnodup' : l'.Nodup) (hsub : l ⊆ s)
    (hsub' : l' ⊆ s) (hlength : l.length = l'.length) : l = l' := by
  by_contra heq
  obtain ⟨pre, b, post, c, post', rfl, rfl, hbc⟩ := exists_first_difference hlength heq
  exact hbc (Id.eq_of_not_lt (h'.not_lt hafter hnodup hsub) (h.not_lt hafter' hnodup' hsub'))

end

/-! ## What the machine places -/

namespace Placement

variable {ids : List Id} {es : List Edge} {p : Placement}

theorem isGreedy_step (h : IsInner ids es) (hp : Invariant ids es p)
    (hgreedy : IsGreedy (Leads es) ids p.placed) :
    IsGreedy (Leads es) ids (p.step es).placed := by
  rcases hready : p.ready with _ | ⟨next, ready⟩
  · rwa [step_of_ready_eq_nil hready]
  rw [hp.step_eq h hready]
  refine hgreedy.snoc fun c hc hout hpreds hlt => ?_
  -- such an identity can be placed, and what can be placed is in ascending order
  have hmem : c ∈ p.ready := (hp.mem_ready c).mpr ⟨hc, hout, pending_eq_nil_iff.mpr hpreds⟩
  obtain ⟨hleast, -⟩ := List.pairwise_cons.mp (hready ▸ hp.ready_sorted)
  rcases List.mem_cons.mp (hready ▸ hmem) with rfl | hmem
  · exact Id.lt_irrefl c hlt
  · exact Id.lt_irrefl c (Id.lt_trans hlt (hleast c hmem))

theorem isGreedy_run (h : IsInner ids es) (hp : Invariant ids es p)
    (hgreedy : IsGreedy (Leads es) ids p.placed) (n : Nat) :
    IsGreedy (Leads es) ids (p.run es n).placed := by
  induction n generalizing p with
  | zero => exact hgreedy
  | succ n ih => exact ih (hp.step h) (isGreedy_step h hp hgreedy)

end Placement

variable {ids ids' : List Id} {es es' : List Edge}

theorem isGreedy_settled (ids : List Id) (es : List Edge) :
    IsGreedy (Links ids es) ids (settled ids es) := by
  have h := isInner_innerEdges ids es
  have hrun := Placement.isGreedy_run h (Placement.Invariant.start h) .nil (distinct ids).length
  rw [leads_innerEdges_distinct] at hrun
  intro pre b post hsplit c hc
  exact hrun pre b post hsplit c (mem_distinct.mpr hc)

theorem settled_subset (ids : List Id) (es : List Edge) : settled ids es ⊆ ids := fun _ h =>
  (mem_settled.mp h).1

/-- There is no other greedy order of the settled identities that edges go along. -/
theorem eq_settled_of_isGreedy {l : List Id} (hgreedy : IsGreedy (Links ids es) ids l)
    (hafter : IsAfterPreds (Links ids es) l) (hnodup : l.Nodup)
    (hmem : ∀ id, id ∈ l ↔ id ∈ settled ids es) : l = settled ids es := by
  have hperm : l.Perm (settled ids es) :=
    (List.perm_ext_iff_of_nodup hnodup (nodup_settled ids es)).mpr hmem
  exact hgreedy.unique (isGreedy_settled ids es) hafter (isAfterPreds_settled ids es) hnodup
    (nodup_settled ids es) (fun id hid => settled_subset ids es ((hmem id).mp hid))
    (settled_subset ids es) hperm.length_eq

theorem links_congr (hids : ∀ id, id ∈ ids ↔ id ∈ ids') (hes : ∀ e, e ∈ es ↔ e ∈ es') :
    Links ids es = Links ids' es' := by
  funext a b
  simp only [Links, Leads, hids, hes]

theorem links_mono (h : es ⊆ es') : Links ids es ≤ Links ids es' := fun _ _ hab =>
  ⟨hab.1, hab.2.1, hab.2.2.1, h hab.2.2.2⟩

/-- What is settled, and in which order, depends only on which identities and edges there are. -/
theorem settled_congr (hids : ∀ id, id ∈ ids ↔ id ∈ ids') (hes : ∀ e, e ∈ es ↔ e ∈ es') :
    settled ids es = settled ids' es' := by
  have hlinks : Links ids es = Links ids' es' := links_congr hids hes
  refine eq_settled_of_isGreedy (fun pre b post hsplit c hc => ?_)
    (hlinks ▸ isAfterPreds_settled ids es) (nodup_settled ids es) fun id => ?_
  · rw [← hlinks]
    exact isGreedy_settled ids es pre b post hsplit c ((hids c).mpr hc)
  · rw [mem_settled, mem_settled, hids, hlinks]

/-- What leads to a settled identity is settled. -/
theorem mem_settled_of_links {a b : Id} (hb : b ∈ settled ids es) (hab : Links ids es a b) :
    a ∈ settled ids es :=
  (isAfterPreds_settled ids es).mem_of_mem hb hab

theorem isForward_settled (ids : List Id) (es : List Edge) :
    IsForward (Links ids es) (settled ids es) :=
  (isForward_iff_isAfterPreds (nodup_settled ids es) fun _ hb _ => mem_settled_of_links hb).mpr
    (isAfterPreds_settled ids es)

theorem settled_eq_or_lex {l : List Id} (hperm : l.Perm (settled ids es))
    (hforward : IsForward (Links ids es) l) :
    settled ids es = l ∨ List.Lex (· < ·) (settled ids es) l := by
  have hnodup : l.Nodup := hperm.nodup_iff.mpr (nodup_settled ids es)
  have hpreds : ∀ b ∈ l, ∀ a, Links ids es a b → a ∈ l := fun b hb a hab =>
    hperm.mem_iff.mpr (mem_settled_of_links (hperm.mem_iff.mp hb) hab)
  exact (isGreedy_settled ids es).eq_or_lex ((isForward_iff_isAfterPreds hnodup hpreds).mp hforward)
    hnodup (fun id hid => settled_subset ids es (hperm.subset hid)) hperm.length_eq.symm

/-! ## The ranking -/

theorem order_rank_of_acyclic (h : Acyclic (Links ids es)) :
    (rank ids es).order = settled ids es := by
  have hrest : (distinct ids).filter (· ∉ settled ids es) = [] :=
    List.eq_nil_iff_forall_not_mem.mpr fun id hid => h.not_behind id (mem_unsettled.mp hid).2
  rw [order_rank, hrest, List.append_nil]

/-- **A ranking begins with the least order.** The identities that are not behind a cycle come
first, in an order that all edges between them go along, and every other such order of them is
greater where it first differs, by octets. So without cycles the ranking depends on nothing but
which identities and edges there are. -/
theorem rank_begins_with_least_order (ids : List Id) (es : List Edge) :
    (∃ free rest, (rank ids es).order = free ++ rest ∧ free.Nodup ∧
      (∀ id, id ∈ free ↔ id ∈ ids ∧ ¬ BehindCycle (Links ids es) id) ∧
      IsForward (Links ids es) free ∧
      ∀ l : List Id, l.Perm free → IsForward (Links ids es) l →
        free = l ∨ List.Lex (fun a b => Text.octets a.text < Text.octets b.text) free l) ∧
    (Acyclic (Links ids es) → ∀ (ids' : List Id) (es' : List Edge),
      (∀ id, id ∈ ids' ↔ id ∈ ids) → (∀ e, e ∈ es' ↔ e ∈ es) → rank ids' es' = rank ids es) := by
  have hleast : ∀ l : List Id, l.Perm (settled ids es) → IsForward (Links ids es) l →
      settled ids es = l ∨
        List.Lex (fun a b => Text.octets a.text < Text.octets b.text) (settled ids es) l := by
    intro l hperm hforward
    refine (settled_eq_or_lex hperm hforward).imp_right fun hlex => ?_
    exact List.Lex.imp (fun a b hab => Text.lt_iff_octets_lt.mp (Id.lt_iff_text_lt.mp hab)) _ _ hlex
  refine ⟨⟨settled ids es, _, order_rank ids es, nodup_settled ids es, fun id => mem_settled,
    isForward_settled ids es, hleast⟩, ?_⟩
  intro hacyclic ids' es' hids hes
  have hacyclic' : Acyclic (Links ids' es') := links_congr hids hes ▸ hacyclic
  refine Ranking.ext_order ?_
  rw [order_rank_of_acyclic hacyclic', order_rank_of_acyclic hacyclic, settled_congr hids hes]

/-- Of what `d` leads to the smaller one comes first, and `a` comes behind both. -/
example : (rank [⟨"a"⟩, ⟨"c"⟩, ⟨"b"⟩, ⟨"d"⟩, ⟨"b"⟩]
    [⟨⟨"d"⟩, ⟨"c"⟩⟩, ⟨⟨"d"⟩, ⟨"b"⟩⟩, ⟨⟨"b"⟩, ⟨"a"⟩⟩, ⟨⟨"c"⟩, ⟨"a"⟩⟩]).order =
      [⟨"d"⟩, ⟨"b"⟩, ⟨"c"⟩, ⟨"a"⟩] := by
  decide

end RootCause.Order
