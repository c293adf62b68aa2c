import Mathlib.Data.List.Sort
import Mathlib.Order.Lattice

/-!
# Sorting by a key

A merge sort whose comparison is the linear order of a key: its result is ascending in the key, and
elements with one key keep their order (`filter_mergeSort_of_key`). These two facts determine the
result (`isStableSort_iff_eq_mergeSort`): a list that is ascending in a key is put together from its
elements with one value of it (`eq_of_filter_eq`), which are neighbours
(`eq_append_filter_of_pairwise`).
-/

namespace RootCause.Order

variable {α β : Type} [LinearOrder β] {le : α → α → Bool}

section

variable (key : α → β) (hle : ∀ a b, le a b = true ↔ key a ≤ key b)

include hle

theorem trans_of_key (a b c : α) (hab : le a b = true) (hbc : le b c = true) : le a c = true :=
  (hle a c).mpr (((hle a b).mp hab).trans ((hle b c).mp hbc))

theorem total_of_key (a b : α) : (le a b || le b a) = true := by
  rw [Bool.or_eq_true, hle, hle]
  exact le_total _ _

theorem pairwise_mergeSort_of_key (l : List α) :
    (l.mergeSort le).Pairwise fun a b => key a ≤ key b :=
  (List.pairwise_mergeSort (trans_of_key key hle) (total_of_key key hle) l).imp fun h => (hle _ _).mp h

/-- A sort is stable: elements that agree on the key keep their order. -/
theorem filter_mergeSort_of_key (l : List α) (p : α → Bool)
    (hp : ∀ a b, p a = true → p b = true → key a = key b) :
    (l.mergeSort le).filter p = l.filter p := by
  have hsorted : (l.filter p).Pairwise fun a b => le a b = true :=
    List.pairwise_of_forall_mem_list fun a ha b hb =>
      (hle a b).mpr (hp a b (List.mem_filter.mp ha).2 (List.mem_filter.mp hb).2).le
  have hsub : List.Sublist (l.filter p) (l.mergeSort le) :=
    List.sublist_mergeSort (trans_of_key key hle) (total_of_key key hle) hsorted List.filter_sublist
  have hfilter : List.Sublist (l.filter p) ((l.mergeSort le).filter p) := by
    simpa using hsub.filter p
  exact (hfilter.eq_of_length ((List.mergeSort_perm l le).filter p).length_eq.symm).symm

end

/-- **The elements with one value of the key stand together in an ascending list**, after those
with smaller and before those with greater values. -/
theorem eq_append_filter_of_pairwise {key : α → β} {l : List α}
    (h : l.Pairwise fun a b => key a ≤ key b) (v : β) :
    l = l.filter (key · < v) ++ l.filter (key · = v) ++ l.filter (v < key ·) := by
  induction l with
  | nil => rfl
  | cons a l ih =>
    obtain ⟨ha, hl⟩ := List.pairwise_cons.mp h
    have ih := ih hl
    -- from an element on whose key is not below the value, no key is
    have hbelow : v ≤ key a → l.filter (key · < v) = [] := fun hv =>
      List.filter_eq_nil_iff.mpr fun b hb => by
        simpa using hv.trans (ha b hb)
    rcases lt_trichotomy (key a) v with hlt | heq | hgt
    · simpa [hlt, hlt.ne, hlt.not_gt] using ih
    · rw [hbelow heq.ge] at ih
      simpa [heq, hbelow heq.ge] using ih
    · have hat : l.filter (key · = v) = [] :=
        List.filter_eq_nil_iff.mpr fun b hb => by
          simpa using (hgt.trans_le (ha b hb)).ne'
      rw [hbelow hgt.le, hat] at ih
      simpa [hgt, hgt.ne', hgt.not_gt, hbelow hgt.le, hat] using ih

/-! ## Stable sorts -/

theorem mem_iff_of_filter_eq {key : α → β} {l l' : List α}
    (h : ∀ v, l.filter (key · = v) = l'.filter (key · = v)) {a : α} : a ∈ l ↔ a ∈ l' := by
  have hmem : ∀ l : List α, a ∈ l ↔ a ∈ l.filter (key · = key a) := fun l => by simp
  rw [hmem l, hmem l', h]

/-- A list that is ascending in a key is determined by the elements that it has with each value. -/
theorem eq_of_filter_eq {key : α → β} {l l' : List α}
    (hl : l.Pairwise fun a b => key a ≤ key b) (hl' : l'.Pairwise fun a b => key a ≤ key b)
    (h : ∀ v, l.filter (key · = v) = l'.filter (key · = v)) : l = l' := by
  induction l generalizing l' with
  | nil => exact (List.eq_nil_iff_forall_not_mem.mpr fun a ha =>
      List.not_mem_nil ((mem_iff_of_filter_eq h).mpr ha)).symm
  | cons a l ih =>
    have hmem : ∀ c, c ∈ a :: l ↔ c ∈ l' := fun c => mem_iff_of_filter_eq h
    cases l' with
    | nil => exact absurd ((hmem a).mp List.mem_cons_self) List.not_mem_nil
    | cons b l' =>
      obtain ⟨ha, htail⟩ := List.pairwise_cons.mp hl
      obtain ⟨hb, htail'⟩ := List.pairwise_cons.mp hl'
      -- each of the two heads is in the other list, and there behind its head
      have hab : key a ≤ key b := by
        rcases List.mem_cons.mp ((hmem b).mpr List.mem_cons_self) with heq | hmem
        · rw [heq]
        · exact ha b hmem
      have hba : key b ≤ key a := by
        rcases List.mem_cons.mp ((hmem a).mp List.mem_cons_self) with heq | hmem
        · rw [heq]
        · exact hb a hmem
      have hkey : key a = key b := le_antisymm hab hba
      have hheads : a :: l.filter (key · = key a) = b :: l'.filter (key · = key a) := by
        simpa [hkey] using h (key a)
      obtain ⟨rfl, htails⟩ := List.cons.inj hheads
      refine congrArg (a :: ·) (ih htail htail' fun v => ?_)
      by_cases hv : key a = v
      · rw [← hv, htails]
      · simpa [hv] using h v

/-- A list has the elements of another one, ascending in a key, and those with one value of the key
in the order that they have there. -/
structure IsStableSort (key : α → β) (l sorted : List α) : Prop where
  perm : sorted.Perm l
  ascending : sorted.Pairwise fun a b => key a ≤ key b
  ties : ∀ v, sorted.filter (key · = v) = l.filter (key · = v)

theorem isStableSort_iff_eq_mergeSort {key : α → β} (hle : ∀ a b, le a b = true ↔ key a ≤ key b)
    {l sorted : List α} : IsStableSort key l sorted ↔ sorted = l.mergeSort le := by
  have hsort : IsStableSort key l (l.mergeSort le) :=
    ⟨List.mergeSort_perm l le, pairwise_mergeSort_of_key key hle l, fun v =>
      filter_mergeSort_of_key key hle l _ fun a b ha hb => by
        rw [of_decide_eq_true ha, of_decide_eq_true hb]⟩
  constructor
  · intro h
    exact eq_of_filter_eq h.ascending hsort.ascending fun v => (h.ties v).trans (hsort.ties v).symm
  · rintro rfl
    exact hsort

end RootCause.Order
