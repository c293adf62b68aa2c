/-!
# Distinct elements

The first occurrences of the elements of a list: `distinct` keeps every element once
(`mem_distinct`, `nodup_distinct`), in the order in which they are first met
(`pairwise_idxOf_distinct`), which is all that decides what is kept (`distinct_eq_distinct_iff`).
-/

namespace RootCause

variable {α : Type} [DecidableEq α]

/-- The elements of a list in the order of their first occurrences. -/
def distinct : List α → List α
  | [] => []
  | a :: l => a :: (distinct l).filter (· ≠ a)

@[simp] theorem mem_distinct {a : α} {l : List α} : a ∈ distinct l ↔ a ∈ l := by
  induction l with
  | nil => simp [distinct]
  | cons b l ih =>
    by_cases h : a = b
    · simp [distinct, h]
    · simp [distinct, h, ih]

theorem nodup_distinct (l : List α) : (distinct l).Nodup := by
  induction l with
  | nil => simp [distinct]
  | cons b l ih =>
    refine List.nodup_cons.2 ⟨by simp, ?_⟩
    exact List.Pairwise.filter _ ih

theorem distinct_sublist (l : List α) : List.Sublist (distinct l) l := by
  induction l with
  | nil => exact .slnil
  | cons b l ih => exact .cons_cons b (List.filter_sublist.trans ih)

theorem filter_distinct (p : α → Bool) (l : List α) :
    (distinct l).filter p = distinct (l.filter p) := by
  induction l with
  | nil => rfl
  | cons a l ih =>
    by_cases hp : p a
    · rw [distinct, List.filter_cons_of_pos hp, List.filter_cons_of_pos hp, distinct, ← ih,
        List.filter_filter, List.filter_filter]
      simp only [Bool.and_comm]
    · have hne : ∀ b, (p b && decide (b ≠ a)) = p b := fun b => by
        by_cases hba : b = a
        · simp [hba, hp]
        · simp [hba]
      rw [distinct, List.filter_cons_of_neg hp, List.filter_cons_of_neg hp, ← ih,
        List.filter_filter]
      simp only [hne]

/-- An injective map keeps distinct elements distinct. -/
theorem distinct_map {β : Type} [DecidableEq β] {f : α → β} (hf : Function.Injective f)
    (l : List α) : distinct (l.map f) = (distinct l).map f := by
  induction l with
  | nil => rfl
  | cons a l ih =>
    rw [List.map_cons, distinct, distinct, List.map_cons, ih, List.filter_map]
    refine congrArg (f a :: ·.map f) (List.filter_congr fun b _ => ?_)
    have hiff : f b ≠ f a ↔ b ≠ a := not_congr ⟨fun h => hf h, congrArg f⟩
    exact decide_eq_decide.mpr hiff

/-- Of two elements the one that is met first comes first. -/
theorem pairwise_idxOf_distinct (l : List α) :
    (distinct l).Pairwise fun a b => l.idxOf a < l.idxOf b := by
  induction l with
  | nil => exact .nil
  | cons c l ih =>
    have hsucc : ∀ a, a ≠ c → (c :: l).idxOf a = l.idxOf a + 1 := fun a ha => by
      rw [List.idxOf_cons, beq_false_of_ne ha.symm, cond_false]
    refine List.pairwise_cons.2 ⟨fun b hb => ?_, ?_⟩
    · have hb : b ≠ c := by simpa using (List.mem_filter.1 hb).2
      rw [List.idxOf_cons_self, hsucc b hb]
      exact Nat.succ_pos _
    · refine (List.Pairwise.filter _ ih).imp_of_mem fun {a b} ha hb hab => ?_
      have ha : a ≠ c := by simpa using (List.mem_filter.1 ha).2
      have hb : b ≠ c := by simpa using (List.mem_filter.1 hb).2
      rw [hsucc a ha, hsucc b hb]
      exact Nat.succ_lt_succ hab

/-- What is kept of two lists of the same elements is the same if and only if an element that is
met before another one in the first list is met before it in the second. -/
theorem distinct_eq_distinct_iff {l l' : List α} (hmem : ∀ a, a ∈ l ↔ a ∈ l') :
    distinct l = distinct l' ↔
      ∀ a ∈ l, ∀ b ∈ l, l.idxOf a < l.idxOf b → l'.idxOf a < l'.idxOf b := by
  constructor
  · intro heq a ha b hb hab
    have hl := List.pairwise_iff_getElem.mp (pairwise_idxOf_distinct l)
    have hl' := List.pairwise_iff_getElem.mp (heq ▸ pairwise_idxOf_distinct l')
    obtain ⟨i, hi, rfl⟩ := List.getElem_of_mem (mem_distinct.mpr ha)
    obtain ⟨j, hj, rfl⟩ := List.getElem_of_mem (mem_distinct.mpr hb)
    have hij : i < j := by
      rcases Nat.lt_trichotomy i j with h | rfl | h
      · exact h
      · exact absurd hab (Nat.lt_irrefl _)
      · exact absurd (hl j i hj hi h) (Nat.lt_asymm hab)
    exact hl' i j hi hj hij
  · intro horder
    have hperm : (distinct l).Perm (distinct l') :=
      (List.perm_ext_iff_of_nodup (nodup_distinct l) (nodup_distinct l')).mpr fun a => by
        rw [mem_distinct, mem_distinct, hmem]
    refine hperm.eq_of_pairwise (fun a b _ _ hab hba => absurd hba (Nat.lt_asymm hab)) ?_
      (pairwise_idxOf_distinct l')
    exact (pairwise_idxOf_distinct l).imp_of_mem fun ha hb hab =>
      horder _ (mem_distinct.mp ha) _ (mem_distinct.mp hb) hab

/-- The position of the first occurrence of an element. -/
def position? (a : α) : List α → Option Nat
  | [] => none
  | b :: l => if b = a then some 0 else (position? a l).map (· + 1)

theorem position?_eq_none_iff {a : α} {l : List α} : position? a l = none ↔ a ∉ l := by
  induction l with
  | nil => simp [position?]
  | cons b l ih =>
    by_cases h : b = a
    · simp [position?, h]
    · simp [position?, h, ih, Ne.symm h]

theorem lt_length_of_position? {a : α} {l : List α} {i : Nat} (h : position? a l = some i) :
    i < l.length := by
  induction l generalizing i with
  | nil => cases h
  | cons b l ih =>
    by_cases hb : b = a
    · rw [position?, if_pos hb, Option.some.injEq] at h
      exact h ▸ Nat.succ_pos _
    · rw [position?, if_neg hb, Option.map_eq_some_iff] at h
      obtain ⟨j, hj, rfl⟩ := h
      exact Nat.succ_lt_succ (ih hj)

theorem position?_eq_some_iff {l : List α} (hl : l.Nodup) {a : α} {i : Nat} :
    position? a l = some i ↔ l[i]? = some a := by
  induction l generalizing i with
  | nil => simp [position?]
  | cons b l ih =>
    obtain ⟨hb, hl⟩ := List.nodup_cons.1 hl
    by_cases h : b = a
    · subst h
      cases i with
      | zero => simp [position?]
      | succ i => simpa [position?] using fun h => hb (List.mem_of_getElem? h)
    · cases i with
      | zero => simp [position?, h]
      | succ i => simpa [position?, h] using ih hl

end RootCause
