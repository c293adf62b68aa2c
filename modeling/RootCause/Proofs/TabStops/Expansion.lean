import RootCause.Proofs.TabStops.Columns
import Mathlib.Data.List.Basic

/-!
# Expanded lines

The expansion of a line is put together character by character: what stands for a character follows
the expansion of what is in front of it (`expand_eq_append`), at the character's column
(`length_expand_take`). So the cells from a character's column to the next one's are exactly what
stands for it, the character itself or spaces for a tab (`expand_agrees_with_columns`).
-/

namespace RootCause.TabStops

variable (t : TabStops)

/-! ## What an expansion consists of -/

theorem expandFrom_append (col : Nat) (s s' : List Char) :
    t.expandFrom col (s ++ s') =
      t.expandFrom col s ++ t.expandFrom (t.columnAfter col s) s' := by
  induction s generalizing col with
  | nil => rfl
  | cons c s ih =>
    rw [List.cons_append, expandFrom, ih, expandFrom, columnAfter, List.append_assoc]

theorem expandFrom_singleton (col : Nat) (c : Char) :
    t.expandFrom col [c] = if c = '\t' then List.replicate (t.widthAt c col) ' ' else [c] :=
  List.append_nil _

theorem length_expandFrom (col : Nat) (s : List Char) :
    col + (t.expandFrom col s).length = t.columnAfter col s := by
  induction s generalizing col with
  | nil => rfl
  | cons c s ih =>
    have hwidth : (if c = '\t' then List.replicate (t.widthAt c col) ' ' else [c]).length =
        t.widthAt c col := by
      by_cases hc : c = '\t' <;> simp [hc, widthAt]
    rw [expandFrom, List.length_append, hwidth, columnAfter, ← ih]
    omega

theorem of_mem_expandFrom {col : Nat} {s : List Char} {c : Char} (h : c ∈ t.expandFrom col s) :
    c ≠ '\t' ∧ (c = ' ' ∨ c ∈ s) := by
  induction s generalizing col with
  | nil => exact absurd h List.not_mem_nil
  | cons d s ih =>
    rw [expandFrom, List.mem_append] at h
    rcases h with h | h
    · split at h
      next htab =>
        obtain rfl : c = ' ' := List.eq_of_mem_replicate h
        exact ⟨by decide, .inl rfl⟩
      next htab =>
        obtain rfl := List.mem_singleton.mp h
        exact ⟨htab, .inr List.mem_cons_self⟩
    · exact ⟨(ih h).1, (ih h).2.imp_right (List.mem_cons_of_mem d)⟩

theorem expandFrom_of_notMem {s : List Char} (h : '\t' ∉ s) (col : Nat) :
    t.expandFrom col s = s := by
  induction s generalizing col with
  | nil => rfl
  | cons c s ih =>
    obtain ⟨hc, hs⟩ := not_or.mp (mt List.mem_cons.mpr h)
    rw [expandFrom, if_neg (Ne.symm hc), ih hs, List.singleton_append]

/-! ## Where characters stand in an expansion -/

/-- The column of a character is the length of what the line in front of it is expanded to. -/
theorem length_expand_take (text : List Char) (i : Nat) :
    (t.expand (text.take i)).length = t.columnAt text i := by
  have h := t.length_expandFrom 0 (text.take i)
  rwa [Nat.zero_add] at h

theorem expand_eq_append (text : List Char) (i : Nat) :
    t.expand text = t.expand (text.take i) ++ t.expandFrom (t.columnAt text i) (text.drop i) := by
  conv_lhs => rw [← List.take_append_drop i text, expand, expandFrom_append]
  rfl

theorem expand_take_succ {text : List Char} {i : Nat} {c : Char} (h : text[i]? = some c) :
    t.expand (text.take (i + 1)) =
      t.expand (text.take i) ++ t.expandFrom (t.columnAt text i) [c] := by
  obtain ⟨hi, rfl⟩ := List.getElem?_eq_some_iff.mp h
  rw [List.take_succ_eq_append_getElem hi, expand, expandFrom_append]
  rfl

theorem extract_expand {text : List Char} {i : Nat} {c : Char} (h : text[i]? = some c) :
    (t.expand text).extract (t.columnAt text i) (t.columnAt text (i + 1)) =
      t.expandFrom (t.columnAt text i) [c] := by
  have hlength : (t.expandFrom (t.columnAt text i) [c]).length =
      t.columnAt text (i + 1) - t.columnAt text i := by
    rw [t.columnAt_succ h, Nat.add_sub_cancel_left]
    exact Nat.add_left_cancel (t.length_expandFrom (t.columnAt text i) [c])
  rw [t.expand_eq_append text (i + 1), t.expand_take_succ h, List.extract_eq_take_drop,
    List.append_assoc, List.drop_left' (t.length_expand_take text i), List.take_left' hlength]

/-- **An expanded line agrees with the columns of its characters.** What the characters in front of
one are expanded to is how the expanded line begins, up to the character's column. From there to the
column of the next one stands the character, or spaces if it is a tab. No tab is left, so that
expanding the line again changes nothing. -/
theorem expand_agrees_with_columns (text : List Char) :
    (∀ i, t.expand (text.take i) <+: t.expand text ∧
      (t.expand (text.take i)).length = t.columnAt text i) ∧
    (∀ i c, text[i]? = some c →
      (t.expand text).extract (t.columnAt text i) (t.columnAt text (i + 1)) =
        if c = '\t' then List.replicate (t.columnAt text (i + 1) - t.columnAt text i) ' '
        else [c]) ∧
    '\t' ∉ t.expand text ∧ (t.expand text).length = t.columnAt text text.length ∧
    t.expand (t.expand text) = t.expand text := by
  have htab : '\t' ∉ t.expand text := fun h => (t.of_mem_expandFrom h).1 rfl
  refine ⟨fun i => ⟨⟨_, (t.expand_eq_append text i).symm⟩, t.length_expand_take text i⟩,
    fun i c hc => ?_, htab, ?_, t.expandFrom_of_notMem htab 0⟩
  · rw [t.extract_expand hc, expandFrom_singleton, t.columnAt_succ hc, Nat.add_sub_cancel_left]
  · rw [← t.length_expand_take text text.length, List.take_length]

end RootCause.TabStops
