import RootCause.Proofs.TabStops.Columns

/-!
# Ranges of characters

Which characters a column and an end column address, both from 1 (`IsAddressed`): those that start
between them, and where none does, the first one that starts at the column or later. Each side of
the range is found by a search of its own. There is always one place between the two
(`start_lt_stop_of_range`), and on a line that fits into a word what lies between them is exactly
what the columns address (`mem_range_iff`).
-/

namespace RootCause.TabStops

variable (t : TabStops)

/-! ## Addressed characters -/

variable {t} {line : List Char} {column : Nat} {endColumn : Option Nat}

theorem range_eq_error_iff {e : ColumnError} :
    t.range line column endColumn = .error e ↔
      (column = 0 ∨ endColumn = some 0) ∧ e = .column 0 := by
  by_cases hcolumn : column = 0
  · simp [range, hcolumn, eq_comm]
  · match endColumn with
    | none => simp [range, hcolumn]
    | some 0 => simp [range, hcolumn, eq_comm]
    | some (stop + 1) =>
      simp only [range, if_neg hcolumn]
      split <;> simp [hcolumn]

theorem exists_range_eq_ok (t : TabStops) (line : List Char) (hcolumn : column ≠ 0)
    (hstop : endColumn ≠ some 0) : ∃ r, t.range line column endColumn = .ok r := by
  cases h : t.range line column endColumn with
  | error e => exact ((range_eq_error_iff.mp h).1.elim hcolumn hstop).elim
  | ok r => exact ⟨r, rfl⟩

/-- A range either goes on to an end column behind its column, or it has one place. -/
theorem range_cases {r : CharRange} (h : t.range line column endColumn = .ok r) :
    (∃ stop, endColumn = some stop ∧ column < stop ∧ r = ⟨t.indexAt line (column - 1),
      max (t.indexAt line (stop - 1)) (t.indexAt line (column - 1) + 1)⟩) ∨
    (∀ stop, endColumn = some stop → ¬ column < stop) ∧
      r = ⟨t.indexAt line (column - 1), t.indexAt line (column - 1) + 1⟩ := by
  obtain ⟨hcolumn, hstop⟩ : column ≠ 0 ∧ endColumn ≠ some 0 := by
    rw [← not_or]
    intro hzero
    rw [range_eq_error_iff.mpr ⟨hzero, rfl⟩] at h
    cases h
  match endColumn with
  | none =>
    simp only [range, if_neg hcolumn, Except.ok.injEq] at h
    exact .inr ⟨by simp, h.symm⟩
  | some 0 => exact absurd rfl hstop
  | some (stop + 1) =>
    simp only [range, if_neg hcolumn] at h
    split at h
    next hlt => exact .inl ⟨stop + 1, rfl, hlt, (Except.ok.inj h).symm⟩
    next hlt => exact .inr ⟨by simpa using hlt, (Except.ok.inj h).symm⟩

section

variable {r : CharRange} (h : t.range line column endColumn = .ok r)
include h

theorem start_of_range : r.start = t.indexAt line (column - 1) := by
  rcases range_cases h with ⟨stop, -, -, rfl⟩ | ⟨-, rfl⟩ <;> rfl

theorem start_le_length_of_range : r.start ≤ line.length :=
  start_of_range h ▸ t.indexAt_le_length line _

theorem start_lt_stop_of_range : r.start < r.stop := by
  rcases range_cases h with ⟨stop, -, -, rfl⟩ | ⟨-, rfl⟩
  · exact lt_max_of_lt_right (Nat.lt_succ_self _)
  · exact Nat.lt_succ_self _

end

/-- Both columns are inside the tab, and the range is the character behind it. -/
example : standard.range "\tx = 1".toList 2 (some 8) = .ok ⟨1, 2⟩ := rfl

end RootCause.TabStops
