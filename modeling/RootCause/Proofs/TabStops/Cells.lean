import RootCause.Proofs.TabStops.Expansion

/-!
# Cells of a line

Which cells a character fills once the tabs of its line are expanded (`IsCellOf`): those behind the
expanded characters in front of it, up to the end of what it is expanded to; behind the line every
index has one cell. The cells of a range of characters are neighbours, from the first one's column
on (`exists_isCellOf_iff`).
-/

namespace RootCause.TabStops

variable (t : TabStops)

/-- The cell that follows the first `i` characters of a line whose tabs are expanded. Behind the
line every index has one cell. -/
def cellAt (line : List Char) (i : Nat) : Nat :=
  (t.expand (line.take i)).length + (i - line.length)

/-- The cell `k` is one of those that the character with the index `i` fills. -/
def IsCellOf (line : List Char) (i k : Nat) : Prop := t.cellAt line i ≤ k ∧ k < t.cellAt line (i + 1)

theorem cellAt_eq (line : List Char) (i : Nat) :
    t.cellAt line i = t.columnAt line i + (i - line.length) := by
  rw [cellAt, length_expand_take]

theorem cellAt_lt_cellAt_succ (line : List Char) (i : Nat) :
    t.cellAt line i < t.cellAt line (i + 1) := by
  rw [cellAt_eq, cellAt_eq]
  by_cases h : i < line.length
  · have := t.columnAt_lt_columnAt_succ h
    omega
  · rw [t.columnAt_of_length_le (by omega), t.columnAt_of_length_le (i := i + 1) (by omega)]
    omega

theorem cellAt_strictMono (line : List Char) : StrictMono (t.cellAt line) :=
  strictMono_nat_of_lt_succ (t.cellAt_lt_cellAt_succ line)

/-- The cells of a range of characters are neighbours. -/
theorem exists_isCellOf_iff {line : List Char} {start stop : Nat} (h : start ≤ stop) (k : Nat) :
    (∃ i, start ≤ i ∧ i < stop ∧ t.IsCellOf line i k) ↔
      t.cellAt line start ≤ k ∧ k < t.cellAt line stop := by
  induction stop, h using Nat.le_induction with
  | base =>
    refine iff_of_false ?_ (by omega)
    rintro ⟨i, hle, hlt, -⟩
    omega
  | succ stop hle ih =>
    -- the range is one character longer than the one of the hypothesis
    have hstart : t.cellAt line start ≤ t.cellAt line stop :=
      (t.cellAt_strictMono line).monotone hle
    have hsucc := t.cellAt_lt_cellAt_succ line stop
    have hsplit : (∃ i, start ≤ i ∧ i < stop + 1 ∧ t.IsCellOf line i k) ↔
        (∃ i, start ≤ i ∧ i < stop ∧ t.IsCellOf line i k) ∨ t.IsCellOf line stop k := by
      constructor
      · rintro ⟨i, hi, hlt, hcell⟩
        rcases Nat.lt_succ_iff_lt_or_eq.mp hlt with hlt | rfl
        · exact .inl ⟨i, hi, hlt, hcell⟩
        · exact .inr hcell
      · rintro (⟨i, hi, hlt, hcell⟩ | hcell)
        · exact ⟨i, hi, by omega, hcell⟩
        · exact ⟨stop, hle, by omega, hcell⟩
    rw [hsplit, ih, IsCellOf]
    omega

end RootCause.TabStops
