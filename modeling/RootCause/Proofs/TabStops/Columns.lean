import RootCause.TabStops
import Mathlib.Order.MinMax
import Mathlib.Order.Monotone.Basic

/-!
# Columns and indices

Every character of a line fills between one cell and a tab stop's width of cells, so that columns
grow with indices (`columnAt_le_columnAt_iff`). A counter that stands at a column goes on to the
next one, unless it has run past the largest word: on a line that fits into a word it shows the
columns (`Fits.counterAt_eq`).

The search for a column stops at the first character at which the counter has come to it
(`indexAt_le_iff_exists`). On a line that fits, the search is adjoint to the counter: it stops
before or at an index just if the counter at this index has come to the column (`indexAt_le_iff`).
So the search for a character's own column finds the character (`indexAt_counterAt`), and the search
for any other column stops behind the tab that covers it (`counterAt_indexAt_within_tab_stop`). On a
line that does not fit, the counter comes to small columns again (`halfWord`).
-/

namespace RootCause.TabStops

variable (t : TabStops)

/-! ## Widths -/

theorem widthAt_of_ne_tab {c : Char} (h : c ≠ '\t') (col : Nat) : t.widthAt c col = 1 := if_neg h

theorem widthAt_le_width (c : Char) (col : Nat) : t.widthAt c col ≤ t.width := by
  unfold widthAt
  split
  · exact Nat.sub_le _ _
  · exact t.width_pos

/-! ## Columns -/

theorem columnAfter_append (col : Nat) (s s' : List Char) :
    t.columnAfter col (s ++ s') = t.columnAfter (t.columnAfter col s) s' := by
  induction s generalizing col with
  | nil => rfl
  | cons c s ih => exact ih _

theorem le_columnAfter (col : Nat) (s : List Char) : col ≤ t.columnAfter col s := by
  induction s generalizing col with
  | nil => exact le_rfl
  | cons c s ih => exact (Nat.le_add_right _ _).trans (ih _)

@[simp] theorem columnAt_zero (text : List Char) : t.columnAt text 0 = 0 := rfl

theorem columnAt_succ {text : List Char} {i : Nat} {c : Char} (h : text[i]? = some c) :
    t.columnAt text (i + 1) = t.columnAt text i + t.widthAt c (t.columnAt text i) := by
  obtain ⟨hi, rfl⟩ := List.getElem?_eq_some_iff.mp h
  rw [columnAt, columnAt, List.take_succ_eq_append_getElem hi, columnAfter_append]
  rfl

theorem columnAt_of_length_le {text : List Char} {i : Nat} (h : text.length ≤ i) :
    t.columnAt text i = t.columnAt text text.length := by
  rw [columnAt, columnAt, List.take_of_length_le h, List.take_length]

theorem columnAt_lt_columnAt_succ {text : List Char} {i : Nat} (h : i < text.length) :
    t.columnAt text i < t.columnAt text (i + 1) := by
  rw [t.columnAt_succ (List.getElem?_eq_getElem h)]
  exact Nat.lt_add_of_pos_right (t.widthAt_pos _ _)

theorem columnAt_monotone (text : List Char) : Monotone (t.columnAt text) := by
  refine monotone_nat_of_le_succ fun i => ?_
  by_cases h : i < text.length
  · exact (t.columnAt_lt_columnAt_succ h).le
  · rw [t.columnAt_of_length_le (by omega), t.columnAt_of_length_le (i := i + 1) (by omega)]

theorem columnAt_le_columnAt_iff {text : List Char} {i j : Nat} (h : j < text.length) :
    t.columnAt text i ≤ t.columnAt text j ↔ i ≤ j := by
  refine ⟨fun hle => ?_, fun hle => t.columnAt_monotone text hle⟩
  by_contra hlt
  have hcolumns : t.columnAt text (j + 1) ≤ t.columnAt text i :=
    t.columnAt_monotone text (Nat.lt_of_not_le hlt)
  have hsucc := t.columnAt_lt_columnAt_succ h
  omega

theorem dvd_columnAt_succ_of_tab {text : List Char} {i : Nat} (h : text[i]? = some '\t') :
    t.width ∣ t.columnAt text (i + 1) := by
  rw [t.columnAt_succ h]
  exact t.dvd_add_widthAt_tab _

/-! ## Counters -/

/-- The number of cells of a line fits into a word. -/
def Fits (text : List Char) : Prop := t.columnAt text text.length < Text.wordSize

instance (text : List Char) : Decidable (t.Fits text) := inferInstanceAs (Decidable (_ < _))

theorem columnAfter_eq_counterAfter {col : Nat} {s : List Char}
    (h : t.columnAfter col s < Text.wordSize) : t.counterAfter col s = t.columnAfter col s := by
  induction s generalizing col with
  | nil => rfl
  | cons c s ih =>
    have hstep : col + t.widthAt c col < Text.wordSize := (t.le_columnAfter _ s).trans_lt h
    rw [counterAfter, advance, Text.wrap_of_lt hstep]
    exact ih h

variable {t} in
theorem Fits.columnAt_lt {text : List Char} (h : t.Fits text) (i : Nat) :
    t.columnAt text i < Text.wordSize := by
  refine Nat.lt_of_le_of_lt ?_ h
  by_cases hi : i ≤ text.length
  · exact t.columnAt_monotone text hi
  · exact (t.columnAt_of_length_le (by omega)).le

variable {t} in
/-- On a line that fits into a word, a counter shows the columns. -/
theorem Fits.counterAt_eq {text : List Char} (h : t.Fits text) (i : Nat) :
    t.counterAt text i = t.columnAt text i :=
  t.columnAfter_eq_counterAfter (h.columnAt_lt i)

theorem counterAfter_append (col : Nat) (s s' : List Char) :
    t.counterAfter col (s ++ s') = t.counterAfter (t.counterAfter col s) s' := by
  induction s generalizing col with
  | nil => rfl
  | cons c s ih => exact ih _

@[simp] theorem counterAt_zero (text : List Char) : t.counterAt text 0 = 0 := rfl

theorem counterAt_succ {text : List Char} {i : Nat} {c : Char} (h : text[i]? = some c) :
    t.counterAt text (i + 1) = t.advance c (t.counterAt text i) := by
  obtain ⟨hi, rfl⟩ := List.getElem?_eq_some_iff.mp h
  rw [counterAt, counterAt, List.take_succ_eq_append_getElem hi, counterAfter_append]
  rfl

theorem advance_le (c : Char) (col : Nat) : t.advance c col ≤ col + t.width :=
  (Text.wrap_le _).trans (Nat.add_le_add_left (t.widthAt_le_width c col) col)

/-! ## The search for a column -/

theorem indexFrom_le_iff_exists (col column : Nat) (s : List Char) (i : Nat) :
    t.indexFrom col column s ≤ i ↔
      s.length ≤ i ∨ ∃ j ≤ i, column ≤ t.counterAfter col (s.take j) := by
  induction s generalizing col i with
  | nil => simp [indexFrom]
  | cons c s ih =>
    rw [indexFrom]
    split
    next h => exact iff_of_true (Nat.zero_le i) (.inr ⟨0, Nat.zero_le i, h⟩)
    next h =>
      cases i with
      | zero =>
        refine iff_of_false (Nat.not_succ_le_zero _) ?_
        rintro (hlength | ⟨j, hj, hcolumn⟩)
        · exact Nat.not_succ_le_zero _ hlength
        · obtain rfl := Nat.le_zero.mp hj
          exact h hcolumn
      | succ i =>
        rw [Nat.add_le_add_iff_right, ih, List.length_cons, Nat.add_le_add_iff_right]
        refine or_congr_right ⟨?_, ?_⟩
        · rintro ⟨j, hj, hcolumn⟩
          exact ⟨j + 1, Nat.succ_le_succ hj, hcolumn⟩
        · rintro ⟨j, hj, hcolumn⟩
          cases j with
          | zero => exact absurd hcolumn h
          | succ j => exact ⟨j, Nat.le_of_succ_le_succ hj, hcolumn⟩

/-- The search for a column stops before or at an index just if the counter has come to the column
there or before, or if there is no such character. -/
theorem indexAt_le_iff_exists (text : List Char) (column i : Nat) :
    t.indexAt text column ≤ i ↔ text.length ≤ i ∨ ∃ j ≤ i, column ≤ t.counterAt text j :=
  t.indexFrom_le_iff_exists 0 column text i

theorem lt_indexAt_iff_forall (text : List Char) (column i : Nat) :
    i < t.indexAt text column ↔ i < text.length ∧ ∀ j ≤ i, t.counterAt text j < column := by
  rw [← not_le, indexAt_le_iff_exists]
  push Not
  rfl

theorem indexAt_le_length (text : List Char) (column : Nat) :
    t.indexAt text column ≤ text.length :=
  (t.indexAt_le_iff_exists text column _).mpr (.inl le_rfl)

theorem indexAt_mono (text : List Char) : Monotone (t.indexAt text) := fun column column' h => by
  rw [indexAt_le_iff_exists]
  refine ((t.indexAt_le_iff_exists text column' _).mp le_rfl).imp_right ?_
  rintro ⟨j, hj, hcolumn⟩
  exact ⟨j, hj, h.trans hcolumn⟩

/-- In front of where the search stops the counter has not come to the column. -/
theorem counterAt_lt_of_lt_indexAt {text : List Char} {column i : Nat}
    (h : i < t.indexAt text column) : t.counterAt text i < column :=
  ((t.lt_indexAt_iff_forall text column i).mp h).2 i le_rfl

theorem indexAt_eq_length_iff (text : List Char) (column : Nat) :
    t.indexAt text column = text.length ↔ ∀ i < text.length, t.counterAt text i < column := by
  constructor
  · exact fun h i hi => t.counterAt_lt_of_lt_indexAt (h ▸ hi)
  · intro h
    refine le_antisymm (t.indexAt_le_length text column) (Nat.le_of_not_lt fun hlt => ?_)
    obtain hlength | ⟨j, hj, hcolumn⟩ := (t.indexAt_le_iff_exists text column _).mp le_rfl
    · exact hlt.not_ge hlength
    · exact (h j (hj.trans_lt hlt)).not_ge hcolumn

/-- Where the search stops, the counter has come to the column if it has at the line's end. -/
theorem le_counterAt_indexAt {text : List Char} {column : Nat}
    (h : column ≤ t.counterAt text text.length) :
    column ≤ t.counterAt text (t.indexAt text column) := by
  obtain hlength | ⟨j, hj, hcolumn⟩ := (t.indexAt_le_iff_exists text column _).mp le_rfl
  · rwa [le_antisymm (t.indexAt_le_length text column) hlength]
  · rcases hj.lt_or_eq with hlt | rfl
    · exact absurd hcolumn (t.counterAt_lt_of_lt_indexAt hlt).not_ge
    · exact hcolumn

/-! ## The search on a line that fits -/

section Fits

variable {t} {text : List Char}

/-- The search for a column stops before or at an index just if the counter at this index has come
to the column, or if there is no such character. -/
theorem indexAt_le_iff (h : t.Fits text) (column i : Nat) :
    t.indexAt text column ≤ i ↔ text.length ≤ i ∨ column ≤ t.counterAt text i := by
  rw [indexAt_le_iff_exists]
  refine or_congr_right ⟨?_, fun hcolumn => ⟨i, le_rfl, hcolumn⟩⟩
  rintro ⟨j, hj, hcolumn⟩
  rw [h.counterAt_eq] at hcolumn ⊢
  exact hcolumn.trans (t.columnAt_monotone text hj)

theorem lt_indexAt_iff (h : t.Fits text) (column i : Nat) :
    i < t.indexAt text column ↔ i < text.length ∧ t.counterAt text i < column := by
  rw [← not_le, indexAt_le_iff h, not_or, not_le, not_le]

theorem indexAt_counterAt (h : t.Fits text) (i : Nat) :
    t.indexAt text (t.counterAt text i) = min i text.length := by
  refine eq_of_forall_ge_iff fun j => ?_
  rw [indexAt_le_iff h, min_le_iff, or_comm, h.counterAt_eq, h.counterAt_eq]
  refine or_congr_left' fun hj => ?_
  exact t.columnAt_le_columnAt_iff (Nat.lt_of_not_le hj)

end Fits

/-- **The index of a column and the column of an index are adjoint.** No index that is found is
behind the line. On a line that fits into a word, an index up to the line's end is not before the
one that is found for a column just if its own column is not before that column. Past the line's end
the search finds the line's length, and the search for the column of an index finds the index. -/
theorem indexAt_adjoint_counterAt (text : List Char) (column : Nat) :
    t.indexAt text column ≤ text.length ∧
    (t.Fits text →
      (column ≤ t.counterAt text text.length →
        ∀ i ≤ text.length, t.indexAt text column ≤ i ↔ column ≤ t.counterAt text i) ∧
      (t.counterAt text text.length < column → t.indexAt text column = text.length) ∧
      ∀ i, t.indexAt text (t.counterAt text i) = min i text.length) := by
  refine ⟨t.indexAt_le_length text column, fun h => ⟨fun hcolumn i hi => ?_, fun hcolumn => ?_,
    indexAt_counterAt h⟩⟩
  · rw [indexAt_le_iff h]
    refine or_iff_right_of_imp fun hlength => ?_
    rwa [le_antisymm hi hlength]
  · refine (t.indexAt_eq_length_iff text column).mpr fun i hi => ?_
    rw [h.counterAt_eq] at hcolumn ⊢
    exact (t.columnAt_monotone text hi.le).trans_lt hcolumn

/-- A line with a tab in the middle and one at the end, which fills the columns from 9 to 15. -/
def tabbedLine : List Char := "ab\tc\t".toList

theorem tabbedLine_adjoint :
    standard.Fits tabbedLine ∧ 12 ≤ standard.counterAt tabbedLine tabbedLine.length ∧
    (∀ i ≤ tabbedLine.length,
      standard.indexAt tabbedLine 12 ≤ i ↔ 12 ≤ standard.counterAt tabbedLine i) ∧
    ∀ i, standard.indexAt tabbedLine (standard.counterAt tabbedLine i) =
      min i tabbedLine.length := by
  have hfits : standard.Fits tabbedLine := by decide
  have hcolumn : 12 ≤ standard.counterAt tabbedLine tabbedLine.length := by decide
  obtain ⟨hadjoint, -, hinverse⟩ := (standard.indexAt_adjoint_counterAt tabbedLine 12).2 hfits
  exact ⟨hfits, hcolumn, hadjoint hcolumn, hinverse⟩

/-- Tab stops so far from each other that two tabs have as many cells as there are words. -/
def halfWord : TabStops := ⟨Nat.pow 2 63, by decide⟩

/-- Behind the second tab the counter stands at zero again, so that the search for the column of the
last character finds the first one. -/
theorem indexAt_counterAt_halfWord :
    halfWord.indexAt "\t\tx".toList (halfWord.counterAt "\t\tx".toList 2) ≠
      min 2 "\t\tx".toList.length := by
  decide +kernel

/-! ## Columns inside a tab -/

/-- A tab covers this column and starts before it. -/
def IsInsideTab (text : List Char) (column : Nat) : Prop :=
  ∃ i, text[i]? = some '\t' ∧ t.counterAt text i < column ∧ column < t.counterAt text (i + 1)

theorem counterAt_indexAt_lt_add_width (text : List Char) (column : Nat) :
    t.counterAt text (t.indexAt text column) < column + t.width := by
  have hwidth := t.width_pos
  cases hindex : t.indexAt text column with
  | zero =>
    rw [counterAt_zero]
    omega
  | succ i =>
    -- in front of the character that is found the counter has not come to the column
    obtain ⟨hi, hlt⟩ := (t.lt_indexAt_iff_forall text column i).mp (hindex ▸ Nat.lt_succ_self i)
    rw [t.counterAt_succ (List.getElem?_eq_getElem hi)]
    have hle := t.advance_le text[i] (t.counterAt text i)
    have hcolumn := hlt i le_rfl
    omega

section Fits

variable {t} {text : List Char} {column : Nat}

theorem isInsideTab_of_lt (hfits : t.Fits text)
    (h : column < t.counterAt text (t.indexAt text column)) : t.IsInsideTab text column := by
  cases hindex : t.indexAt text column with
  | zero => simp [hindex] at h
  | succ i =>
    obtain ⟨hi, hlt⟩ := (lt_indexAt_iff hfits column i).mp (hindex ▸ Nat.lt_succ_self i)
    have hc : text[i]? = some text[i] := List.getElem?_eq_getElem hi
    rw [hindex] at h
    by_cases htab : text[i] = '\t'
    · exact ⟨i, htab ▸ hc, hlt, h⟩
    · -- another character is one cell wide, which leaves no column between
      rw [hfits.counterAt_eq] at h hlt
      rw [t.columnAt_succ hc, t.widthAt_of_ne_tab htab] at h
      omega

theorem not_isInsideTab_counterAt (hfits : t.Fits text) (i : Nat) :
    ¬ t.IsInsideTab text (t.counterAt text i) := by
  rintro ⟨j, -, hlt, hlt'⟩
  rw [hfits.counterAt_eq, hfits.counterAt_eq] at hlt hlt'
  have hstart : ¬ i ≤ j := fun hle => (t.columnAt_monotone text hle).not_gt hlt
  have hstop : ¬ j + 1 ≤ i := fun hle => (t.columnAt_monotone text hle).not_gt hlt'
  omega

theorem counterAt_indexAt_eq_iff (hfits : t.Fits text)
    (h : column ≤ t.counterAt text text.length) :
    t.counterAt text (t.indexAt text column) = column ↔ ¬ t.IsInsideTab text column := by
  constructor
  · exact fun heq => heq ▸ not_isInsideTab_counterAt hfits _
  · intro hinside
    exact le_antisymm (Nat.le_of_not_lt fun hlt => hinside (isInsideTab_of_lt hfits hlt))
      (t.le_counterAt_indexAt h)

theorem exists_counterAt_eq_iff (hfits : t.Fits text)
    (h : column ≤ t.counterAt text text.length) :
    (∃ i ≤ text.length, t.counterAt text i = column) ↔ ¬ t.IsInsideTab text column := by
  constructor
  · rintro ⟨i, -, rfl⟩
    exact not_isInsideTab_counterAt hfits i
  · exact fun hinside =>
      ⟨_, t.indexAt_le_length text column, (counterAt_indexAt_eq_iff hfits h).mpr hinside⟩

theorem dvd_counterAt_succ_of_tab (hfits : t.Fits text) {i : Nat} (h : text[i]? = some '\t') :
    t.width ∣ t.counterAt text (i + 1) := by
  rw [hfits.counterAt_eq]
  exact t.dvd_columnAt_succ_of_tab h

end Fits

/-- **The column that is found is less than a tab stop past the one that is looked for.** On a line
that fits into a word it is this one unless a tab covers it, and every tab ends at a tab stop. -/
theorem counterAt_indexAt_within_tab_stop {text : List Char} {column : Nat}
    (h : column ≤ t.counterAt text text.length) :
    column ≤ t.counterAt text (t.indexAt text column) ∧
    t.counterAt text (t.indexAt text column) < column + t.width ∧
    (t.Fits text →
      (t.counterAt text (t.indexAt text column) = column ↔ ¬ t.IsInsideTab text column) ∧
      ((∃ i ≤ text.length, t.counterAt text i = column) ↔ ¬ t.IsInsideTab text column) ∧
      ∀ i, text[i]? = some '\t' → t.width ∣ t.counterAt text (i + 1)) :=
  ⟨t.le_counterAt_indexAt h, t.counterAt_indexAt_lt_add_width text column, fun hfits =>
    ⟨counterAt_indexAt_eq_iff hfits h, exists_counterAt_eq_iff hfits h, fun _ =>
      dvd_counterAt_succ_of_tab hfits⟩⟩

theorem tabbedLine_within_tab_stop :
    12 ≤ standard.counterAt tabbedLine tabbedLine.length ∧ standard.Fits tabbedLine ∧
    12 ≤ standard.counterAt tabbedLine (standard.indexAt tabbedLine 12) ∧
    standard.counterAt tabbedLine (standard.indexAt tabbedLine 12) < 12 + 8 ∧
    (standard.counterAt tabbedLine (standard.indexAt tabbedLine 12) = 12 ↔
      ¬ standard.IsInsideTab tabbedLine 12) ∧
    ((∃ i ≤ tabbedLine.length, standard.counterAt tabbedLine i = 12) ↔
      ¬ standard.IsInsideTab tabbedLine 12) ∧
    ∀ i, tabbedLine[i]? = some '\t' → 8 ∣ standard.counterAt tabbedLine (i + 1) := by
  have h : 12 ≤ standard.counterAt tabbedLine tabbedLine.length := by decide
  have hfits : standard.Fits tabbedLine := by decide
  obtain ⟨hle, hlt, hexact⟩ := standard.counterAt_indexAt_within_tab_stop h
  exact ⟨h, hfits, hle, hlt, hexact hfits⟩

/-- The counter stands at one after the line, but the search for one stops at the second tab. -/
theorem counterAt_indexAt_halfWord :
    let column := halfWord.counterAt "\t\tx".toList "\t\tx".toList.length
    halfWord.counterAt "\t\tx".toList (halfWord.indexAt "\t\tx".toList column) ≠ column := by
  decide +kernel

end RootCause.TabStops
