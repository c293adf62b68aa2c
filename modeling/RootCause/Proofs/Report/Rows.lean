import RootCause.Proofs.TabStops.Cells
import RootCause.Proofs.TabStops.Ranges
import RootCause.Proofs.Text.ReadBack
import RootCause.Report.Layout

/-!
# Rows with a bar

What an entry shows of a file is written in rows that have their bars in one column
(`hasBar_of_mem_rowsOf`), because no number in the gutter is wider than the gutter
(`length_gutterText`). Below the line that the entry is about stands a row of carets, in exactly the
cells that the diagnostic's characters fill in the row above it (`carets_line_up`).
-/

namespace RootCause.Report

/-! ## The gutter -/

theorem length_decimal_mono {m n : Nat} (h : m ≤ n) :
    (Text.decimal m).length ≤ (Text.decimal n).length := by
  have hpos : 0 < (Text.decimal n).length := Nat.length_toDigits_pos
  have hlt : n < 10 ^ (Text.decimal n).length :=
    (Nat.length_toDigits_le_iff (by decide) hpos).mp le_rfl
  exact (Nat.length_toDigits_le_iff (by decide) hpos).mpr (h.trans_lt hlt)

theorem le_foldl_max (l : List Nat) (a : Nat) : a ≤ l.foldl max a ∧ ∀ n ∈ l, n ≤ l.foldl max a := by
  induction l generalizing a with
  | nil => simp
  | cons b l ih =>
    obtain ⟨hstart, hmem⟩ := ih (max a b)
    refine ⟨(le_max_left a b).trans hstart, fun n hn => ?_⟩
    rcases List.mem_cons.mp hn with rfl | hn
    · exact (le_max_right a n).trans hstart
    · exact hmem n hn

theorem length_gutterText {width : Nat} {number : Option Nat}
    (h : ∀ n ∈ number, (Text.decimal n).length ≤ width) :
    (gutterText width number).length = width := by
  have hle : ((number.map Text.decimal).getD []).length ≤ width := by
    cases number with
    | none => exact Nat.zero_le _
    | some n => exact h n rfl
  rw [gutterText, List.length_append, List.length_replicate]
  omega

theorem eq_blank_or_isDigit_of_mem_gutterText {width : Nat} {number : Option Nat} {c : Char}
    (h : c ∈ gutterText width number) : c = ' ' ∨ c.isDigit := by
  rcases List.mem_append.mp h with h | h
  · exact .inl (List.eq_of_mem_replicate h)
  · cases number with
    | none => simp at h
    | some n => exact .inr (Text.isDigit_of_mem_decimal h)

/-! ## Shown lines -/

/-- A line of the file or of a diff as an entry shows it. -/
structure ShownLine where
  number : Option Nat
  /-- What stands in front of the line: the sign of a diff's line, and else a blank. -/
  marker : Char
  content : List Char
  /-- Carets stand below the line. -/
  isPointed : Bool

/-- A line of a diff as it is shown, where `i` is its index in a snippet. -/
def ShownLine.ofDiff (pointer : Option Nat) (i : Nat) (l : Diff.Line) : ShownLine :=
  ⟨l.newLine, (l.sign.map Diff.Sign.char).getD ' ', l.content, pointer = some i⟩

/-- The lines that an entry shows. -/
def Entry.shown (e : Entry) : List ShownLine :=
  match e.view, e.sourceLine with
  | some v, _ => v.snippet.lines.mapIdx (ShownLine.ofDiff v.snippet.pointer)
  | none, some line => [⟨some e.diagnostic.line, ' ', line, true⟩]
  | none, none => []

/-- The row of a shown line. -/
def ShownLine.row (t : TabStops) (gutter : Nat) (s : ShownLine) : List Char :=
  gutterText gutter s.number ++ ' ' :: '|' :: s.marker :: t.expand s.content

/-- The row of carets for a range of a text. -/
def caretRow (t : TabStops) (gutter : Nat) (content : List Char) (r : CharRange) : List Char :=
  gutterText gutter none ++ ' ' :: '|' :: ' ' :: List.replicate (caretColumn t content r) ' ' ++
    List.replicate (caretWidth t content r) '^'

namespace Entry

variable (e : Entry) (t : TabStops)

/-- The row of a shown line, and below it the one of its carets. -/
def rowsOf (s : ShownLine) : List (List Char) :=
  s.row t e.gutter ::
    if s.isPointed then ((e.caretRange t s.content).map (caretRow t e.gutter s.content)).toList
    else []

/-- The line that says where a snippet comes from. -/
def arrowLine : List Char :=
  match e.view with
  | some v =>
    "  ".toList ++ "-->".toList ++ s!" {v.origin.name} diff ".toList ++ v.snippet.header ++ ['\n']
  | none => []

theorem unlines_rowsOf (s : ShownLine) :
    Text.unlines (e.rowsOf t s) = s.row t e.gutter ++ '\n' ::
      if s.isPointed then e.carets t false s.content else [] := by
  by_cases h : s.isPointed = true
  · rw [rowsOf, if_pos h, if_pos h, carets]
    cases e.caretRange t s.content with
    | none => simp [Text.unlines]
    | some r => simp [Text.unlines, caretLine, caretRow]
  · rw [rowsOf, if_neg h, if_neg h]
    simp [Text.unlines]

theorem unlines_rowsOf_ofDiff (pointer : Option Nat) (i : Nat) (l : Diff.Line) :
    Text.unlines (e.rowsOf t (.ofDiff pointer i l)) = diffLine t e.gutter false l ++
      if pointer = some i then e.carets t false l.content else [] := by
  rw [unlines_rowsOf]
  simp [ShownLine.ofDiff, ShownLine.row, diffLine]

/-- Without colours an entry shows the rows of its lines, below an arrow if it has a snippet. -/
theorem shownLines_false :
    e.shownLines t false = e.arrowLine ++ Text.unlines (e.shown.flatMap (e.rowsOf t)) := by
  have hrows : ∀ ss : List ShownLine, Text.unlines (ss.flatMap (e.rowsOf t)) =
      (ss.map fun s => Text.unlines (e.rowsOf t s)).flatten := fun ss => by
    rw [Text.unlines, List.flatMap_assoc, List.flatMap_def]
    rfl
  rw [hrows, shownLines, arrowLine, shown]
  cases e.view with
  | some v =>
    simp only [viewLines, List.mapIdx_eq_zipIdx_map, List.map_map, Function.comp_def,
      unlines_rowsOf_ofDiff]
    simp
  | none =>
    cases e.sourceLine with
    | none => rfl
    | some line => simp [sourceLines, unlines_rowsOf, numberedLine, ShownLine.row]

theorem prettyText_false :
    e.prettyText t false = e.heading false ++ e.messageLines ++ e.arrowLine ++
      Text.unlines (e.shown.flatMap (e.rowsOf t)) ++ e.commitLines := by
  rw [prettyText, shownLines_false]
  simp only [List.append_assoc]

end Entry

/-! ## Bars -/

/-- The first bar of a row stands right behind a gutter and a blank. -/
def HasBar (gutter : Nat) (row : List Char) : Prop :=
  row[gutter + 1]? = some '|' ∧ '|' ∉ row.take (gutter + 1)

theorem hasBar_gutterText {width : Nat} {number : Option Nat} (rest : List Char)
    (h : ∀ n ∈ number, (Text.decimal n).length ≤ width) :
    HasBar width (gutterText width number ++ ' ' :: '|' :: rest) := by
  have hlength : (gutterText width number ++ [' ']).length = width + 1 := by
    rw [List.length_append, length_gutterText h, List.length_singleton]
  have hbar : '|' ∉ gutterText width number ++ [' '] := by
    intro hmem
    rcases List.mem_append.mp hmem with hmem | hmem
    · exact absurd (eq_blank_or_isDigit_of_mem_gutterText hmem) (by decide)
    · exact absurd (List.mem_singleton.mp hmem) (by decide)
  rw [List.append_cons, HasBar, ← hlength, List.take_left, List.getElem?_append_right le_rfl,
    Nat.sub_self]
  exact ⟨rfl, hbar⟩

theorem Entry.length_decimal_le_gutter {e : Entry} {s : ShownLine} (hs : s ∈ e.shown) :
    ∀ n ∈ s.number, (Text.decimal n).length ≤ e.gutter := by
  intro n hn
  rw [gutter]
  refine length_decimal_mono ?_
  rw [shown] at hs
  cases hview : e.view with
  | some v =>
    rw [hview] at hs
    obtain ⟨i, hi, rfl⟩ := List.mem_mapIdx.mp hs
    exact (le_foldl_max _ _).2 n (List.mem_filterMap.mpr ⟨_, List.getElem_mem hi, hn⟩)
  | none =>
    rw [hview] at hs
    cases hline : e.sourceLine with
    | none => simp [hline] at hs
    | some line =>
      rw [hline] at hs
      obtain rfl := List.mem_singleton.mp hs
      obtain rfl : e.diagnostic.line = n := Option.some.inj hn
      exact (le_foldl_max _ _).1

theorem Entry.hasBar_of_mem_rowsOf {e : Entry} {t : TabStops} {s : ShownLine} (hs : s ∈ e.shown)
    {row : List Char} (h : row ∈ e.rowsOf t s) : HasBar e.gutter row := by
  rcases List.mem_cons.mp h with rfl | h
  · exact hasBar_gutterText _ (length_decimal_le_gutter hs)
  · split at h
    · obtain ⟨r, -, rfl⟩ := Option.map_eq_some_iff.mp (Option.mem_toList.mp h)
      rw [caretRow, List.append_assoc]
      exact hasBar_gutterText _ nofun
    · exact absurd h List.not_mem_nil

/-! ## Carets -/

theorem getElem?_append_replicate_iff {pre : List Char} {c : Char} (h : c ∉ pre) (n p : Nat) :
    (pre ++ List.replicate n c)[p]? = some c ↔ pre.length ≤ p ∧ p < pre.length + n := by
  by_cases hp : p < pre.length
  · rw [List.getElem?_append_left hp]
    refine iff_of_false (fun hc => h (List.mem_of_getElem? hc)) (by omega)
  · rw [List.getElem?_append_right (by omega), List.getElem?_replicate]
    split <;> simp <;> omega

/-- Carets begin in the first character's first cell and end where the last one's cells end. -/
theorem caretColumn_add_caretWidth {t : TabStops} {content : List Char} {r : CharRange}
    (hstart : r.start ≤ content.length) (hlt : r.start < r.stop) :
    caretColumn t content r = t.cellAt content r.start ∧
    caretColumn t content r + caretWidth t content r = t.cellAt content r.stop := by
  have hcolumn : caretColumn t content r = t.cellAt content r.start := by
    rw [caretColumn, t.cellAt_eq, Nat.sub_eq_zero_of_le hstart, Nat.add_zero]
  -- neither is the difference of the columns cut off at zero, nor is the width less than one
  have hle : t.columnAt content r.start ≤ t.columnAt content r.stop :=
    t.columnAt_monotone content hlt.le
  have hcells := t.cellAt_strictMono content hlt
  refine ⟨hcolumn, ?_⟩
  rw [← hcolumn, t.cellAt_eq, caretColumn] at hcells
  rw [caretWidth, t.cellAt_eq, caretColumn]
  omega

theorem notMem_expandFrom {t : TabStops} {content : List Char} {c : Char} (hc : c ≠ ' ')
    (h : c ∉ content) (col : Nat) : c ∉ t.expandFrom col content := fun hmem =>
  (t.of_mem_expandFrom hmem).2.elim hc h

theorem notMem_gutterText {width : Nat} {number : Option Nat} {c : Char} (hc : c ≠ ' ')
    (hdigit : ¬ c.isDigit) : c ∉ gutterText width number := fun h =>
  (eq_blank_or_isDigit_of_mem_gutterText h).elim hc hdigit

/-- Behind the gutter, the bar and a blank on either side of it, carets fill the cells of a
range. -/
theorem getElem?_caretRow_iff {t : TabStops} {content : List Char} {r : CharRange}
    (hstart : r.start ≤ content.length) (hlt : r.start < r.stop) (gutter p : Nat) :
    (caretRow t gutter content r)[p]? = some '^' ↔
      gutter + 3 + t.cellAt content r.start ≤ p ∧ p < gutter + 3 + t.cellAt content r.stop := by
  obtain ⟨hcolumn, hwidth⟩ := caretColumn_add_caretWidth (t := t) hstart hlt
  have hlength : (gutterText gutter none ++ ' ' :: '|' :: ' ' ::
      List.replicate (caretColumn t content r) ' ').length =
        gutter + 3 + t.cellAt content r.start := by
    have hgutter : (gutterText gutter none).length = gutter :=
      length_gutterText fun _ hn => nomatch hn
    simp only [List.length_append, List.length_cons, List.length_replicate, hgutter, hcolumn]
    omega
  have hblank : '^' ∉ gutterText gutter none ++ ' ' :: '|' :: ' ' ::
      List.replicate (caretColumn t content r) ' ' := by
    have hgutter : '^' ∉ gutterText gutter none := notMem_gutterText (by decide) (by decide)
    simp [hgutter]
  rw [caretRow, getElem?_append_replicate_iff hblank, hlength]
  omega

/-- A row of carets stands below a row, in the cells that a range of characters fills in it. -/
structure AreBelow (t : TabStops) (gutter : Nat) (content : List Char) (r : CharRange)
    (row carets : List Char) : Prop where
  row_isLine : '\n' ∉ row
  carets_isLine : '\n' ∉ carets
  /-- The text stands in the row from the cell `gutter + 3` on. -/
  cells : ∀ k, row[gutter + 3 + k]? = (t.expand content)[k]?
  carets_iff : ∀ p, carets[p]? = some '^' ↔
    ∃ i k, r.start ≤ i ∧ i < r.stop ∧ t.IsCellOf content i k ∧ p = gutter + 3 + k
  exists_caret : '^' ∈ carets
  /-- The difference in the number of carets is not cut off at zero. -/
  columns_le : t.columnAt content r.start ≤ t.columnAt content r.stop

theorem areBelow_caretRow {t : TabStops} {gutter : Nat} {s : ShownLine} {r : CharRange}
    (hnumber : ∀ n ∈ s.number, (Text.decimal n).length ≤ gutter)
    (hmarker : s.marker ≠ '\n') (hcontent : '\n' ∉ s.content)
    (hstart : r.start ≤ s.content.length) (hlt : r.start < r.stop) :
    AreBelow t gutter s.content r (s.row t gutter) (caretRow t gutter s.content r) := by
  have hspan (k : Nat) : (∃ i, r.start ≤ i ∧ i < r.stop ∧ t.IsCellOf s.content i k) ↔
      t.cellAt s.content r.start ≤ k ∧ k < t.cellAt s.content r.stop :=
    t.exists_isCellOf_iff hlt.le k
  refine ⟨?_, ?_, fun k => ?_, fun p => ?_, ?_, t.columnAt_monotone _ hlt.le⟩
  · have hgutter : '\n' ∉ gutterText gutter s.number := notMem_gutterText (by decide) (by decide)
    have hexpand : '\n' ∉ t.expand s.content := notMem_expandFrom (by decide) hcontent 0
    simp [ShownLine.row, hgutter, hmarker.symm, hexpand]
  · have hgutter : '\n' ∉ gutterText gutter none := notMem_gutterText (by decide) (by decide)
    simp [caretRow, hgutter]
  · have hprefix : (gutterText gutter s.number ++ [' ', '|', s.marker]).length = gutter + 3 := by
      rw [List.length_append, length_gutterText hnumber]
      rfl
    have hrow : s.row t gutter =
        (gutterText gutter s.number ++ [' ', '|', s.marker]) ++ t.expand s.content := by
      simp [ShownLine.row]
    rw [hrow, List.getElem?_append_right (by omega), hprefix, Nat.add_sub_cancel_left]
  · rw [getElem?_caretRow_iff hstart hlt]
    constructor
    · rintro ⟨hle, hp⟩
      obtain ⟨i, hi, hi', hcell⟩ := (hspan (p - (gutter + 3))).mpr ⟨by omega, by omega⟩
      exact ⟨i, p - (gutter + 3), hi, hi', hcell, by omega⟩
    · rintro ⟨i, k, hi, hi', hcell, rfl⟩
      have := (hspan k).mp ⟨i, hi, hi', hcell⟩
      omega
  · have hcells := t.cellAt_strictMono s.content hlt
    exact List.mem_of_getElem? ((getElem?_caretRow_iff hstart hlt gutter
      (gutter + 3 + t.cellAt s.content r.start)).mpr ⟨le_rfl, by omega⟩)

theorem marker_of_mem_shown {e : Entry} {s : ShownLine} (hs : s ∈ e.shown) : s.marker ≠ '\n' := by
  rw [Entry.shown] at hs
  split at hs
  · obtain ⟨i, hi, rfl⟩ := List.mem_mapIdx.mp hs
    rw [ShownLine.ofDiff]
    cases (Diff.Snippet.lines _)[i].sign with
    | none => simp
    | some sign => cases sign <;> simp [Diff.Sign.char]
  · obtain rfl := List.mem_singleton.mp hs
    simp
  · exact absurd hs List.not_mem_nil

theorem caretRange_eq_caretFor {e : Entry} {t : TabStops}
    (h : ∀ r ∈ e.caret, ∀ line ∈ e.sourceLine, caretFor t e.diagnostic line = some r)
    (content : List Char) : e.caretRange t content = caretFor t e.diagnostic content := by
  rw [Entry.caretRange]
  split
  next r line hr hline =>
    split
    next heq => rw [← heq, h r hr line hline]
    next => rfl
  · rfl

theorem exists_caretFor_eq_some {d : Diagnostic} (t : TabStops) (line : List Char)
    (hcolumn : 0 < d.column)
    (hstop : ¬ (d.location.endLine = some d.line ∧ d.location.endColumn = some 0)) :
    ∃ r, caretFor t d line = some r ∧ r.start ≤ line.length ∧ r.start < r.stop := by
  have hne : (if d.location.endLine = some d.line then d.location.endColumn else none) ≠ some 0 := by
    split
    next hline => exact fun h => hstop ⟨hline, h⟩
    next => simp
  obtain ⟨r, hr⟩ := t.exists_range_eq_ok line hcolumn.ne' hne
  exact ⟨r, by rw [caretFor, hr]; rfl, TabStops.start_le_length_of_range hr,
    TabStops.start_lt_stop_of_range hr⟩

/-- **Carets line up.** Without colours, an entry shows the rows of its lines between its message
and its commits. All of them have their first bar at the character `gutter + 1`. Where the
diagnostic's column is not zero and neither is an end column on its line, and the entry's caret is
the one of its source line, each line that is pointed at is followed by a row of carets, which stand
in the cells that the characters of the diagnostic's range fill in the line's row. -/
theorem carets_line_up {e : Entry} {t : TabStops} (hcolumn : 0 < e.diagnostic.column)
    (hstop : ¬ (e.diagnostic.location.endLine = some e.diagnostic.line ∧
      e.diagnostic.location.endColumn = some 0))
    (hcaret : ∀ r ∈ e.caret, ∀ line ∈ e.sourceLine, caretFor t e.diagnostic line = some r) :
    e.prettyText t false = e.heading false ++ e.messageLines ++ e.arrowLine ++
      Text.unlines (e.shown.flatMap (e.rowsOf t)) ++ e.commitLines ∧
    (∀ s ∈ e.shown, ∀ row ∈ e.rowsOf t s, HasBar e.gutter row) ∧
    ∀ s ∈ e.shown, s.isPointed = true → '\n' ∉ s.content →
      ∃ r row carets, caretFor t e.diagnostic s.content = some r ∧ e.rowsOf t s = [row, carets] ∧
        AreBelow t e.gutter s.content r row carets := by
  refine ⟨e.prettyText_false t, fun s hs row hrow => Entry.hasBar_of_mem_rowsOf hs hrow,
    fun s hs hpointed hcontent => ?_⟩
  obtain ⟨r, hr, hstart, hlt⟩ := exists_caretFor_eq_some t s.content hcolumn hstop
  have hrows : e.rowsOf t s = [s.row t e.gutter, caretRow t e.gutter s.content r] := by
    rw [Entry.rowsOf, if_pos hpointed, caretRange_eq_caretFor hcaret, hr]
    rfl
  exact ⟨r, _, _, hr, hrows, areBelow_caretRow (Entry.length_decimal_le_gutter hs)
    (marker_of_mem_shown hs) hcontent hstart hlt⟩

/-- An entry for a tab and the character behind it, in a line whose number is the first with two
digits and which the file no longer has as the diff has it. -/
def shiftedEntry : Entry where
  rank := 0
  diagnostic :=
    { tool := .tsc
      message := ""
      severity := .error
      location := ⟨⟨"/a"⟩, 10, 2, some 10, some 12⟩ }
  sourceLine := some "b\tx".toList
  caret := some ⟨1, 3⟩
  view := some ⟨.base, "@@ -9 +9,2 @@".toList,
    [.read 9 " a".toList, .read 10 "-b".toList, .read 10 "+c\tx".toList], some 2⟩

theorem shiftedEntry_carets_line_up :
    0 < shiftedEntry.diagnostic.column ∧
    ¬ (shiftedEntry.diagnostic.location.endLine = some shiftedEntry.diagnostic.line ∧
      shiftedEntry.diagnostic.location.endColumn = some 0) ∧
    (∀ r ∈ shiftedEntry.caret, ∀ line ∈ shiftedEntry.sourceLine,
      caretFor .standard shiftedEntry.diagnostic line = some r) ∧
    ⟨some 10, '+', "c\tx".toList, true⟩ ∈ shiftedEntry.shown ∧
    AreBelow .standard 2 "c\tx".toList ⟨1, 3⟩
      "10 |+c       x".toList
      "   |  ^^^^^^^^".toList := by
  have hcolumn : 0 < shiftedEntry.diagnostic.column := by decide
  have hstop : ¬ (shiftedEntry.diagnostic.location.endLine = some shiftedEntry.diagnostic.line ∧
      shiftedEntry.diagnostic.location.endColumn = some 0) := by decide
  have hcaret : ∀ r ∈ shiftedEntry.caret, ∀ line ∈ shiftedEntry.sourceLine,
      caretFor .standard shiftedEntry.diagnostic line = some r := by
    rintro r hr line hline
    obtain rfl : (⟨1, 3⟩ : CharRange) = r := Option.some.inj hr
    obtain rfl : "b\tx".toList = line := Option.some.inj hline
    decide
  have hs : ⟨some 10, '+', "c\tx".toList, true⟩ ∈ shiftedEntry.shown :=
    .tail _ (.tail _ (.head _))
  obtain ⟨r, row, carets, hr, hrows, hbelow⟩ :=
    (carets_line_up hcolumn hstop hcaret).2.2 _ hs rfl (by decide)
  obtain rfl : (⟨1, 3⟩ : CharRange) = r := Option.some.inj hr
  obtain ⟨rfl, hcarets⟩ := List.cons.inj hrows
  obtain rfl := List.head_eq_of_cons_eq hcarets
  exact ⟨hcolumn, hstop, hcaret, hs, hbelow⟩

end RootCause.Report
