import Mathlib.Data.Prod.Lex
import RootCause.Proofs.Source.Rows
import RootCause.Proofs.TabStops.Columns

/-!
# Offsets of lines and columns

A text has one line of each number (`LineIn.subsingleton`), up to one more than it has newlines
(`row?_eq_none_iff`), and the row with a number is this line (`LineIn.row?_eq`). So the offset of a
line and a column is in the line, before its end (`LineIn.offsetAt_eq`), and a line ends before the
next one starts (`LineIn.upTo_prefix_before`). Every character that does not end a line is in one
(`exists_lineIn_of_char`), and at the offset of its own line and column if the line fits into a word
(`offsetAt_of_char`).
-/

namespace RootCause.Source

variable {source : List Char} {number : Nat}

/-! ## The lines of a text -/

theorem length_splitOn_newline (source : List Char) :
    (source.splitOn '\n').length = source.count '\n' + 1 := by
  induction source using Text.piece_induction '\n' with
  | last piece hpiece =>
    rw [List.splitOn_eq_singleton hpiece, List.count_eq_zero_of_not_mem hpiece]
    rfl
  | more piece source hpiece ih =>
    rw [Text.splitOn_append_cons hpiece, List.length_cons, ih, List.count_append,
      List.count_eq_zero_of_not_mem hpiece, List.count_cons_self, Nat.zero_add]

theorem row?_eq_none_iff :
    row? source number = none ↔ number = 0 ∨ source.count '\n' + 1 < number := by
  rw [row?]
  split_ifs with h
  · simp [h]
  · rw [List.getElem?_eq_none_iff, rows, length_rowsFrom, length_splitOn_newline]
    omega

theorem rowText_append_replicate {text : List Char} (h : text.getLast? ≠ some '\r') (n : Nat) :
    rowText (text ++ List.replicate n '\r') = text := by
  induction n with
  | zero =>
    rcases List.eq_nil_or_concat text with rfl | ⟨init, c, rfl⟩
    · rfl
    · have hc : c ≠ '\r' := by simpa using h
      simp [rowText, Text.dropEndWhile, hc]
  | succ n ih => rw [List.replicate_succ', ← List.append_assoc, rowText_concat_return, ih]

namespace LineIn

/-- The text up to the end of a line. -/
def upTo (l : LineIn source number) : List Char := l.before ++ l.text

theorem upTo_prefix (l : LineIn source number) : l.upTo <+: source := by
  nth_rewrite 2 [l.split]
  rw [upTo, ← List.append_assoc, List.append_assoc]
  exact List.prefix_append _ _

theorem before_prefix (l : LineIn source number) : l.before <+: source :=
  (List.prefix_append _ _).trans l.upTo_prefix

theorem count_upTo (l : LineIn source number) : l.upTo.count '\n' + 1 = number := by
  rw [upTo, List.count_append, List.count_eq_zero_of_not_mem l.newline_notMem, Nat.add_zero,
    l.number_eq]

/-- A start of the text with as many newlines as stand before a line reaches the line. -/
theorem before_prefix_of_count {s : List Char} (l : LineIn source number) (hs : s <+: source)
    (hcount : number ≤ s.count '\n' + 1) : l.before <+: s := by
  rcases List.prefix_or_prefix_of_prefix l.before_prefix hs with h | ⟨rest, hrest⟩
  · exact h
  · -- what is missing of the text before the line would end with a newline
    have hnone : '\n' ∉ rest := by
      have hnumber := l.number_eq
      rw [← hrest, List.count_append] at hnumber
      exact List.count_eq_zero.mp (by omega)
    rcases List.eq_nil_or_concat rest with rfl | ⟨init, c, rfl⟩
    · rw [← hrest, List.append_nil]
    · rcases l.starts with hstart | hstart
      · simp [← hrest] at hstart
      · obtain rfl : c = '\n' := by simpa [← hrest] using hstart
        simp at hnone

/-- The text of a line with the carriage returns after it. -/
def piece (l : LineIn source number) : List Char := l.text ++ List.replicate l.returns '\r'

theorem split_piece (l : LineIn source number) : source = l.before ++ (l.piece ++ l.after) := by
  rw [← List.append_assoc]
  exact l.split

theorem newline_notMem_piece (l : LineIn source number) : '\n' ∉ l.piece := by
  simp [piece, l.newline_notMem]

theorem rowText_piece (l : LineIn source number) : rowText l.piece = l.text :=
  rowText_append_replicate l.getLast?_ne l.returns

theorem takeWhile_piece (l : LineIn source number) :
    (l.piece ++ l.after).takeWhile (· ≠ '\n') = l.piece := by
  have hpiece : ∀ c ∈ l.piece, decide (c ≠ '\n') = true := fun c hc =>
    decide_eq_true fun h => l.newline_notMem_piece (h ▸ hc)
  rw [List.takeWhile_append_of_pos hpiece]
  rcases l.ends with h | h
  · simp [h]
  · obtain ⟨rest, h⟩ := List.head?_eq_some_iff.mp h
    simp [h]

/-- A text has one line of each number. -/
theorem subsingleton : Subsingleton (LineIn source number) where
  allEq l l' := by
    have hbefore : l.before = l'.before :=
      antisymm (r := (· <+: ·)) (l.before_prefix_of_count l'.before_prefix l'.number_eq.ge)
        (l'.before_prefix_of_count l.before_prefix l.number_eq.ge)
    have hrest : l.piece ++ l.after = l'.piece ++ l'.after := by
      have hsplit := l.split_piece.symm.trans l'.split_piece
      rw [hbefore] at hsplit
      exact List.append_cancel_left hsplit
    have hpiece : l.piece = l'.piece := by
      rw [← l.takeWhile_piece, hrest, l'.takeWhile_piece]
    have htext : l.text = l'.text := by
      rw [← l.rowText_piece, hpiece, l'.rowText_piece]
    have hreturns : l.returns = l'.returns := by
      simpa [piece, htext] using congrArg List.length hpiece
    have hafter : l.after = l'.after := by
      rw [hpiece] at hrest
      exact List.append_cancel_left hrest
    cases l
    cases l'
    simp_all only

/-- The row with a number is the line with this number. -/
theorem row?_eq (l : LineIn source number) :
    row? source number = some ⟨Text.byteLength l.before, l.text⟩ := by
  have hcount : l.before.count '\n' ≤ source.count '\n' := l.before_prefix.sublist.count_le _
  have hnumber := l.number_eq
  have hrow : row? source number ≠ none := by
    rw [Ne, row?_eq_none_iff]
    omega
  obtain ⟨row, hrow⟩ := Option.ne_none_iff_exists'.mp hrow
  obtain ⟨l', rfl⟩ := exists_lineIn_of_row? hrow
  rw [hrow, subsingleton.elim l l']

end LineIn

/-! ## Offsets in a line -/

variable (t : TabStops)

theorem offsetAt_eq_none_iff {column : Nat} :
    offsetAt t source number column = none ↔ number = 0 ∨ source.count '\n' + 1 < number := by
  rw [offsetAt, Option.map_eq_none_iff, row?_eq_none_iff]

namespace LineIn

theorem offsetAt_eq (l : LineIn source number) (column : Nat) :
    offsetAt t source number column = some
      (Text.byteLength (l.before ++ l.text.take (t.indexAt l.text (column - 1)))) := by
  rw [offsetAt, l.row?_eq, Option.map_some, Row.offsetAt, byteOffset, Text.byteLength_append]

theorem append_take_prefix (l : LineIn source number) (index : Nat) :
    l.before ++ l.text.take index <+: l.upTo :=
  (List.prefix_append_right_inj _).mpr (List.take_prefix _ _)

/-- A line ends before the next one starts. -/
theorem upTo_prefix_before {number' : Nat} (l : LineIn source number) (l' : LineIn source number')
    (h : number < number') : l.upTo <+: l'.before := by
  rcases List.prefix_or_prefix_of_prefix l.upTo_prefix l'.before_prefix with hle | hle
  · exact hle
  · have hcount : l'.before.count '\n' ≤ l.upTo.count '\n' := hle.sublist.count_le _
    have hnumber := l.count_upTo
    have hnumber' := l'.number_eq
    omega

end LineIn

theorem exists_lineIn_of_offsetAt {column offset : Nat}
    (h : offsetAt t source number column = some offset) :
    ∃ l : LineIn source number, offset =
      Text.byteLength (l.before ++ l.text.take (t.indexAt l.text (column - 1))) := by
  obtain ⟨row, hrow, -⟩ := Option.map_eq_some_iff.mp h
  obtain ⟨l, -⟩ := exists_lineIn_of_row? hrow
  exact ⟨l, Option.some.inj (h.symm.trans (l.offsetAt_eq t column))⟩

/-- An offset at which a character of the text begins, or at which the text ends. -/
def IsBoundary (source : List Char) (offset : Nat) : Prop :=
  ∃ before after, source = before ++ after ∧ offset = Text.byteLength before

theorem isBoundary_byteLength {before : List Char} (h : before <+: source) :
    IsBoundary source (Text.byteLength before) := by
  obtain ⟨after, rfl⟩ := h
  exact ⟨before, after, rfl, rfl⟩

/-- Further columns and later lines have no smaller offsets. -/
theorem offsetAt_mono {line column line' column' offset offset' : Nat}
    (hle : toLex (line, column) ≤ toLex (line', column'))
    (h : offsetAt t source line column = some offset)
    (h' : offsetAt t source line' column' = some offset') : offset ≤ offset' := by
  obtain ⟨l, rfl⟩ := exists_lineIn_of_offsetAt t h
  obtain ⟨l', rfl⟩ := exists_lineIn_of_offsetAt t h'
  refine Text.byteLength_le_of_prefix ?_
  rcases Prod.Lex.toLex_le_toLex.mp hle with hline | ⟨rfl, hcolumn⟩
  · calc l.before ++ l.text.take _ <+: l.upTo := l.append_take_prefix _
      _ <+: l'.before := l.upTo_prefix_before l' hline
      _ <+: l'.before ++ l'.text.take _ := List.prefix_append _ _
  · obtain rfl := LineIn.subsingleton.elim l l'
    refine (List.prefix_append_right_inj _).mpr (List.take_prefix_take_left ?_)
    exact t.indexAt_mono l.text (by omega)

/-! ## Characters and their lines -/

/-- At most carriage returns stand before the next newline, or before the end of the text. -/
def IsLineEnd (rest : List Char) : Prop := ∀ c ∈ rest.takeWhile (· ≠ '\n'), c = '\r'

instance (rest : List Char) : Decidable (IsLineEnd rest) :=
  List.decidableBAll (· = '\r') (rest.takeWhile (· ≠ '\n'))

theorem exists_lineStart (before : List Char) : ∃ start onLine, before = start ++ onLine ∧
    (start = [] ∨ start.getLast? = some '\n') ∧ '\n' ∉ onLine := by
  by_cases h : '\n' ∈ before.reverse
  · obtain ⟨onLine, start, heq, hnone⟩ := List.eq_append_cons_of_mem h
    refine ⟨(('\n' :: start).reverse), onLine.reverse, ?_, .inr (by simp), by simpa using hnone⟩
    rw [← List.reverse_append, ← heq, List.reverse_reverse]
  · exact ⟨[], before, rfl, .inl rfl, by simpa using h⟩

/-- The rest of a line, without its end. -/
def restOfLine (rest : List Char) : List Char := rowText (rest.takeWhile (· ≠ '\n'))

theorem restOfLine_ne_nil {rest : List Char} (h : ¬ IsLineEnd rest) : restOfLine rest ≠ [] := by
  refine fun hnil => h fun c hc => ?_
  rw [← rowText_append_returns (rest.takeWhile _), ← restOfLine, hnil, List.nil_append] at hc
  exact List.eq_of_mem_replicate hc

/-- What the rest of a text is made of: that of the line, the line's end, and what follows it. -/
theorem restOfLine_append (rest : List Char) : restOfLine rest ++
    List.replicate (returnsOf (rest.takeWhile (· ≠ '\n'))) '\r' ++ rest.dropWhile (· ≠ '\n') =
      rest := by
  rw [restOfLine, rowText_append_returns, List.takeWhile_append_dropWhile]

theorem getElem?_restOfLine {c : Char} {after : List Char} (h : ¬ IsLineEnd (c :: after)) :
    (restOfLine (c :: after))[0]? = some c := by
  obtain ⟨d, text, hd⟩ := List.exists_cons_of_ne_nil (restOfLine_ne_nil h)
  have hrest := restOfLine_append (c :: after)
  rw [hd, List.cons_append, List.cons_append] at hrest
  rw [hd, (List.cons.inj hrest).1]
  rfl

/-- The line in which a text is cut, before the line's end. -/
def LineIn.around {start onLine rest : List Char} (hsource : source = start ++ onLine ++ rest)
    (hstart : start = [] ∨ start.getLast? = some '\n') (honLine : '\n' ∉ onLine)
    (hend : ¬ IsLineEnd rest) : LineIn source ((start ++ onLine).count '\n' + 1) where
  before := start
  text := onLine ++ restOfLine rest
  returns := returnsOf (rest.takeWhile (· ≠ '\n'))
  after := rest.dropWhile (· ≠ '\n')
  split := by
    nth_rewrite 1 [hsource, ← restOfLine_append rest]
    simp only [List.append_assoc]
  number_eq := by
    rw [List.count_append, List.count_eq_zero_of_not_mem honLine, Nat.add_zero]
  starts := hstart
  newline_notMem := by
    rw [List.mem_append, not_or]
    refine ⟨honLine, fun h => ?_⟩
    simpa using List.mem_takeWhile_imp (mem_of_mem_rowText h)
  getLast?_ne := by
    rw [List.getLast?_append_of_ne_nil _ (restOfLine_ne_nil hend)]
    exact getLast?_rowText _
  ends := by
    have hhead := List.head?_dropWhile_not (· ≠ '\n') rest
    cases hrest : rest.dropWhile (· ≠ '\n') with
    | nil => exact .inl rfl
    | cons c rest =>
      rw [hrest] at hhead
      exact .inr (by simpa using hhead)

/-- A character that ends no line stands in one. -/
theorem exists_lineIn_of_char {before after : List Char} {c : Char}
    (hsource : source = before ++ c :: after) (hend : ¬ IsLineEnd (c :: after)) :
    ∃ l : LineIn source (before.count '\n' + 1), ∃ k, l.text[k]? = some c ∧
      before = l.before ++ l.text.take k := by
  obtain ⟨start, onLine, rfl, hstart, honLine⟩ := exists_lineStart before
  refine ⟨.around hsource hstart honLine hend, onLine.length, ?_, ?_⟩
  · rw [LineIn.around, List.getElem?_append_right le_rfl, Nat.sub_self, getElem?_restOfLine hend]
  · rw [LineIn.around, List.take_left]

/-! ## Offsets of characters -/

/-- An offset is at a boundary between characters, in its line and before the line's end. -/
theorem offset_of_offsetAt {line column offset : Nat}
    (h : offsetAt t source line column = some offset) :
    IsBoundary source offset ∧ ∃ l : LineIn source line,
      Text.byteLength l.before ≤ offset ∧ offset ≤ Text.byteLength l.upTo := by
  obtain ⟨l, rfl⟩ := exists_lineIn_of_offsetAt t h
  have htake := l.append_take_prefix (t.indexAt l.text (column - 1))
  exact ⟨isBoundary_byteLength (htake.trans l.upTo_prefix), l,
    Text.byteLength_le_of_prefix (List.prefix_append _ _), Text.byteLength_le_of_prefix htake⟩

theorem LineIn.offsetAt_counterAt (l : LineIn source number) (hfits : t.Fits l.text) {k : Nat}
    (hk : k ≤ l.text.length) :
    offsetAt t source number (t.counterAt l.text k + 1) =
      some (Text.byteLength (l.before ++ l.text.take k)) := by
  rw [l.offsetAt_eq, Nat.add_sub_cancel, TabStops.indexAt_counterAt hfits, Nat.min_eq_left hk]

/-- A character that ends no line is at the offset of its own line and column, if the line fits into
a word. -/
theorem offsetAt_of_char {before after : List Char} {c : Char}
    (hsource : source = before ++ c :: after) (hend : ¬ IsLineEnd (c :: after)) :
    ∃ l : LineIn source (before.count '\n' + 1), ∃ k, l.text[k]? = some c ∧
      before = l.before ++ l.text.take k ∧
      (t.Fits l.text → offsetAt t source (before.count '\n' + 1) (t.counterAt l.text k + 1) =
        some (Text.byteLength before)) := by
  obtain ⟨l, k, hk, hbefore⟩ := exists_lineIn_of_char hsource hend
  have hlt : k < l.text.length := (List.getElem?_eq_some_iff.mp hk).1
  refine ⟨l, k, hk, hbefore, fun hfits => ?_⟩
  rw [l.offsetAt_counterAt t hfits hlt.le, ← hbefore]

/-- **Offsets are exact.** A line and a column have an offset just if the text has the line. The
offset is then at a boundary between characters in the line, before its end. A character that ends
no line is at the offset of its own line and column, if the line fits into a word, and further
columns and later lines have no smaller offsets. -/
theorem offsetAt_exact (t : TabStops) (source : List Char) :
    (∀ line column, offsetAt t source line column = none ↔
      line = 0 ∨ source.count '\n' + 1 < line) ∧
    (∀ line column offset, offsetAt t source line column = some offset →
      IsBoundary source offset ∧ ∃ l : LineIn source line,
        Text.byteLength l.before ≤ offset ∧ offset ≤ Text.byteLength l.upTo) ∧
    (∀ before c after, source = before ++ c :: after → ¬ IsLineEnd (c :: after) →
      ∃ l : LineIn source (before.count '\n' + 1), ∃ k, l.text[k]? = some c ∧
        before = l.before ++ l.text.take k ∧
        (t.Fits l.text → offsetAt t source (before.count '\n' + 1) (t.counterAt l.text k + 1) =
          some (Text.byteLength before))) ∧
    ∀ line column line' column' offset offset',
      toLex (line, column) ≤ toLex (line', column') →
      offsetAt t source line column = some offset →
      offsetAt t source line' column' = some offset' → offset ≤ offset' :=
  ⟨fun _ _ => offsetAt_eq_none_iff t, fun _ _ _ => offset_of_offsetAt t,
    fun _ _ _ => offsetAt_of_char t, fun _ _ _ _ _ _ => offsetAt_mono t⟩

/-- Behind the second tab the counter starts again, so that the column of the last character, which
ends no line, has the offset of the first one. -/
theorem offsetAt_halfWord :
    "\t\tx".toList = "\t\t".toList ++ 'x' :: [] ∧ ¬ IsLineEnd ['x'] ∧
    offsetAt .halfWord "\t\tx".toList 1 (TabStops.halfWord.counterAt "\t\tx".toList 2 + 1) ≠
      some (Text.byteLength "\t\t".toList) := by
  decide +kernel

/-- In a file with a tab and with characters of two octets, whose first line ends with a carriage
return and whose last one has no newline. -/
theorem offsetAt_exact_tabbed :
    let source := "é;\r\n\tlet ü".toList
    let before := "é;\r\n\tlet ".toList
    (∃ l : LineIn source 2, ∃ k, l.text[k]? = some 'ü' ∧ before = l.before ++ l.text.take k ∧
      TabStops.standard.Fits l.text ∧
      offsetAt .standard source 2 (TabStops.standard.counterAt l.text k + 1) = some 10) ∧
    offsetAt .standard source 1 9 = some 3 ∧ offsetAt .standard source 2 13 = some 10 ∧ 3 ≤ 10 ∧
    ∃ l : LineIn source 2, Text.byteLength l.before ≤ 10 ∧ 10 ≤ Text.byteLength l.upTo := by
  intro source before
  obtain ⟨-, hin, hchar, hmono⟩ := offsetAt_exact .standard source
  have hpast : offsetAt .standard source 1 9 = some 3 := by decide +kernel
  have hoffset : offsetAt .standard source 2 13 = some 10 := by decide +kernel
  have hsource : source = before ++ ['ü'] := by decide +kernel
  have hend : ¬ IsLineEnd ['ü'] := by decide
  have hline : before.count '\n' + 1 = 2 := by decide +kernel
  have hlength : Text.byteLength before = 10 := by decide +kernel
  have hlast := hchar before 'ü' [] hsource hend
  rw [hline, hlength] at hlast
  obtain ⟨l, k, hk, hbefore, hexact⟩ := hlast
  have hfits : TabStops.standard.Fits l.text := by
    have hrow : some l.text = (row? source 2).map Row.text := by rw [l.row?_eq]; rfl
    have htext : l.text = "\tlet ü".toList := Option.some.inj (hrow.trans (by decide +kernel))
    rw [htext]
    decide +kernel
  exact ⟨⟨l, k, hk, hbefore, hfits, hexact hfits⟩, hpast, hoffset,
    hmono 1 9 2 13 3 10 (by decide) hpast hoffset, (hin 2 13 10 hoffset).2⟩

end RootCause.Source
