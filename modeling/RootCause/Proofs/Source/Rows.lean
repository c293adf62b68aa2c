import RootCause.Proofs.Text.Splitting
import RootCause.Source.Rows
import Mathlib.Data.List.TakeWhile

/-!
# Lines of a source file

What a row of a source file is, said of the text as a whole (`LineIn`): the line's text without the
carriage returns at its end, as many newlines before it as its number says, and its end after it.
Every row is such a line, and starts after the octets of what stands before it
(`exists_lineIn_of_row?`). Where lines are cut in the other way, with one carriage return as part of
a line's end and without an empty line at the end of the text, they have the same text once their
carriage returns are dropped (`exists_row?_of_getElem?_lines`).
-/

namespace RootCause.Source

/-! ## Carriage returns at the end -/

/-- The number of carriage returns at the end of a piece. -/
def returnsOf (piece : List Char) : Nat := (piece.reverse.takeWhile (· = '\r')).length

theorem rowText_append_returns (piece : List Char) :
    rowText piece ++ List.replicate (returnsOf piece) '\r' = piece := by
  have hreturns : piece.reverse.takeWhile (· = '\r') = List.replicate (returnsOf piece) '\r' :=
    List.eq_replicate_iff.mpr ⟨rfl, fun c hc => by simpa using List.mem_takeWhile_imp hc⟩
  calc rowText piece ++ List.replicate (returnsOf piece) '\r'
      = rowText piece ++ (piece.reverse.takeWhile (· = '\r')).reverse := by
        rw [hreturns, List.reverse_replicate]
    _ = (piece.reverse.takeWhile (· = '\r') ++ piece.reverse.dropWhile (· = '\r')).reverse :=
        List.reverse_append.symm
    _ = piece := by rw [List.takeWhile_append_dropWhile, List.reverse_reverse]

theorem mem_of_mem_rowText {c : Char} {piece : List Char} (h : c ∈ rowText piece) : c ∈ piece := by
  rw [← rowText_append_returns piece]
  exact List.mem_append_left _ h

theorem getLast?_rowText (piece : List Char) : (rowText piece).getLast? ≠ some '\r' := by
  rw [rowText, Text.dropEndWhile, List.getLast?_reverse]
  have h := List.head?_dropWhile_not (· = '\r') piece.reverse
  intro heq
  rw [heq] at h
  simp at h

theorem rowText_concat_return (l : List Char) : rowText (l ++ ['\r']) = rowText l := by
  simp [rowText, Text.dropEndWhile]

theorem rowText_dropReturn (l : List Char) : rowText (Text.dropReturn l) = rowText l := by
  by_cases h : l.getLast? = some '\r'
  · obtain ⟨l, rfl⟩ := List.getLast?_eq_some_iff.mp h
    rw [rowText_concat_return, Text.dropReturn, if_pos h, List.dropLast_concat]
  · rw [Text.dropReturn_of_getLast?_ne h]

/-! ## Lines in their text -/

/-- A line of a text, with what stands around it. -/
structure LineIn (source : List Char) (number : Nat) where
  before : List Char
  text : List Char
  /-- The number of carriage returns after the text. -/
  returns : Nat
  after : List Char
  split : source = before ++ (text ++ List.replicate returns '\r') ++ after
  number_eq : before.count '\n' + 1 = number
  starts : before = [] ∨ before.getLast? = some '\n'
  newline_notMem : '\n' ∉ text
  getLast?_ne : text.getLast? ≠ some '\r'
  ends : after = [] ∨ after.head? = some '\n'

namespace LineIn

/-- The first line of a text. -/
def first {source piece after : List Char} (hsource : source = piece ++ after)
    (hpiece : '\n' ∉ piece) (hafter : after = [] ∨ after.head? = some '\n') : LineIn source 1 where
  before := []
  text := rowText piece
  returns := returnsOf piece
  after := after
  split := by rw [rowText_append_returns, List.nil_append, hsource]
  number_eq := rfl
  starts := .inl rfl
  newline_notMem := fun h => hpiece (mem_of_mem_rowText h)
  getLast?_ne := getLast?_rowText piece
  ends := hafter

/-- A line of a text with another line in front of it. -/
def below {source piece : List Char} {number : Nat} (hpiece : '\n' ∉ piece)
    (l : LineIn source number) : LineIn (piece ++ '\n' :: source) (number + 1) where
  before := piece ++ '\n' :: l.before
  text := l.text
  returns := l.returns
  after := l.after
  split := by
    nth_rewrite 1 [l.split]
    simp
  number_eq := by
    rw [List.count_append, List.count_eq_zero_of_not_mem hpiece, List.count_cons_self, l.number_eq,
      Nat.zero_add]
  starts := by
    rcases l.starts with h | h
    · simp [h]
    · simp [List.getLast?_append, List.getLast?_cons, h]
  newline_notMem := l.newline_notMem
  getLast?_ne := l.getLast?_ne
  ends := l.ends

end LineIn

/-- The rows of a text are its lines, each where it starts. -/
theorem exists_lineIn_of_getElem?_rowsFrom {source : List Char} {start i : Nat} {row : Row}
    (h : (rowsFrom start (source.splitOn '\n'))[i]? = some row) :
    ∃ l : LineIn source (i + 1), row = ⟨start + Text.byteLength l.before, l.text⟩ := by
  induction source using Text.piece_induction '\n' generalizing start i with
  | last piece hpiece =>
    rw [List.splitOn_eq_singleton hpiece] at h
    cases i with
    | zero =>
      obtain rfl : _ = row := by simpa [rowsFrom] using h
      exact ⟨.first (List.append_nil piece).symm hpiece (.inl rfl), rfl⟩
    | succ i => simp [rowsFrom] at h
  | more piece source hpiece ih =>
    rw [Text.splitOn_append_cons hpiece] at h
    cases i with
    | zero =>
      obtain rfl : _ = row := by simpa [rowsFrom] using h
      exact ⟨.first rfl hpiece (.inr rfl), rfl⟩
    | succ i =>
      obtain ⟨l, rfl⟩ := ih h
      refine ⟨l.below hpiece, ?_⟩
      have hbefore : Text.byteLength (l.below hpiece).before =
          Text.byteLength piece + 1 + Text.byteLength l.before := by
        rw [LineIn.below, Text.byteLength_append, Text.byteLength_cons, ← Nat.add_assoc]
        rfl
      rw [hbefore, ← Nat.add_assoc, ← Nat.add_assoc]
      rfl

theorem exists_lineIn_of_row? {source : List Char} {number : Nat} {row : Row}
    (h : row? source number = some row) :
    ∃ l : LineIn source number, row = ⟨Text.byteLength l.before, l.text⟩ := by
  cases number with
  | zero => simp [row?] at h
  | succ i =>
    have hrow : (rowsFrom 0 (source.splitOn '\n'))[i]? = some row := by simpa [row?, rows] using h
    obtain ⟨l, rfl⟩ := exists_lineIn_of_getElem?_rowsFrom hrow
    exact ⟨l, by rw [Nat.zero_add]⟩

/-- At the offset of a character of a line the rest of the line begins. -/
theorem LineIn.dropBytes_eq {source : List Char} {number : Nat} (l : LineIn source number)
    (index : Nat) : Text.dropBytes (Text.byteLength l.before + byteOffset l.text index) source =
      l.text.drop index ++ (List.replicate l.returns '\r' ++ l.after) := by
  have hsplit : source = (l.before ++ l.text.take index) ++
      (l.text.drop index ++ (List.replicate l.returns '\r' ++ l.after)) := by
    nth_rewrite 1 [l.split]
    nth_rewrite 1 [← List.take_append_drop index l.text]
    simp only [List.append_assoc]
  have hlength : Text.byteLength l.before + byteOffset l.text index =
      Text.byteLength (l.before ++ l.text.take index) := (Text.byteLength_append _ _).symm
  rw [hlength]
  exact (congrArg _ hsplit).trans (Text.dropBytes_byteLength_append _ _)

/-! ## Lines that keep a carriage return -/

theorem getElem?_rowsFrom_text (start i : Nat) (pieces : List (List Char)) :
    ((rowsFrom start pieces)[i]?).map Row.text = pieces[i]?.map rowText := by
  induction pieces generalizing start i with
  | nil => simp [rowsFrom]
  | cons piece pieces ih =>
    cases i with
    | zero => rfl
    | succ i => simpa [rowsFrom] using ih _ i

/-- A line that is ended by a newline with or without a carriage return is the piece between
newlines with its number, but for the carriage returns at the end. -/
theorem exists_piece_of_getElem?_lines {source line : List Char} {i : Nat}
    (h : (Text.lines source)[i]? = some line) :
    ∃ piece, (source.splitOn '\n')[i]? = some piece ∧ rowText line = rowText piece := by
  induction source using Text.piece_induction '\n' generalizing i with
  | last piece hpiece =>
    rw [Text.lines_of_notMem hpiece] at h
    rw [List.splitOn_eq_singleton hpiece]
    split_ifs at h with hnil
    · simp at h
    · cases i with
      | zero => exact ⟨piece, rfl, by simpa using congrArg (Option.map rowText) h.symm⟩
      | succ i => simp at h
  | more piece source hpiece ih =>
    rw [Text.lines_append_newline hpiece] at h
    rw [Text.splitOn_append_cons hpiece]
    cases i with
    | zero =>
      obtain rfl : Text.dropReturn piece = line := by simpa using h
      exact ⟨piece, rfl, rowText_dropReturn piece⟩
    | succ i => exact ih h

theorem exists_row?_of_getElem?_lines {source line : List Char} {i : Nat}
    (h : (Text.lines source)[i]? = some line) :
    ∃ row, row? source (i + 1) = some row ∧ row.text = rowText line := by
  obtain ⟨piece, hpiece, htext⟩ := exists_piece_of_getElem?_lines h
  have hrow : ((rows source)[i]?).map Row.text = some (rowText line) := by
    rw [rows, getElem?_rowsFrom_text, hpiece, Option.map_some, htext]
  obtain ⟨row, hrow, htext⟩ := Option.map_eq_some_iff.mp hrow
  exact ⟨row, by simpa [row?] using hrow, htext⟩

end RootCause.Source
