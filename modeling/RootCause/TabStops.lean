import RootCause.Text.Decimal
import RootCause.Text.Utf8

/-!
# Tab stops

A visual column counts cells on a screen, where a tab fills the cells up to the next multiple of
the tab width and every other character fills one. This module converts between visual columns and
indices of characters on a line, both from 0, and finds the characters that a reported column and
end column (from 1) address.

Every tab ends at a tab stop (`dvd_add_widthAt_tab`), and no character is without a cell
(`widthAt_pos`).

A line that is laid out has all its cells, and its columns are numbers of cells (`columnAt`). Where
a line is only searched, its columns are counted in machine words, and a count that runs past the
largest word starts again from zero (`counterAt`, `indexAt`). The two differ only on a line that has
more cells than there are words.
-/

namespace RootCause

/-- Tab stops at the multiples of a positive width. -/
structure TabStops where
  width : Nat
  width_pos : 0 < width := by decide
  deriving DecidableEq

/-- Why a position on a line cannot be used. -/
inductive ColumnError
  /-- Tab stops need a width of at least one cell. -/
  | tabWidth
  /-- Columns are counted from 1. -/
  | column (n : Nat)
  deriving DecidableEq

/-- The text of a column error. -/
def ColumnError.message : ColumnError → String
  | .tabWidth => "tab width must be at least 1"
  | .column n => s!"column {n} is not 1-based"

/-- A half-open range of character indices. -/
structure CharRange where
  start : Nat
  stop : Nat
  deriving DecidableEq, Repr

namespace TabStops

/-- The tab stops in force unless others are asked for. -/
def standard : TabStops := ⟨8, by decide⟩

instance : Inhabited TabStops := ⟨standard⟩

/-- Tab stops of a given width. -/
def ofWidth (n : Nat) : Except ColumnError TabStops :=
  if h : 0 < n then .ok ⟨n, h⟩ else .error .tabWidth

variable (t : TabStops)

/-- How many cells a character fills that starts in column `col`. -/
def widthAt (c : Char) (col : Nat) : Nat :=
  if c = '\t' then t.width - col % t.width else 1

theorem widthAt_pos (c : Char) (col : Nat) : 0 < t.widthAt c col := by
  unfold widthAt
  split
  · have := Nat.mod_lt col t.width_pos
    omega
  · decide

theorem dvd_add_widthAt_tab (col : Nat) : t.width ∣ col + t.widthAt '\t' col := by
  have h := Nat.mod_lt col t.width_pos
  refine ⟨col / t.width + 1, ?_⟩
  have := Nat.div_add_mod col t.width
  simp only [widthAt, if_true, Nat.mul_add, Nat.mul_one]
  omega

/-- The column after a line that starts in column `col`. -/
def columnAfter (col : Nat) : List Char → Nat
  | [] => col
  | c :: s => columnAfter (col + t.widthAt c col) s

/-- The column in which the character with this index starts; the column after the line if there
is no such character. -/
def columnAt (line : List Char) (index : Nat) : Nat := t.columnAfter 0 (line.take index)

/-- What a counter of columns stands at after a character, if it stands at `col` before it. -/
def advance (c : Char) (col : Nat) : Nat := Text.wrap (col + t.widthAt c col)

/-- What a counter of columns stands at after a line, if it stands at `col` before it. -/
def counterAfter (col : Nat) : List Char → Nat
  | [] => col
  | c :: s => counterAfter (t.advance c col) s

/-- What a counter of columns stands at where the character with this index starts; what it stands
at after the line if there is no such character. -/
def counterAt (line : List Char) (index : Nat) : Nat := t.counterAfter 0 (line.take index)

/-- The index of the first character at which a counter that starts at `col` stands at `column` or
more; the line's length if there is none. -/
def indexFrom (col column : Nat) : List Char → Nat
  | [] => 0
  | c :: s => if column ≤ col then 0 else indexFrom (t.advance c col) column s + 1

/-- The index of the first character of a line that starts at `column` or later; the line's length
if there is none. -/
def indexAt (line : List Char) (column : Nat) : Nat := t.indexFrom 0 column line

/-- A line that starts in column `col`, with spaces in place of its tabs. -/
def expandFrom (col : Nat) : List Char → List Char
  | [] => []
  | c :: s =>
    (if c = '\t' then List.replicate (t.widthAt c col) ' ' else [c]) ++
      expandFrom (col + t.widthAt c col) s

/-- A line with spaces in place of its tabs. -/
def expand (line : List Char) : List Char := t.expandFrom 0 line

/-- The characters between a column and an end column, both from 1, or the one character at the
column where no end after it is given. There is always at least one, if need be past the line's
end. -/
def range (line : List Char) (column : Nat) (endColumn : Option Nat) :
    Except ColumnError CharRange :=
  if column = 0 then .error (.column 0)
  else
    let start := t.indexAt line (column - 1)
    match endColumn with
    | some 0 => .error (.column 0)
    | some stop =>
      if column < stop then .ok ⟨start, max (t.indexAt line (stop - 1)) (start + 1)⟩
      else .ok ⟨start, start + 1⟩
    | none => .ok ⟨start, start + 1⟩

end TabStops

/-- The octet offset of the character with this index; the line's size if there is no such
character. -/
def byteOffset (line : List Char) (index : Nat) : Nat := Text.byteLength (line.take index)

end RootCause
