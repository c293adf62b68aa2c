import RootCause.TabStops
import RootCause.Text.Blank

/-!
# Rows of a source file

A newline separates two rows of a source file, and the carriage returns before it, or before the end
of the file, are not part of the row's text. So a file has one row more than newlines, and the last
row may be empty. `offsetAt` takes a row and a visual column, both from 1, to an offset in octets.
-/

namespace RootCause.Source

/-- A row of a source file. -/
structure Row where
  /-- The offset of its first octet. -/
  start : Nat
  /-- Its text without its end. -/
  text : List Char
  deriving DecidableEq, Repr

/-- The text of a row without the carriage returns at its end. -/
def rowText (piece : List Char) : List Char := Text.dropEndWhile (· = '\r') piece

/-- The rows of the pieces between newlines, the first of which starts at `start`. -/
def rowsFrom (start : Nat) : List (List Char) → List Row
  | [] => []
  | piece :: pieces =>
    ⟨start, rowText piece⟩ :: rowsFrom (start + Text.byteLength piece + 1) pieces

/-- The rows of a source file. -/
def rows (source : List Char) : List Row := rowsFrom 0 (source.splitOn '\n')

/-- The row with this number, from 1. -/
def row? (source : List Char) (line : Nat) : Option Row :=
  if line = 0 then none else (rows source)[line - 1]?

/-- The offset of a visual column of a row. A column past the row's text is at the text's end, and
column 0 counts as the first one. -/
def Row.offsetAt (t : TabStops) (r : Row) (column : Nat) : Nat :=
  r.start + byteOffset r.text (t.indexAt r.text (column - 1))

/-- The offset of a line and a visual column, if the source file has the line. -/
def offsetAt (t : TabStops) (source : List Char) (line column : Nat) : Option Nat :=
  (row? source line).map fun r => r.offsetAt t column

@[simp] theorem length_rowsFrom (start : Nat) (pieces : List (List Char)) :
    (rowsFrom start pieces).length = pieces.length := by
  induction pieces generalizing start with
  | nil => rfl
  | cons p ps ih => simp [rowsFrom, ih]

@[simp] theorem offsetAt_zero (t : TabStops) (source : List Char) (column : Nat) :
    offsetAt t source 0 column = none := rfl

end RootCause.Source
