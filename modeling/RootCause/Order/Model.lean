import RootCause.Diagnostic.Basic
import RootCause.Distinct

/-!
# Semantic models

What ordering needs to know about a program: which symbols a position refers to, where a symbol is
declared, where a position is in its file, and which files a file imports. Any frontend that answers
these four questions can drive the ordering. A `TableModel` answers them from tables.
-/

namespace RootCause.Order

/-- The extent of a declaration in a file, in octets. -/
structure Span where
  file : Path
  start : Nat
  stop : Nat
  deriving DecidableEq, Repr

/-- Whether a range lies inside the extent. -/
def Span.covers (s : Span) (start stop : Nat) : Bool := s.start ≤ start && stop ≤ s.stop

/-- A program's meaning, as far as ordering needs it. -/
structure SemanticModel (σ : Type) where
  /-- The symbols at a position, behind any imports. -/
  symbolsAt : Location → List σ
  /-- The extents of a symbol's declarations. -/
  spans : σ → List Span
  /-- The offset of a line and column in a file. -/
  offsetAt : Path → Nat → Nat → Option Nat
  /-- The files that a file imports. -/
  imports : Path → List Path

namespace SemanticModel

variable {σ : Type} (m : SemanticModel σ)

/-- The symbols that a diagnostic is about, each once. -/
def symbolsOf [DecidableEq σ] (d : Diagnostic) : List σ := distinct (m.symbolsAt d.location)

/-- The offsets between which a diagnostic stands. Without an end that the model knows it is a
point, and an end before its start counts as the start. -/
def rangeOf (d : Diagnostic) : Option (Nat × Nat) :=
  (m.offsetAt d.file d.line d.column).map fun start =>
    let stop := match d.location.endLine, d.location.endColumn with
      | some line, some column => (m.offsetAt d.file line column).getD start
      | _, _ => start
    (start, max start stop)

end SemanticModel

/-! ## Models given by tables -/

/-- A symbol at a position in a table. -/
structure TableBinding where
  file : Path
  line : Nat
  column : Nat
  symbol : String
  deriving DecidableEq

/-- A declaration in a table, from one line and column to another. -/
structure TableDeclaration where
  symbol : String
  file : Path
  start : Nat × Nat
  stop : Nat × Nat
  deriving DecidableEq

/-- A semantic model as tables. Its files are paths in normal form. -/
structure TableModel where
  bindings : List TableBinding := []
  declarations : List TableDeclaration := []
  /-- Importing and imported file. -/
  imports : List (Path × Path) := []
  /-- The files in which no position has an offset. -/
  unknown : List Path := []
  /-- The last line that has offsets. -/
  maxLine : Option Nat := none
  deriving DecidableEq

namespace TableModel

/-- A line counts a hundred, and columns are counted from 1. -/
def offset (line column : Nat) : Nat := line * 100 + column - 1

/-- The model that looks everything up in the tables. -/
def toModel (t : TableModel) : SemanticModel String where
  symbolsAt p :=
    let file := p.file.normalize
    (t.bindings.filter fun b => b.file = file ∧ b.line = p.line ∧ b.column = p.column).map
      (·.symbol)
  spans s := (t.declarations.filter fun d => d.symbol = s).map fun d =>
    ⟨d.file, offset d.start.1 d.start.2, offset d.stop.1 d.stop.2⟩
  offsetAt file line column :=
    if t.unknown.contains file.normalize ∨ t.maxLine.any (· < line) then none
    else some (offset line column)
  imports file := (t.imports.filter fun i => i.1 = file.normalize).map (·.2)

end TableModel

end RootCause.Order
