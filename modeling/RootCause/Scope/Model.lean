import RootCause.Order.Model
import RootCause.Scope.Access

/-!
# Projects as semantic models

A project answers what ordering asks: the symbol at a position, the extents of its declarations, the
offset of a position, and the files that a file imports.
-/

namespace RootCause.Scope.Project

variable (p : Project)

/-- The offset of a line and a column in a file of the project. -/
def offsetAt (path : Path) (line column : Nat) : Option Nat :=
  (p.file? path).bind fun f => Source.offsetAt p.tabs f.source line column

/-- The end of a location that starts at the offset `start`: its end if it has one that the file
has, but not before its start. -/
def stopOf (f : PlacedFile) (l : Location) (start : Nat) : Nat :=
  match l.endLine, l.endColumn with
  | some line, some column => max start ((Source.offsetAt p.tabs f.source line column).getD start)
  | _, _ => start

/-- The symbol at a location. -/
def symbolOfLocation? (l : Location) : Option Symbol :=
  (p.file? l.file).bind fun f =>
    (Source.offsetAt p.tabs f.source l.line l.column).bind fun start =>
      p.symbolAt? f start (p.stopOf f l start)

/-- The extents of a symbol's declarations. -/
def spans : Symbol → List Order.Span
  | .binding place scope name =>
    match p.fileAt? place with
    | some f => (f.declarationsOf scope name).map fun d => ⟨f.path, d.start, d.stop⟩
    | none => []
  | .module place =>
    match p.fileAt? place with
    | some f => [⟨f.path, 0, Text.byteLength f.source⟩]
    | none => []

/-- The places of the files that a file imports, without its own and each once. -/
def importPlaces (f : PlacedFile) : List Nat :=
  (distinct (f.facts.specifiers.filterMap (p.link? f))).filter (· ≠ f.place)

/-- The files of the project that a file imports, without itself and each once. -/
def imports (path : Path) : List Path :=
  match p.file? path with
  | some f => ((p.importPlaces f).filterMap p.fileAt?).map (·.path)
  | none => []

/-- The project as a semantic model. -/
def toModel : Order.SemanticModel Symbol where
  symbolsAt l := (p.symbolOfLocation? l).toList
  spans := p.spans
  offsetAt := p.offsetAt
  imports := p.imports

end RootCause.Scope.Project
