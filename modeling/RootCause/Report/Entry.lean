import RootCause.Diagnostic.Basic
import RootCause.Diff.Snippet
import RootCause.Git.Blame
import RootCause.Git.History
import RootCause.TabStops

/-!
# Report entries

A diagnostic with what is known about its place: the text of its line, the characters that it points
at, a snippet of a diff and where that comes from, and the commits that touched the line.
-/

namespace RootCause.Report

/-- What a snippet's diff compares the file with, in the order in which snippets are looked for. -/
inductive Origin
  /-- The base that the branch is compared with. -/
  | base
  /-- The index. -/
  | workspace
  /-- The last commit, leaving out what is not in the index. -/
  | staged
  deriving DecidableEq, Repr

/-- The name of an origin. -/
def Origin.name : Origin → String
  | .base => "upstream"
  | .workspace => "workspace"
  | .staged => "staged"

/-- All origins, in the order of the diffs of a file. -/
def Origin.all : List Origin := [.base, .workspace, .staged]

/-- A snippet and where it comes from. -/
structure View where
  origin : Origin
  snippet : Diff.Snippet
  deriving DecidableEq, Repr

/-- An entry of a report. -/
structure Entry where
  /-- The place of the entry in the report, from 0. -/
  rank : Nat
  diagnostic : Diagnostic
  /-- The text of the diagnostic's line. -/
  sourceLine : Option (List Char) := none
  /-- The characters of that line that the diagnostic is about. -/
  caret : Option CharRange := none
  view : Option View := none
  blame : Option Git.Blame := none
  history : List Git.Commit := []
  deriving DecidableEq, Repr

/-- The first snippet for a line among the diffs of a file, in the order of their origins. -/
def viewFor (diffs : List (List Char)) (line : Nat) : Option View :=
  match Diff.pick diffs line with
  | .ok (some p) => (Origin.all[p.index]?).map fun origin => ⟨origin, p.snippet⟩
  | _ => none

/-- The characters of a line that a diagnostic is about. An end column counts only on the line on
which the diagnostic starts. -/
def caretFor (t : TabStops) (d : Diagnostic) (line : List Char) : Option CharRange :=
  let stop := if d.location.endLine = some d.line then d.location.endColumn else none
  (t.range line d.column stop).toOption

end RootCause.Report
