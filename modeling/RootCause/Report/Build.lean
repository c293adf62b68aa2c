import RootCause.Git.Worktree
import RootCause.Report.Entry

/-!
# Building a report

Finds for each diagnostic what can be known about its place. Source lines come from a disk, snippets
and commits from git if that is to be asked. Paths that are the same stand for one file, which is
read and compared once under the name that comes first.
-/

namespace RootCause.Report

/-- What is asked of git for each entry. -/
structure Lookups where
  /-- What to compare files with. -/
  base : Option String := none
  blame : Bool := false
  /-- How many commits that changed the line. -/
  history : Nat := 0
  deriving DecidableEq, Repr

/-- What entries are built from. -/
structure Context where
  disk : Disk
  worktree : Git.Worktree
  tabs : TabStops
  /-- What to ask git, if it is to be asked. -/
  lookups : Option Lookups

/-- The first of some paths that is the same as another path. -/
def representative (files : List Path) (file : Path) : Path :=
  (files.find? file.same).getD file

/-- The text of a line, from 1, without the carriage returns at its end. -/
def sourceLine? (text : List Char) (line : Nat) : Option (List Char) :=
  ((Text.lines text)[line - 1]?).map (Text.dropEndWhile (· = '\r'))

/-- The value of an answer of git that may fail. -/
def orElse {α : Type} (fallback : α) : Except Git.Error α → α
  | .ok v => v
  | .error _ => fallback

namespace Context

variable (c : Context)

/-- The text of a diagnostic's line in its file. -/
def lineOf (file : Path) (line : Nat) : Option (List Char) :=
  (c.disk.read? (c.worktree.root.join file.text)).bind fun text => sourceLine? text line

/-- The snippet for a line of a file. -/
def viewOf (file : Path) (line : Nat) : Option View :=
  c.lookups.bind fun l => viewFor (c.worktree.diffs file l.base) line

/-- The commit that last touched a line of a file, if that is asked for. -/
def blameOf (file : Path) (line : Nat) : Option Git.Blame :=
  match c.lookups with
  | some l => if l.blame then orElse none (c.worktree.blame file line) else none
  | none => none

/-- The commits that changed a line of a file, as many as are asked for. -/
def historyOf (file : Path) (line : Nat) : List Git.Commit :=
  match c.lookups with
  | some l => orElse [] (c.worktree.history file line l.history)
  | none => []

/-- The entry for a diagnostic, where `file` is the name under which its file is read and
compared. -/
def entry (file : Path) (rank : Nat) (d : Diagnostic) : Entry :=
  let line := c.lineOf file d.line
  { rank := rank
    diagnostic := d
    sourceLine := line
    caret := line.bind (caretFor c.tabs d)
    view := c.viewOf file d.line
    blame := c.blameOf d.file d.line
    history := c.historyOf d.file d.line }

end Context

/-- The entries for some diagnostics, in their order. -/
def build (c : Context) (ds : List Diagnostic) : List Entry :=
  let files := ds.map Diagnostic.file
  ds.mapIdx fun rank d => c.entry (representative files d.file) rank d

end RootCause.Report
