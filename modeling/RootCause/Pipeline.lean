import RootCause.Intake.Input
import RootCause.Order.Sort
import RootCause.Report.Build
import RootCause.Scope.Load
import RootCause.Scope.Model
import RootCause.Settings.Basic

/-!
# The pipeline

From diagnostics to a report: those without a position are dropped and the others get their files in
normal form; they are put in order, causes before effects where the source files can be read; and as
many as are to be shown become the entries of the report.
-/

namespace RootCause

/-- How diagnostics are ordered and shown. -/
structure Pipeline where
  root : Path
  tabs : TabStops
  /-- Whether causes are ranked before their effects. -/
  semantic : Bool
  limit : Option Nat
  lookups : Option Report.Lookups
  deriving DecidableEq

namespace Pipeline

/-- What is asked of git, if it is used and the directory is inside a work tree. -/
def lookupsFor (w : Git.Worktree) (s : Settings) : Option Report.Lookups :=
  if s.usesGit && w.isRepository then
    some ⟨s.base.orElse fun _ => w.followed?, s.blame, s.history⟩
  else none

/-- The pipeline that settings lead to. -/
def ofSettings (w : Git.Worktree) (s : Settings) : Except ColumnError Pipeline := do
  let tabs ← TabStops.ofWidth s.tabWidth
  return ⟨w.root, tabs, s.semantic, s.limit, lookupsFor w s⟩

variable (p : Pipeline)

/-- The diagnostics that have a position, with their files in normal form below the root. -/
def prepare (ds : List Diagnostic) : List Diagnostic :=
  (ds.filter Diagnostic.isValid).map (·.rooted p.root)

/-- The order that a model leads to, or the order by position if there is none or causes are not to
be ranked. -/
def orderWith {σ : Type} [DecidableEq σ] (model : Option (Order.SemanticModel σ))
    (ds : List Diagnostic) : List Diagnostic :=
  if p.semantic then Order.order model ds else Order.byPosition ds

/-- The source files that some diagnostics are in, each once, in the order of their paths. -/
def sourceFiles (disk : Disk) (ds : List Diagnostic) : List Path :=
  let files := (ds.map Diagnostic.file).filter fun f => Scope.isSupported f && disk.isFile f
  distinct (files.mergeSort Path.le)

/-- The model of the source files that some diagnostics are in, read by `parse`, if it is wanted and
there are any. -/
def modelFor? (parse : Source.Reader) (disk : Disk) (ds : List Diagnostic) :
    Option (Order.SemanticModel Scope.Symbol) :=
  match p.semantic, sourceFiles disk ds with
  | false, _ | _, [] => none
  | true, files => (Scope.Project.load parse disk p.tabs files).toOption.map Scope.Project.toModel

/-- The order of some diagnostics, by their source files on a disk. -/
def order (parse : Source.Reader) (disk : Disk) (ds : List Diagnostic) : List Diagnostic :=
  Order.order (p.modelFor? parse disk ds) ds

/-- The diagnostics that are shown. -/
def shown (ordered : List Diagnostic) : List Diagnostic :=
  match p.limit with
  | some n => ordered.take n
  | none => ordered

/-- The entries for the diagnostics that are shown. -/
def render (disk : Disk) (w : Git.Worktree) (ordered : List Diagnostic) : List Report.Entry :=
  Report.build ⟨disk, w, p.tabs, p.lookups⟩ (p.shown ordered)

/-- The report on some diagnostics. -/
def run (parse : Source.Reader) (disk : Disk) (w : Git.Worktree) (ds : List Diagnostic) :
    List Report.Entry :=
  p.render disk w (p.order parse disk (p.prepare ds))

end Pipeline

end RootCause
