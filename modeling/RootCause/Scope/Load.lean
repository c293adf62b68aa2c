import RootCause.Disk
import RootCause.Scope.Exports

/-!
# Loading a project

The project of some root files and of the files that they import, directly or through others. Files
wait in a queue, each new one at its end, and no file is put into it that has been in it before. A
root that cannot be read is an error; an imported file that cannot be read is left out.
-/

namespace RootCause.Scope

/-- The number of files at which loading stops. -/
def maxFiles : Nat := 5000

/-- Why a project cannot be loaded. -/
inductive LoadError
  | unreadable (path : Path) (reason : DiskError)
  deriving DecidableEq, Repr

/-- The text of a load error. -/
def LoadError.message : LoadError → String
  | .unreadable path reason => s!"failed to read {path.text}: {reason.message}"

/-- The file on a disk that a specifier means. -/
def resolveOnDisk? (disk : Disk) (specifier : String) (importer : Path) : Option Path :=
  resolve? disk.isFile specifier importer

/-- The files that a file imports, in normal form and as they are on a disk. -/
def importTargets (disk : Disk) (f : SourceFile) : List Path :=
  f.facts.specifiers.filterMap fun specifier =>
    (resolveOnDisk? disk specifier f.path).map Path.normalize

/-- The root files, read. -/
def loadRoots (parse : Source.Reader) (disk : Disk) (roots : List Path) :
    Except LoadError (List SourceFile) :=
  roots.mapM fun path =>
    match disk.read path with
    | .ok text => .ok (.ofText parse path text)
    | .error reason => .error (.unreadable path reason)

/-- The files that are reached from a queue, where `seen` have been in the queue, until the queue is
empty or there is no room for another file. -/
def loadImports (parse : Source.Reader) (disk : Disk) (room : Nat) (seen : List Path) :
    List Path → List SourceFile
  | [] => []
  | path :: queue =>
    if room = 0 then []
    else
      match disk.read? path with
      | none => loadImports parse disk room seen queue
      | some text =>
        let f := SourceFile.ofText parse path text
        let fresh := distinct ((importTargets disk f).filter fun t => !seen.contains t)
        f :: loadImports parse disk (room - 1) (seen ++ fresh) (queue ++ fresh)
termination_by queue => (room, queue.length)
decreasing_by
  · exact Prod.Lex.right _ (Nat.lt_succ_self _)
  · exact Prod.Lex.left _ _ (by omega)

/-- The files that are reached from some root files, these first. The queue starts with what the
roots import. -/
def loadFiles (parse : Source.Reader) (disk : Disk) (roots : List Path) :
    Except LoadError (List SourceFile) := do
  let files ← loadRoots parse disk (roots.take maxFiles)
  let fresh := distinct ((files.flatMap (importTargets disk)).filter fun t => !roots.contains t)
  return files ++ loadImports parse disk (maxFiles - files.length) (roots ++ fresh) fresh

/-- The project of some root files and all that they import. -/
def Project.load (parse : Source.Reader) (disk : Disk) (tabs : TabStops) (roots : List Path) :
    Except LoadError Project := do
  return ⟨← loadFiles parse disk (roots.map Path.normalize), tabs⟩

end RootCause.Scope
