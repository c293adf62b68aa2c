import RootCause.Command.Run

/-!
# What a run reads

The paths at which a run looks for files, as far as they can be told from the files that are already
known: settings, inputs, the files that diagnostics are in, and the candidates for what the known
source files import. Looking at them all and asking again, until nothing new is asked for, gathers
every file that the run reads.
-/

namespace RootCause.Command

/-- The candidates for the imports of a source file. -/
def importCandidates (f : Scope.SourceFile) : List Path :=
  f.facts.specifiers.flatMap fun specifier => Scope.candidates specifier f.path

/-- The source files of a project, as far as they are known. -/
def knownSources (parse : Source.Reader) (disk : Disk) (tabs : TabStops) (files : List Path) :
    List Scope.SourceFile :=
  match Scope.Project.load parse disk tabs (files.filter disk.isFile) with
  | .ok project => project.files
  | .error _ => []

/-- The paths at which a run with these arguments looks for files. -/
def reads (s : Surroundings) (a : Arguments) : List Path :=
  let root := (s.disk.canonical (a.root.getD ⟨"."⟩)).toOption
  let settings := (Settings.userFile? s.configHome s.home).toList ++
    root.toList.map Settings.projectFile
  let first := settings ++ inputsOf a
  match plan s a, readInputs s.disk a.format s.input (inputsOf a) with
  | .ok p, .ok ds =>
    let files := (p.pipeline.prepare ds).map Diagnostic.file
    let sources := files.filter Scope.isSupported
    first ++ files ++ (knownSources s.parse s.disk p.pipeline.tabs sources).flatMap importCandidates
  | _, _ => first

end RootCause.Command
