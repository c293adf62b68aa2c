import RootCause.Disk
import RootCause.Settings.Read

/-!
# Loading settings

Settings come from a file of the user and from one of the project, which lies on top of it. A file
that is not there is an empty layer; one that cannot be read or does not hold settings is an error.
-/

namespace RootCause.Settings

/-- Why settings cannot be loaded. -/
inductive LoadError
  | unreadable (path : Path) (reason : DiskError)
  | malformed (path : Path)
  deriving DecidableEq, Repr

/-- The text of an error of loading settings. -/
def LoadError.message : LoadError → String
  | .unreadable path reason => s!"failed to read {path.text}: {reason.message}"
  | .malformed path => s!"invalid config {path.text}"

/-- The user's file, in the directory for settings or in the usual place below the home
directory. -/
def userFile? (configHome home : Option Path) : Option Path :=
  (configHome.orElse fun _ => home.map (·.join ".config")).map fun directory =>
    (directory.join "cascade").join "config.toml"

/-- The file of the project in a directory. -/
def projectFile (root : Path) : Path := (root.join ".cascade").join "config.toml"

/-- The layer of a file. -/
def loadFile (disk : Disk) (path : Path) : Except LoadError Settings :=
  match disk.read path with
  | .ok text =>
    match ofToml? text with
    | some s => .ok s
    | none => .error (.malformed path)
  | .error .notFound => .ok {}
  | .error reason => .error (.unreadable path reason)

/-- The settings of the user's file, if there is a place for it, and of the project's file. -/
def load (disk : Disk) (userFile : Option Path) (root : Path) : Except LoadError Settings := do
  let layers ← (userFile.toList ++ [projectFile root]).mapM (loadFile disk)
  return ofLayers layers

end RootCause.Settings
