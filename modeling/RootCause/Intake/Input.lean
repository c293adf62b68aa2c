import RootCause.Disk
import RootCause.Intake.Format

/-!
# Inputs

The output of a tool, with its format given or recognised, from a text or from a file.
-/

namespace RootCause.Intake

/-- Why the problems in a tool's output cannot be had. -/
inductive InputError
  /-- The file cannot be read. -/
  | unreadable (path : Path) (reason : DiskError)
  /-- The format is not given and cannot be recognised. -/
  | unknownFormat (path : Path)
  /-- The text is not in the format. -/
  | malformed (path : Path) (error : Format.ReadError)
  deriving DecidableEq

/-- The text of an input error. -/
def InputError.message : InputError → String
  | .unreadable path reason => s!"failed to read {path.text}: {reason.message}"
  | .unknownFormat path => s!"cannot detect the format of {path.text}, pass --format"
  | .malformed path error => s!"{path.text}: {error.message}"

/-- The problems in a tool's output, in the given format or else in the one that is recognised. -/
def readOutput (path : Path) (text : List Char) (format : Option Format) :
    Except InputError (List Diagnostic) :=
  match format.or (Format.detect? path text) with
  | none => .error (.unknownFormat path)
  | some format =>
    match format.read text with
    | .ok ds => .ok ds
    | .error e => .error (.malformed path e)

/-- The problems in a file that holds a tool's output. -/
def readInput (disk : Disk) (path : Path) (format : Option Format) :
    Except InputError (List Diagnostic) :=
  match disk.read path with
  | .ok text => readOutput path text format
  | .error reason => .error (.unreadable path reason)

end RootCause.Intake
