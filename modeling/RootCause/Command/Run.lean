import RootCause.Command.Arguments
import RootCause.Intake.Input
import RootCause.Json.Indented
import RootCause.Pipeline
import RootCause.Report.Json
import RootCause.Report.Schema
import RootCause.Settings.Load

/-!
# Running the command

From arguments and surroundings to what is written and the exit code: 0 for success, 1 for an error,
which is told with its causes, and 2 for arguments that cannot be understood.
-/

namespace RootCause.Command

/-- What a run has around it. -/
structure Surroundings where
  /-- What reads source files. -/
  parse : Source.Reader
  disk : Disk
  git : Git.Client
  terminal : Output.Terminal
  /-- The home directory. -/
  home : Option Path
  /-- The directory for settings, if there is a special one. -/
  configHome : Option Path
  /-- The text on the standard input, if it is UTF-8. -/
  input : Option (List Char)

/-- Why a run fails. -/
inductive Failure
  | root (path : Path) (reason : DiskError)
  | settings (error : Settings.LoadError)
  | tabWidth (error : ColumnError)
  | standardInput
  | input (error : Intake.InputError)
  deriving DecidableEq

/-- The text of a failure. Where a file cannot be read, the reason is told again as the cause. -/
def Failure.message : Failure → String
  | .root path reason => s!"invalid root {path.text}: {reason.message}"
  | .settings (.unreadable path reason) =>
    s!"{(Settings.LoadError.unreadable path reason).message}: {reason.message}"
  | .settings error => error.message
  | .tabWidth error => s!"invalid display.tab_width: {error.message}"
  | .standardInput => s!"failed to read stdin: {DiskError.notText.message}"
  | .input (.unreadable path reason) =>
    s!"{(Intake.InputError.unreadable path reason).message}: {reason.message}"
  | .input error => error.message

/-- What a run writes and its exit code. -/
structure Outcome where
  code : Nat
  output : List Char := []
  errors : List Char := []
  deriving DecidableEq

/-- The name and version of the command. -/
def versionText : String := "cascade 0.2.0\n"

/-- How the command is used. -/
def usageText : String := "Usage: cascade [OPTIONS] [INPUTS]...\n"

/-- The path that stands for the standard input. -/
def standardInput : Path := ⟨"-"⟩

/-- The name under which the standard input is read. -/
def standardInputName : Path := ⟨"stdin"⟩

/-- The diagnostics in some inputs, where `input` is left on the standard input. What is read from
it is gone for the inputs after it. -/
def readInputs (disk : Disk) (format : Option Intake.Format) (input : Option (List Char)) :
    List Path → Except Failure (List Diagnostic)
  | [] => .ok []
  | path :: paths =>
    if path.same standardInput then
      match input with
      | none => .error .standardInput
      | some text => do
        let ds ← (Intake.readOutput standardInputName text format).mapError .input
        return ds ++ (← readInputs disk format (some []) paths)
    else do
      let ds ← (Intake.readInput disk path format).mapError .input
      return ds ++ (← readInputs disk format input paths)

/-- The inputs to read: the standard input if none are given. -/
def inputsOf (a : Arguments) : List Path :=
  if a.inputs.isEmpty then [standardInput] else a.inputs

/-- What a report is made from: its root, the settings in force and how diagnostics are ordered and
shown. -/
structure Plan where
  worktree : Git.Worktree
  settings : Settings
  pipeline : Pipeline

/-- The plan of a run. The settings on the command line lie on top of those in files. -/
def plan (s : Surroundings) (a : Arguments) : Except Failure Plan := do
  let given := a.root.getD ⟨"."⟩
  let root ← (s.disk.canonical given).mapError (.root given)
  let userFile := Settings.userFile? s.configHome s.home
  let loaded ← (Settings.load s.disk userFile root).mapError .settings
  let settings := overlay loaded a.settings
  let worktree := Git.Worktree.on s.disk s.git root
  let pipeline ← (Pipeline.ofSettings worktree settings).mapError .tabWidth
  return ⟨worktree, settings, pipeline⟩

/-- The text of the report that the arguments ask for. -/
def report (s : Surroundings) (a : Arguments) : Except Failure (List Char) := do
  let p ← plan s a
  let ds ← readInputs s.disk a.format s.input (inputsOf a)
  let entries := p.pipeline.run s.parse s.disk p.worktree ds
  let format := Output.Format.resolve a.request p.settings.pretty s.terminal
  return (Report.document p.pipeline.tabs entries).print format

/-- What the command writes when the arguments can be understood. -/
def answer (s : Surroundings) (a : Arguments) : Outcome :=
  if a.has .outputSchema then { code := 0, output := Report.Schema.report.renderIndented ++ ['\n'] }
  else
    match report s a with
    | .ok text => { code := 0, output := text }
    | .error e => { code := 1, errors := s!"error: {e.message}\n".toList }

/-- Runs the command. -/
def run (s : Surroundings) (arguments : List String) : Outcome :=
  match Arguments.read arguments with
  | .ok a => answer s a
  | .error .usage => { code := 2, errors := usageText.toList }
  | .error .help => { code := 0, output := usageText.toList }
  | .error .version => { code := 0, output := versionText.toList }

end RootCause.Command
