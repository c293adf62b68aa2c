import RootCause.Disk
import RootCause.Git.Blame
import RootCause.Git.History

/-!
# Work trees

What is asked of git about a work tree, and the arguments with which it is asked: whether there is
one, which branch its own one follows, how a file differs from that, and who changed a line. A
question about differences that git cannot answer has the empty text for its answer.
-/

namespace RootCause.Git

/-- What came of running git. -/
inductive Outcome
  | exited (code : Nat) (stdout stderr : List Char)
  | notStarted (reason : String)
  deriving DecidableEq, Repr

/-- What comes of running git with some arguments. -/
abbrev Client := List String → Outcome

/-- Why git gives no answer. -/
inductive Error
  | notStarted (reason : String)
  | failed (command : String) (stderr : List Char)
  deriving DecidableEq, Repr

/-- The text of an error of git. -/
def Error.message : Error → String
  | .notStarted reason => s!"failed to run git: {reason}"
  | .failed command stderr => s!"git {command} failed: {String.ofList stderr}"

/-- A directory in which git is run. -/
structure Worktree where
  root : Path
  client : Client

namespace Worktree

/-- The directory `root` of a disk. Git can only be started in a directory that is there. -/
def on (disk : Disk) (client : Client) (root : Path) : Worktree where
  root := root
  client arguments :=
    if arguments.any fun a => a.toList.contains '\x00' then
      .notStarted "nul byte found in provided data"
    else
      match disk.enter root with
      | .ok () => client arguments
      | .error reason => .notStarted reason.message

variable (w : Worktree)

/-- What a command of git writes. -/
def output (command : String) (arguments : List String) : Except Error (List Char) :=
  match w.client (command :: arguments) with
  | .exited 0 stdout _ => .ok stdout
  | .exited (_ + 1) _ stderr => .error (.failed command (Text.trim stderr))
  | .notStarted reason => .error (.notStarted reason)

/-- What a command of git writes, or the empty text if it fails. -/
def outputOrEmpty (command : String) (arguments : List String) : List Char :=
  match w.output command arguments with
  | .ok text => text
  | .error _ => []

/-- Whether the directory is inside a work tree. -/
def isRepository : Bool :=
  Text.trim (w.outputOrEmpty "rev-parse" ["--is-inside-work-tree"]) = "true".toList

/-- The branch that the current one follows. -/
def followed? : Option String :=
  let name := Text.trim (w.outputOrEmpty "rev-parse"
    ["--abbrev-ref", "--symbolic-full-name", "@\x7bupstream\x7d"])
  if name.isEmpty then none else some (String.ofList name)

/-- How git is told of a file: by its path below the root, if it lies there. -/
def fileName (file : Path) : String := (Path.relativeTo w.root file).text

/-- How a file differs, in the way that the first arguments ask for. -/
def diff (file : Path) (range : List String) : List Char :=
  w.outputOrEmpty "diff" (range ++ ["--no-color", "-U3", "--", w.fileName file])

/-- How a file differs from a base, if one is given. -/
def baseDiff (file : Path) : Option String → List Char
  | some base => w.diff file [base ++ "..."]
  | none => []

/-- How a file differs from a base, how from the index, and how the index differs from the last
commit. -/
def diffs (file : Path) (base : Option String) : List (List Char) :=
  [w.baseDiff file base, w.diff file [], w.diff file ["--cached"]]

/-- How git is told of a single line. -/
def lineRange (line : Nat) : String := s!"{line},{line}"

/-- The commit that last touched a line of a file. -/
def blame (file : Path) (line : Nat) : Except Error (Option Blame) :=
  (w.output "blame" ["--porcelain", "-L", lineRange line, "--", w.fileName file]).map Blame.read?

/-- At most `limit` commits that changed a line of a file, the newest first. -/
def history (file : Path) (line limit : Nat) : Except Error (List Commit) :=
  if limit = 0 then .ok []
  else
    (w.output "log"
      ["-L", s!"{lineRange line}:{w.fileName file}", "--no-patch", s!"-{limit}",
        s!"--format={Commit.format}"]).map readHistory

end Worktree

end RootCause.Git
