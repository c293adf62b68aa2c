import RootCause.Command.Reads
import RootCause.Source.Parser

/-!
# The command

Gathers the files that a run reads, runs the command on them, and writes what it answers. Git is not
started from here, so that every question to it goes unanswered.
-/

namespace RootCause.Main

open Command (Arguments Surroundings)

/-- The place that a path names, with the current directory before it if it is relative. -/
def placeOf (current : Path) (path : Path) : Place :=
  ((current.join path.text).normalize.components).filterMap fun
    | .name n => some n
    | _ => none

/-- What stands at a path. -/
def entryAt? (path : Path) : IO (Option Entry) := do
  let file := (← IO.currentDir) / path.text
  if ← file.isDir then return some .directory
  try return some (.ofBytes (← IO.FS.readBinFile file).toList)
  catch _ => return none

/-- All octets of a stream, after those that have been read. -/
partial def octets (stream : IO.FS.Stream) (before : ByteArray) : IO ByteArray := do
  let chunk ← stream.read 65536
  if chunk.isEmpty then return before else octets stream (before ++ chunk)

/-- Looks at every path that the run reads until there is no new one. -/
partial def gather (a : Arguments) (s : Surroundings) (current : Path) (seen : List Path) :
    IO Surroundings := do
  let fresh := distinct ((Command.reads s a).filter fun path => !seen.contains path)
  if fresh.isEmpty then return s
  let mut entries := s.disk.entries
  for path in fresh do
    if let some entry ← entryAt? path then
      entries := (placeOf current path, entry) :: entries
  gather a { s with disk := { s.disk with entries := entries } } current (fresh ++ seen)

/-- What the command has around it, before any file is looked at but the root. -/
def surroundings (a : Arguments) (current : Path) : IO Surroundings := do
  let root := a.root.getD ⟨"."⟩
  let rootEntry ← entryAt? root
  let readsInput := (Command.inputsOf a).any (·.same Command.standardInput)
  let input ←
    if readsInput then pure (Text.decode? (← octets (← IO.getStdin) .empty).toList)
    else pure (some [])
  let place := placeOf current ⟨"."⟩
  return {
    parse := Source.parse
    disk :=
      { entries := (place, .directory) ::
          (rootEntry.map fun entry => (placeOf current root, entry)).toList
        current := place }
    git := fun _ => .notStarted DiskError.notFound.message
    terminal :=
      { isTerminal := ← (← IO.getStdout).isTty
        noColour := (← IO.getEnv "NO_COLOR").isSome }
    home := (← IO.getEnv "HOME").map Path.mk
    configHome := (← IO.getEnv "XDG_CONFIG_HOME").map Path.mk
    input := input }

/-- The answer to some arguments. -/
def outcomeOf (arguments : List String) : IO Command.Outcome := do
  match Arguments.read arguments with
  | .error _ =>
    return Command.run
      ⟨Source.parse, ⟨[], []⟩, fun _ => .notStarted "", ⟨false, false⟩, none, none, none⟩ arguments
  | .ok a =>
    let current : Path := ⟨toString (← IO.currentDir)⟩
    return Command.answer (← gather a (← surroundings a current) current []) a

end RootCause.Main

/-- Runs the command. -/
def main (arguments : List String) : IO UInt32 := do
  let outcome ← RootCause.Main.outcomeOf arguments
  (← IO.getStdout).putStr (String.ofList outcome.output)
  (← IO.getStderr).putStr (String.ofList outcome.errors)
  return outcome.code.toUInt32
