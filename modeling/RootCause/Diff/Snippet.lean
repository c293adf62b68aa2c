import RootCause.Diff.Line
import RootCause.Text.Lines

/-!
# Snippets

The snippet for a line of a file is the first hunk of a diff in which that line of the new file
stands, with a pointer at it. A diff is read line by line with at most one hunk open; a header or
the start of another file closes it, and the first hunk that is closed with a pointer is the answer.

The lines of a hunk are counted in machine words: after the largest number comes zero.
-/

namespace RootCause.Diff

/-- A hunk with a pointer at the line that was asked for, if it has it. -/
structure Snippet where
  header : List Char
  lines : List Line
  /-- The index of the line that was asked for. -/
  pointer : Option Nat
  deriving DecidableEq, Repr

/-- The line that was asked for. -/
def Snippet.pointed (s : Snippet) : Option Line := s.pointer.bind fun i => s.lines[i]?

/-- Why no snippet can be asked for. -/
inductive TargetError
  /-- Lines are counted from 1. -/
  | line (n : Nat)
  deriving DecidableEq

/-- The text of an error about the line that was asked for. -/
def TargetError.message : TargetError → String
  | .line n => s!"target line must be 1-based, got {n}"

/-- A hunk that is still open, with the number of the next new line. -/
structure OpenHunk where
  snippet : Snippet
  next : Nat
  deriving DecidableEq, Repr

/-- The hunk that a header opens. -/
def OpenHunk.start (header : List Char) : OpenHunk := ⟨⟨header, [], none⟩, newStart header⟩

/-- The hunk with a further line, which is pointed at if it is the first with the number
`target`. -/
def OpenHunk.push (target : Nat) (h : OpenHunk) (raw : List Char) : OpenHunk :=
  let line := Line.read h.next raw
  { snippet :=
      { h.snippet with
        lines := h.snippet.lines ++ [line]
        pointer :=
          if line.newLine = some target ∧ h.snippet.pointer = none then some h.snippet.lines.length
          else h.snippet.pointer }
    next := if line.newLine.isSome then Text.wrap (h.next + 1) else h.next }

/-- The snippet of a hunk that is closed, if it has a pointer. -/
def closed? : Option OpenHunk → Option Snippet
  | some h => if h.snippet.pointer.isSome then some h.snippet else none
  | none => none

/-- The first snippet for the line `target` among an open hunk and the lines after it. -/
def scan (target : Nat) : Option OpenHunk → List (List Char) → Option Snippet
  | current, [] => closed? current
  | current, raw :: rest =>
    if isHeader raw then (closed? current).or (scan target (some (.start raw)) rest)
    else if isFileStart raw then (closed? current).or (scan target none rest)
    else scan target (current.map (·.push target raw)) rest

/-- The snippet of a diff for the line `target` of the new file. -/
def extract (diff : List Char) (target : Nat) : Except TargetError (Option Snippet) :=
  if target = 0 then .error (.line 0) else .ok (scan target none (Text.lines diff))

/-- A snippet and the index of the diff it was found in. -/
structure Pick where
  snippet : Snippet
  index : Nat
  deriving DecidableEq, Repr

/-- The first snippet of some diffs, of which the first has the index `i`. A blank diff is passed
over unread. -/
def pickFrom (target : Nat) (i : Nat) : List (List Char) → Except TargetError (Option Pick)
  | [] => .ok none
  | diff :: rest =>
    if (Text.trim diff).isEmpty then pickFrom target (i + 1) rest
    else
      match extract diff target with
      | .error e => .error e
      | .ok (some snippet) => .ok (some ⟨snippet, i⟩)
      | .ok none => pickFrom target (i + 1) rest

/-- The first snippet for the line `target` in a list of diffs. -/
def pick (diffs : List (List Char)) (target : Nat) : Except TargetError (Option Pick) :=
  if target = 0 then .error (.line 0) else pickFrom target 0 diffs

end RootCause.Diff
