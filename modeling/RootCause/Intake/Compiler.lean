import RootCause.Diagnostic.Basic
import RootCause.Text.Blank
import RootCause.Text.Lines
import RootCause.Text.Decimal

/-!
# Compiler output

The type checker writes a problem as `file(line,column): category code: message`, and more about it
on indented lines after that. A line that has the shape of a problem starts one; an indented line
that has not is added to the last problem's message; any other line is passed over.
-/

namespace RootCause.Intake

/-- Positions are counted from 1; a tool that counts a whole line as column 0 means column 1. -/
def oneBased (n : Nat) : Nat := max n 1

/-- The first line of a problem, cut into its parts. -/
structure CompilerLine where
  file : List Char
  line : Nat
  column : Nat
  severity : Severity
  code : Option (List Char)
  message : List Char
  deriving DecidableEq

/-- The severity that a category stands for. -/
def categorySeverity (category : List Char) : Severity :=
  if category = "warning".toList then .warning
  else if category = "message".toList then .info
  else .error

/-- A number between blanks, or 1 if it is none. -/
def positionPart (s : List Char) : Nat := (Text.number? (Text.trim s)).getD 1

/-- Category, code and message after the position. Without a colon all of it is the message of an
error. -/
def categoryParts (s : List Char) : Severity × Option (List Char) × List Char :=
  match Text.splitOnce? [':', ' '] s with
  | some (label, message) =>
    let (category, code) := (Text.splitOnce? [' '] label).getD (label, [])
    (categorySeverity category, if code = [] then none else some code, message)
  | none => (.error, none, s)

/-- The parts of a line that starts a problem: the position ends at the first `): `, and starts at
the last opening parenthesis before it. -/
def CompilerLine.read? (s : List Char) : Option CompilerLine := do
  let (place, rest) ← Text.splitOnce? [')', ':', ' '] s
  let (file, position) ← Text.splitLast? '(' place
  let (line, column) ← Text.splitOnce? [','] position
  let (severity, code, message) := categoryParts rest
  return ⟨Text.trim file, oneBased (positionPart line), oneBased (positionPart column), severity,
    code, message⟩

/-- The problem that starts with a line. -/
def CompilerLine.diagnostic (l : CompilerLine) : Diagnostic where
  tool := .tsc
  rule := l.code.map String.ofList
  message := String.ofList l.message
  severity := l.severity
  location := ⟨⟨String.ofList l.file⟩, l.line, l.column, none, none⟩

/-- The problem with a further line of its message. -/
def addToMessage (d : Diagnostic) (line : List Char) : Diagnostic :=
  { d with message := d.message ++ "\n" ++ String.ofList (Text.trim line) }

/-- The problems after a further line, the last one first. -/
def readLine (found : List Diagnostic) (line : List Char) : List Diagnostic :=
  match CompilerLine.read? line with
  | some l => l.diagnostic :: found
  | none =>
    match line, found with
    | ' ' :: _, last :: rest => addToMessage last line :: rest
    | _, _ => found

/-- The problems in a compiler's output. -/
def ofCompiler (text : List Char) : List Diagnostic :=
  ((Text.lines text).foldl readLine []).reverse

end RootCause.Intake
