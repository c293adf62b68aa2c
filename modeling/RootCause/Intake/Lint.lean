import RootCause.Intake.Compiler
import RootCause.Json.Decode

/-!
# Linter output

Linters write an array of files, each with the problems found in it. Severity 2 is an error and 1 a
warning; rules that are off are hints.
-/

namespace RootCause.Intake

/-- A problem in a linter's report. -/
structure LintMessage where
  rule : Option String
  severity : Nat
  message : String
  line : Nat
  column : Nat
  endLine : Option Nat
  endColumn : Option Nat
  deriving DecidableEq

/-- A file in a linter's report. -/
structure LintFile where
  path : String
  messages : List LintMessage
  deriving DecidableEq

/-- Reads a problem. -/
def LintMessage.ofJson? (v : Json) : Option LintMessage := do
  match ← Json.fields?
      ["ruleId", "severity", "message", "line", "column", "endLine", "endColumn"] v with
  | [rule, severity, message, line, column, endLine, endColumn] =>
    let rule ← Json.optionalField Json.Reader.string rule
    let severity ← Json.withDefault 0 (Json.Reader.natUpTo 255) severity
    let message ← Json.required Json.Reader.string message
    let line ← Json.withDefault 0 Json.Reader.nat line
    let column ← Json.withDefault 0 Json.Reader.nat column
    let endLine ← Json.optionalField Json.Reader.nat endLine
    let endColumn ← Json.optionalField Json.Reader.nat endColumn
    return ⟨rule, severity, message, line, column, endLine, endColumn⟩
  | _ => none

/-- Reads a file. -/
def LintFile.ofJson? (v : Json) : Option LintFile := do
  match ← Json.fields? ["filePath", "messages"] v with
  | [path, messages] =>
    let path ← Json.required Json.Reader.string path
    let messages ← Json.withDefault [] (Json.Reader.list LintMessage.ofJson?) messages
    return ⟨path, messages⟩
  | _ => none

/-- The severity that a linter's number stands for. -/
def lintSeverity : Nat → Severity
  | 2 => .error
  | 1 => .warning
  | _ => .hint

/-- A linter's problem in a file. -/
def LintMessage.diagnostic (tool : Tool) (path : String) (m : LintMessage) : Diagnostic where
  tool := tool
  rule := m.rule
  message := m.message
  severity := lintSeverity m.severity
  location := ⟨⟨path⟩, oneBased m.line, oneBased m.column, m.endLine, m.endColumn⟩

/-- The problems in a linter's report. -/
def ofLint? (tool : Tool) (v : Json) : Option (List Diagnostic) :=
  (Json.Reader.list LintFile.ofJson? v).map fun files =>
    files.flatMap fun f => f.messages.map (LintMessage.diagnostic tool f.path)

end RootCause.Intake
