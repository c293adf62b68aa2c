import RootCause.Path

/-!
# Diagnostics

A problem that a tool reports at a position in a file. Lines and columns are counted from 1, and
columns are visual. The identity of a diagnostic is where it is and who reports it, as one text:
message and severity are no part of it.
-/

namespace RootCause

/-- How bad a problem is. -/
inductive Severity
  | hint
  | info
  | warning
  | error
  deriving DecidableEq, Inhabited, Repr

namespace Severity

/-- The place of a severity in the order from the least to the most severe. -/
def level : Severity → Nat
  | .hint => 0
  | .info => 1
  | .warning => 2
  | .error => 3

/-- The name of a severity. -/
def name : Severity → String
  | .hint => "hint"
  | .info => "info"
  | .warning => "warning"
  | .error => "error"

/-- The severity with this name. -/
def ofName? : String → Option Severity
  | "hint" => some .hint
  | "info" => some .info
  | "warning" => some .warning
  | "error" => some .error
  | _ => none

@[simp] theorem ofName?_name (s : Severity) : ofName? s.name = some s := by
  cases s <;> rfl

/-- The severity of a SARIF level; a level that is not known is a warning. -/
def ofSarifLevel : String → Severity
  | "error" => .error
  | "note" => .info
  | "none" => .hint
  | _ => .warning

/-- The SARIF level of a severity. -/
def sarifLevel : Severity → String
  | .error => "error"
  | .warning => "warning"
  | .info => "note"
  | .hint => "none"

@[simp] theorem ofSarifLevel_sarifLevel (s : Severity) : ofSarifLevel s.sarifLevel = s := by
  cases s <;> rfl

end Severity

/-- The tools whose problems are read. -/
inductive Tool
  /-- A style checker. -/
  | eslint
  /-- A fast linter. -/
  | oxlint
  /-- The type checker. -/
  | tsc
  deriving DecidableEq, Inhabited, Repr

namespace Tool

/-- The name of a tool. -/
def name : Tool → String
  | .eslint => "eslint"
  | .oxlint => "oxlint"
  | .tsc => "tsc"

/-- The tool with this name. -/
def ofName? : String → Option Tool
  | "eslint" => some .eslint
  | "oxlint" => some .oxlint
  | "tsc" => some .tsc
  | _ => none

@[simp] theorem ofName?_name (t : Tool) : ofName? t.name = some t := by
  cases t <;> rfl

/-- The tool that calls itself by this name, in letters of any case. -/
def ofOwnName? (s : String) : Option Tool :=
  match String.ofList (s.toList.map Char.toLower) with
  | "eslint" => some .eslint
  | "oxlint" | "oxc" => some .oxlint
  | "tsc" | "typescript" | "tsgo" => some .tsc
  | _ => none

end Tool

/-- Where a problem is. -/
structure Location where
  file : Path
  line : Nat
  column : Nat
  endLine : Option Nat := none
  endColumn : Option Nat := none
  deriving DecidableEq, Inhabited, Repr

/-- A problem that a tool reports. -/
structure Diagnostic where
  tool : Tool
  rule : Option String := none
  message : String
  severity : Severity
  location : Location
  deriving DecidableEq, Inhabited, Repr

/-- A position that is not counted from 1. -/
structure PositionError where
  file : Path
  line : Nat
  column : Nat
  deriving DecidableEq

/-- The text of a position error. -/
def PositionError.message (e : PositionError) : String :=
  s!"{e.file.text}:{e.line}:{e.column}: positions are 1-based"

namespace Diagnostic

/-- The file in which the problem is. -/
abbrev file (d : Diagnostic) : Path := d.location.file

/-- The line of the problem. -/
abbrev line (d : Diagnostic) : Nat := d.location.line

/-- The column of the problem. -/
abbrev column (d : Diagnostic) : Nat := d.location.column

/-- Whether line and column are counted from 1. -/
def isValid (d : Diagnostic) : Bool := d.line ≠ 0 ∧ d.column ≠ 0

/-- Refuses a position that is not counted from 1. -/
def validate (d : Diagnostic) : Except PositionError Unit :=
  if d.isValid then .ok () else .error ⟨d.file, d.line, d.column⟩

/-- The same problem in another file. -/
def withFile (d : Diagnostic) (file : Path) : Diagnostic :=
  { d with location := { d.location with file := file } }

/-- The problem with its file below `root`, unless it is absolute, and in normal form. -/
def rooted (d : Diagnostic) (root : Path) : Diagnostic :=
  d.withFile
    (if d.file.isAbsolute then d.file.normalize else (root.join d.file.text).normalize)

end Diagnostic

/-- The identity of a diagnostic. -/
structure Id where
  text : String
  deriving DecidableEq, Inhabited, Repr

/-- Identities compare by their texts, code point by code point. -/
instance : LT Id := ⟨fun a b => a.text < b.text⟩

instance (a b : Id) : Decidable (a < b) := inferInstanceAs (Decidable (a.text < b.text))

/-- What stands for the rule of a problem that has none. -/
def Id.noRule : String := "no-rule"

/-- File, line, column, tool and rule, with colons between them. -/
def Diagnostic.id (d : Diagnostic) : Id :=
  ⟨s!"{d.file.text}:{d.line}:{d.column}:{d.tool.name}:{d.rule.getD Id.noRule}"⟩

end RootCause
