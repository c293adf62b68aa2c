import RootCause.Diagnostic.Basic
import RootCause.Json.Decode

/-!
# Diagnostics as JSON

The form in which diagnostics are written and read back: fields in the order tool, rule, message,
severity and location, with rule and end left out where there are none.
-/

namespace RootCause

/-- The names of the fields of a location. -/
def Location.fieldNames : List String := ["file", "line", "column", "end_line", "end_column"]

/-- Writes a location. -/
def Location.toJson (l : Location) : Json :=
  .ofMembers <|
    [("file", .ofString l.file.text), ("line", .ofNat l.line), ("column", .ofNat l.column)] ++
      Json.member? "end_line" (l.endLine.map Json.ofNat) ++
      Json.member? "end_column" (l.endColumn.map Json.ofNat)

/-- Reads a location. -/
def Location.ofJson? (v : Json) : Option Location := do
  match ← Json.fields? fieldNames v with
  | [file, line, column, endLine, endColumn] =>
    let file ← Json.required Json.Reader.string file
    let line ← Json.required Json.Reader.nat line
    let column ← Json.required Json.Reader.nat column
    let endLine ← Json.optionalField Json.Reader.nat endLine
    let endColumn ← Json.optionalField Json.Reader.nat endColumn
    return ⟨⟨file⟩, line, column, endLine, endColumn⟩
  | _ => none

/-- The names of the fields of a diagnostic. -/
def Diagnostic.fieldNames : List String := ["source", "rule_id", "message", "severity", "location"]

/-- Writes a diagnostic. -/
def Diagnostic.toJson (d : Diagnostic) : Json :=
  .ofMembers <|
    [("source", .ofString d.tool.name)] ++
      Json.member? "rule_id" (d.rule.map Json.ofString) ++
      [("message", .ofString d.message), ("severity", .ofString d.severity.name),
        ("location", d.location.toJson)]

/-- Reads a diagnostic. -/
def Diagnostic.ofJson? (v : Json) : Option Diagnostic := do
  match ← Json.fields? fieldNames v with
  | [tool, rule, message, severity, location] =>
    let tool ← Json.required (Json.Reader.named Tool.ofName?) tool
    let rule ← Json.optionalField Json.Reader.string rule
    let message ← Json.required Json.Reader.string message
    let severity ← Json.required (Json.Reader.named Severity.ofName?) severity
    let location ← Json.required Location.ofJson? location
    return ⟨tool, rule, message, severity, location⟩
  | _ => none

end RootCause
