import RootCause.Diff.Line
import RootCause.Json.Value
import RootCause.Report.Entry

/-!
# The schema of reports

A JSON schema of the JSON form of reports.
-/

namespace RootCause.Report

/-- A schema: the members of its object. -/
abbrev Schema := List (String × Json)

namespace Schema

/-- A schema with a description before all else. -/
def described (text : String) (s : Schema) : Schema := ("description", .ofString text) :: s

/-- The schema of the values of a JSON type. -/
def ofType (name : String) : Schema := [("type", .ofString name)]

/-- The schema of texts. -/
def text : Schema := ofType "string"

/-- The bounds of numbers that are not negative. -/
def bounds : Schema := [("format", .ofString "uint"), ("minimum", .ofNat 0)]

/-- The schema of numbers that are not negative. -/
def number : Schema := ofType "integer" ++ bounds

/-- The schema of the values of a JSON type and null. -/
def nullableType (name : String) : Schema :=
  [("type", .arr [.ofString name, .ofString "null"])]

/-- The schema of texts and null. -/
def nullableText : Schema := nullableType "string"

/-- The schema of numbers that are not negative, and null. -/
def nullableNumber : Schema := nullableType "integer" ++ bounds

/-- The schema with a name. -/
def named (name : String) : Schema := [("$ref", .ofString ("#/$defs/" ++ name))]

/-- The values of a schema with a name, and null. -/
def nullable (name : String) : Schema :=
  [("anyOf", .arr [.ofMembers (named name), .ofMembers (ofType "null")])]

/-- The schema of arrays. -/
def listOf (item : Schema) : Schema := ofType "array" ++ [("items", .ofMembers item)]

/-- The schema of some fixed texts. -/
def oneOfTexts (values : List String) : Schema :=
  text ++ [("enum", .arr (values.map .ofString))]

/-- The schema of some fixed texts, each with a description. -/
def oneOfDescribed (values : List (String × String)) : Schema :=
  [("oneOf", .arr (values.map fun (value, about) =>
    .ofMembers (described about (text ++ [("const", .ofString value)]))))]

/-- The schema of objects with some properties, of which some are required. -/
def object (properties : List (String × Schema)) (required : List String) : Schema :=
  ofType "object" ++
    [("properties", .ofMembers (properties.map fun (name, s) => (name, .ofMembers s))),
      ("required", .arr (required.map .ofString))]

/-- The name of the schema of reports. -/
def reportName : String := "CascadeReport"

/-- The schemas that others refer to by name. -/
def definitions : List (String × Schema) :=
  [("BlameInfo",
      object [("author", text), ("commit", text), ("summary", text)]
        ["commit", "author", "summary"]),
    ("CaretSpan",
      described "Half-open character range on the diagnostic's line."
        (object [("end", number), ("start", number)] ["start", "end"])),
    (reportName,
      described "Ordered diagnostics with their context." (listOf (named "ReportEntry"))),
    ("Diagnostic",
      described "A single problem reported by an upstream tool."
        (object
          [("location", named "Location"), ("message", text), ("rule_id", nullableText),
            ("severity", named "DiagnosticSeverity"), ("source", named "DiagnosticSource")]
          ["source", "message", "severity", "location"])),
    ("DiagnosticSeverity",
      described "Diagnostic severity, ordered so that more severe compares greater."
        (oneOfTexts ([.hint, .info, .warning, .error].map Severity.name))),
    ("DiagnosticSource",
      described "Which upstream tool produced a diagnostic."
        (oneOfDescribed
          [(Tool.eslint.name, "Style checker."), (Tool.oxlint.name, "Fast linter."),
            (Tool.tsc.name, "Compiler frontend (type checker).")])),
    ("DiffLine",
      described "One physical line of a hunk body."
        (object
          [("content", text),
            ("head_line",
              described "Line number in the new file; `None` for lines absent from it."
                nullableNumber),
            ("raw", text), ("symbol", nullable "DiffSymbol")]
          ["raw", "content"])),
    ("DiffSource",
      described "Where a diff candidate came from, in priority order."
        (oneOfTexts (Origin.all.map Origin.name))),
    ("DiffSymbol",
      described "Leading marker of a diff line."
        (oneOfDescribed
          [(Diff.Sign.added.name, "`+`"), (Diff.Sign.removed.name, "`-`"),
            (Diff.Sign.context.name, "` `"), (Diff.Sign.hunk.name, "`@`"),
            (Diff.Sign.marker.name, "`\\` (e.g. `\\ No newline at end of file`)")])),
    ("HistoryCommit",
      object [("author", text), ("date", text), ("hash", text), ("message", text)]
        ["hash", "author", "date", "message"]),
    ("Location",
      described ("Position of a diagnostic. Lines and columns are 1-based; columns are\n" ++
          "visual (a tab advances to the next tab stop).")
        (object
          [("column", number), ("end_column", nullableNumber), ("end_line", nullableNumber),
            ("file", text), ("line", number)]
          ["file", "line", "column"])),
    ("ReportEntry",
      object
        [("blame", nullable "BlameInfo"), ("caret", nullable "CaretSpan"),
          ("diagnostic", named "Diagnostic"), ("history", listOf (named "HistoryCommit")),
          ("rank", described "Position in the presentation order, from 0." number),
          ("snippet", nullable "SnippetView"), ("source_line", nullableText)]
        ["rank", "diagnostic", "history"]),
    ("SnippetView",
      described "A hunk with an optional pointer at the requested line."
        (object
          [("header", text), ("lines", listOf (named "DiffLine")), ("pointer", nullableNumber),
            ("source", named "DiffSource")]
          ["source", "header", "lines"]))]

/-- The schema of reports. -/
def report : Json :=
  .ofMembers <|
    [("$schema", .ofString "https://json-schema.org/draft/2020-12/schema"),
      ("title", .ofString "RenderedReport")] ++
    described "A report bound to the mapper it was built with, ready to print."
      (named reportName) ++
    [("$defs", .ofMembers (definitions.map fun (name, s) => (name, .ofMembers s)))]

end Schema

end RootCause.Report
