import RootCause.Diagnostic.Json
import RootCause.Output.Document
import RootCause.Report.Layout

/-!
# Reports as documents

The JSON form of a report, an array of entries in which what an entry lacks is left out, and the
document that a report is.
-/

namespace RootCause.Report

/-- The string value of some characters. -/
def jsonText (s : List Char) : Json := .ofString (String.ofList s)

/-- Writes a range of characters. -/
def rangeToJson (r : CharRange) : Json :=
  .ofMembers [("start", .ofNat r.start), ("end", .ofNat r.stop)]

/-- Writes a line of a snippet. -/
def lineToJson (l : Diff.Line) : Json :=
  .ofMembers
    [("raw", jsonText l.raw), ("symbol", .orNull (l.sign.map fun s => .ofString s.name)),
      ("head_line", .orNull (l.newLine.map .ofNat)), ("content", jsonText l.content)]

/-- Writes a snippet. -/
def viewToJson (v : View) : Json :=
  .ofMembers
    [("source", .ofString v.origin.name), ("header", jsonText v.snippet.header),
      ("lines", .arr (v.snippet.lines.map lineToJson)),
      ("pointer", .orNull (v.snippet.pointer.map .ofNat))]

/-- Writes a blame. -/
def blameToJson (b : Git.Blame) : Json :=
  .ofMembers
    [("commit", jsonText b.commit), ("author", jsonText b.author), ("summary", jsonText b.summary)]

/-- Writes a commit. -/
def commitToJson (c : Git.Commit) : Json :=
  .ofMembers
    [("hash", jsonText c.hash), ("author", jsonText c.author), ("date", jsonText c.date),
      ("message", jsonText c.message)]

/-- Writes a history, which is left out if there is none. -/
def historyToJson? (commits : List Git.Commit) : Option Json :=
  if commits.isEmpty then none else some (.arr (commits.map commitToJson))

/-- Writes an entry. -/
def Entry.toJson (e : Entry) : Json :=
  .ofMembers <|
    [("rank", .ofNat e.rank), ("diagnostic", e.diagnostic.toJson)] ++
      Json.member? "source_line" (e.sourceLine.map jsonText) ++
      Json.member? "caret" (e.caret.map rangeToJson) ++
      Json.member? "snippet" (e.view.map viewToJson) ++
      Json.member? "blame" (e.blame.map blameToJson) ++
      Json.member? "history" (historyToJson? e.history)

/-- A report as a document. -/
def document (t : TabStops) (entries : List Entry) : Output.Document where
  text := compactText entries
  prettyText colours := prettyText t colours entries
  value := .arr (entries.map Entry.toJson)

end RootCause.Report
