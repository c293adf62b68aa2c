import RootCause.Output.Style
import RootCause.Report.Entry
import RootCause.Text.Decimal

/-!
# The texts of an entry

An entry as one line, and as a block: a heading, the message, the snippet or the source line with
carets below the characters in question, and the commits. Line numbers stand right-aligned in a
gutter with a bar after it, and carets are placed by the cells that the shown text fills after its
tabs are expanded.
-/

namespace RootCause.Report

open Output (Style)

/-- The style of a severity. -/
def severityStyle : Severity → Style
  | .error => ⟨true, some .red⟩
  | .warning => ⟨true, some .yellow⟩
  | .info => ⟨true, some .blue⟩
  | .hint => ⟨false, some .cyan⟩

/-- The style of line numbers and of the arrow before a snippet's header. -/
def numberStyle : Style := ⟨true, some .blue⟩

/-- Who reports a diagnostic: the tool, and its rule if it has one. -/
def reporter (d : Diagnostic) : String :=
  match d.rule with
  | some rule => s!"{d.tool.name}/{rule}"
  | none => d.tool.name

/-- File, line and column of a diagnostic. -/
def place (d : Diagnostic) : String := s!"{d.file.text}:{d.line}:{d.column}"

/-- A number or nothing, right-aligned in a gutter. -/
def gutterText (width : Nat) (number : Option Nat) : List Char :=
  let digits := (number.map Text.decimal).getD []
  List.replicate (width - digits.length) ' ' ++ digits

/-- The first eight octets of a hash, if that is where a character ends. -/
def shortHash (hash : List Char) : List Char := (Text.takeBytes? 8 hash).getD hash

namespace Entry

variable (e : Entry)

/-- The entry on one line. -/
def compactText : List Char :=
  let d := e.diagnostic
  s!"{place d}: {d.severity.name} [{reporter d}] ".toList ++
    Text.joinWith [' '] (Text.lines d.message.toList)

/-- The width of the gutter: that of the largest number in it. -/
def gutter : Nat :=
  let numbers := (e.view.map fun v => v.snippet.lines.filterMap (·.newLine)).getD []
  (Text.decimal (numbers.foldl max e.diagnostic.line)).length

/-- The characters of the shown text that carets stand under. The entry's own range is used where
the shown text is the diagnostic's line. -/
def caretRange (t : TabStops) (content : List Char) : Option CharRange :=
  match e.caret, e.sourceLine with
  | some caret, some line =>
    if line = content then some caret else caretFor t e.diagnostic content
  | _, _ => caretFor t e.diagnostic content

end Entry

/-- The first of the cells that carets for a range of a text stand under. -/
def caretColumn (t : TabStops) (content : List Char) (r : CharRange) : Nat :=
  t.columnAt content r.start

/-- The number of carets for a range of a text: one for each cell of its characters and one for each
character past the text's end. -/
def caretWidth (t : TabStops) (content : List Char) (r : CharRange) : Nat :=
  max 1 (t.columnAt content r.stop - t.columnAt content r.start + (r.stop - content.length))

/-- A line with carets below a text. -/
def caretLine (t : TabStops) (gutter : Nat) (style : Style) (colours : Bool) (content : List Char)
    (r : CharRange) : List Char :=
  gutterText gutter none ++ " | ".toList ++ List.replicate (caretColumn t content r) ' ' ++
    style.paint colours (List.replicate (caretWidth t content r) '^') ++ ['\n']

/-- The style of a line of a diff. -/
def diffStyle (marker : Char) : Style :=
  if marker = '+' then ⟨false, some .green⟩
  else if marker = '-' then ⟨false, some .red⟩
  else .plain

/-- A line of a diff with its number in the new file. -/
def diffLine (t : TabStops) (gutter : Nat) (colours : Bool) (l : Diff.Line) : List Char :=
  let marker := (l.sign.map Diff.Sign.char).getD ' '
  numberStyle.paint colours (gutterText gutter l.newLine) ++ " |".toList ++
    (diffStyle marker).paint colours (marker :: t.expand l.content) ++ ['\n']

/-- A line of the source file with its number. -/
def numberedLine (t : TabStops) (gutter : Nat) (colours : Bool) (number : Nat)
    (line : List Char) : List Char :=
  numberStyle.paint colours (gutterText gutter (some number)) ++ " | ".toList ++ t.expand line ++
    ['\n']

namespace Entry

variable (e : Entry) (t : TabStops) (colours : Bool)

/-- The carets below a shown text, if there is a range for them. -/
def carets (content : List Char) : List Char :=
  match e.caretRange t content with
  | some r => caretLine t e.gutter (severityStyle e.diagnostic.severity) colours content r
  | none => []

/-- The heading: severity, reporter and place. -/
def heading : List Char :=
  let d := e.diagnostic
  (severityStyle d.severity).paint colours d.severity.name.toList ++
    s!"[{reporter d}] ".toList ++
    Style.paint ⟨true, none⟩ colours (place d).toList ++ ['\n']

/-- The lines of the message. -/
def messageLines : List Char :=
  (Text.lines e.diagnostic.message.toList).flatMap fun l => ' ' :: ' ' :: l ++ ['\n']

/-- The lines of a snippet, with carets below the one that is pointed at. -/
def viewLines (v : View) : List Char :=
  "  ".toList ++ numberStyle.paint colours "-->".toList ++ s!" {v.origin.name} diff ".toList ++
    v.snippet.header ++ '\n' ::
    (v.snippet.lines.mapIdx fun i l =>
      diffLine t e.gutter colours l ++
        (if v.snippet.pointer = some i then e.carets t colours l.content else [])).flatten

/-- The source line with carets below it. -/
def sourceLines (line : List Char) : List Char :=
  numberedLine t e.gutter colours e.diagnostic.line line ++ e.carets t colours line

/-- What is shown of the file: a snippet if there is one, and else the source line. -/
def shownLines : List Char :=
  match e.view, e.sourceLine with
  | some v, _ => e.viewLines t colours v
  | none, some line => e.sourceLines t colours line
  | none, none => []

/-- The commits that touched the line. -/
def commitLines : List Char :=
  (match e.blame with
    | some b =>
      "  blame ".toList ++ shortHash b.commit ++ ' ' :: b.author ++ ": ".toList ++ b.summary ++
        ['\n']
    | none => []) ++
  e.history.flatMap fun c =>
    "  history ".toList ++ c.date ++ ' ' :: shortHash c.hash ++ ' ' :: c.author ++ ": ".toList ++
      c.message ++ ['\n']

/-- The entry as a block of lines. -/
def prettyText : List Char :=
  e.heading colours ++ e.messageLines ++ e.shownLines t colours ++ e.commitLines

end Entry

/-- A report with one line for each entry. -/
def compactText (entries : List Entry) : List Char :=
  Text.joinWith ['\n'] (entries.map Entry.compactText)

/-- A report with a block for each entry, an empty line between blocks and no blanks at the end. -/
def prettyText (t : TabStops) (colours : Bool) (entries : List Entry) : List Char :=
  Text.trimEnd (Text.joinWith ['\n'] (entries.map fun e => e.prettyText t colours))

end RootCause.Report
