import RootCause.Json.Printer
import RootCause.Output.Format
import RootCause.Text.Lines

/-!
# Documents

What can be written in every format: a document has a compact text, a pretty one, and a JSON value.
-/

namespace RootCause.Output

/-- A document. -/
structure Document where
  text : List Char
  /-- The pretty text, coloured or not. -/
  prettyText : Bool → List Char
  value : Json

/-- A document whose pretty text is its compact one. -/
def Document.plain (text : List Char) (value : Json) : Document := ⟨text, fun _ => text, value⟩

/-- A value in JSON Lines: each item of an array on a line of its own, with the members of objects
sorted by name. -/
def jsonLines (v : Json) : List Char :=
  match v.sortMembers with
  | .arr items => Text.joinWith ['\n'] (items.map Json.render)
  | v => v.render

/-- A document in a format, without a newline at its end. -/
def Document.render (d : Document) : Format → List Char
  | .compact => d.text
  | .pretty colours => d.prettyText colours
  | .json => d.value.render
  | .jsonLines => jsonLines d.value

/-- What is written for a document: nothing if that is empty, and else with a newline after it. -/
def Document.print (d : Document) (f : Format) : List Char :=
  let text := d.render f
  if text.isEmpty then [] else text ++ ['\n']

end RootCause.Output
