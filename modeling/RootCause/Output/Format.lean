/-!
# Output formats

In which form a report is written, and how that follows from what the command line asks for, from
the settings and from the terminal: JSON Lines before JSON before text, text on request or, failing
that, on a terminal in the pretty form, and colours only where nothing forbids them.
-/

namespace RootCause.Output

/-- When colours are used. -/
inductive ColourMode
  /-- On a terminal, or where the pretty form is asked for. -/
  | auto
  | always
  | never
  deriving DecidableEq, Inhabited, Repr

/-- The name of a colour mode. -/
def ColourMode.name : ColourMode → String
  | .auto => "auto"
  | .always => "always"
  | .never => "never"

/-- The colour mode with this name. -/
def ColourMode.ofName? : String → Option ColourMode
  | "auto" => some .auto
  | "always" => some .always
  | "never" => some .never
  | _ => none

@[simp] theorem ColourMode.ofName?_name (m : ColourMode) : ofName? m.name = some m := by
  cases m <;> rfl

/-- What is known about the standard output. -/
structure Terminal where
  isTerminal : Bool
  /-- The environment asks for no colours. -/
  noColour : Bool
  deriving DecidableEq, Repr

/-- Settings of the pretty form. -/
structure PrettySettings where
  enabled : Option Bool := none
  colours : Option ColourMode := none
  deriving DecidableEq, Inhabited, Repr

namespace PrettySettings

/-- Whether the pretty form is the usual one: as set, or else on a terminal. -/
def isEnabled (p : PrettySettings) (t : Terminal) : Bool := p.enabled.getD t.isTerminal

/-- Whether the pretty form has colours; `forced` says that it was asked for. -/
def useColours (p : PrettySettings) (t : Terminal) (forced : Bool) : Bool :=
  if t.noColour then false
  else
    match p.colours.getD .auto with
    | .always => true
    | .never => false
    | .auto => forced || t.isTerminal

end PrettySettings

/-- The form in which a report is written. -/
inductive Format
  /-- One line for each entry. -/
  | compact
  /-- Text with snippets, coloured or not. -/
  | pretty (colours : Bool)
  | json
  /-- JSON with one line for each element of an array. -/
  | jsonLines
  deriving DecidableEq, Repr

/-- What the command line asks for. -/
structure Request where
  json : Bool := false
  jsonLines : Bool := false
  pretty : Bool := false
  compact : Bool := false
  deriving DecidableEq, Repr

namespace Format

/-- The name of a format. -/
def name : Format → String
  | .compact => "compact"
  | .pretty _ => "pretty"
  | .json => "json"
  | .jsonLines => "jsonl"

/-- The format that a request, the settings and the terminal lead to. -/
def resolve (r : Request) (p : PrettySettings) (t : Terminal) : Format :=
  if r.jsonLines then .jsonLines
  else if r.json then .json
  else if !r.compact && (r.pretty || p.isEnabled t) then .pretty (p.useColours t r.pretty)
  else .compact

/-- Whether the format is one of the JSON formats. -/
def isJson : Format → Bool
  | .json | .jsonLines => true
  | _ => false

/-- Whether the format is the pretty form. -/
def isPretty : Format → Bool
  | .pretty _ => true
  | _ => false

/-- Whether the format has colours. -/
def hasColours : Format → Bool
  | .pretty colours => colours
  | _ => false

end Format

end RootCause.Output
