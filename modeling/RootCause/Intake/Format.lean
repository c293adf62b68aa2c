import RootCause.Diagnostic.Json
import RootCause.Intake.Lint
import RootCause.Intake.Sarif
import RootCause.Json.Parser

/-!
# Input formats

The formats in which problems are read, how a format is recognised from a file's name and contents,
and how a text is read in a format.
-/

namespace RootCause.Intake

/-- A format in which problems are read. -/
inductive Format
  /-- Plain output of the type checker. -/
  | tsc
  | eslint
  | oxlint
  | sarif
  /-- An array of diagnostics as they are written here. -/
  | json
  deriving DecidableEq, Repr

namespace Format

/-- The name of a format. -/
def name : Format → String
  | .tsc => "tsc"
  | .eslint => "eslint"
  | .oxlint => "oxlint"
  | .sarif => "sarif"
  | .json => "json"

/-- The format with this name. -/
def ofName? : String → Option Format
  | "tsc" => some .tsc
  | "eslint" => some .eslint
  | "oxlint" => some .oxlint
  | "sarif" => some .sarif
  | "json" => some .json
  | _ => none

@[simp] theorem ofName?_name (f : Format) : ofName? f.name = some f := by
  cases f <;> rfl

/-- Whether the name of a file says that it is a SARIF log. -/
def isSarifName (name : List Char) : Bool :=
  Text.endsWith ".sarif".toList name || Text.endsWith ".sarif.json".toList name

theorem isSarifName_eq_false_iff {name : List Char} :
    isSarifName name = false ↔ ¬ ".sarif".toList <:+ name ∧ ¬ ".sarif.json".toList <:+ name := by
  simp only [isSarifName, Text.endsWith, Bool.or_eq_false_iff, ← List.isSuffixOf_iff_suffix,
    Bool.not_eq_true]

/-- The format of a text that is not blank at its start, from a file with this name. -/
def sniff (name text : List Char) : Option Format :=
  if text.head? = some '{' ∧ Text.occurs "\"runs\"".toList text then some .sarif
  else if text.head? = some '[' then
    if Text.occurs "\"filePath\"".toList text then
      if Text.occurs "oxlint".toList name then some .oxlint else some .eslint
    else some .json
  else if text.isEmpty || (Text.lines text).any (Text.occurs "): error TS".toList) then some .tsc
  else none

/-- The format of a file, by its name and then by its text. A path that does not end in a name has
none. -/
def detect? (path : Path) (text : List Char) : Option Format := do
  let name ← path.fileName?
  if isSarifName name then some .sarif else sniff name (Text.trimStart text)

theorem detect?_of_isSarifName_eq_false {path : Path} {name : List Char}
    (hname : path.fileName? = some name) (hsarif : isSarifName name = false) (text : List Char) :
    detect? path text = sniff name (Text.trimStart text) := by
  rw [detect?, hname, Option.bind_eq_bind, Option.bind_some, hsarif]
  rfl

/-- Why a text cannot be read in a format. -/
inductive ReadError
  /-- It is not JSON of the format's shape. -/
  | json
  deriving DecidableEq

/-- The text of a read error. -/
def ReadError.message : ReadError → String
  | .json => "invalid JSON"

/-- Reads a text as a JSON document of some shape. -/
def readDocument (read : Json → Option (List Diagnostic)) (text : List Char) :
    Except ReadError (List Diagnostic) :=
  match (Json.parse? text).bind read with
  | some ds => .ok ds
  | none => .error .json

/-- Reads a text in a format. -/
def read : Format → List Char → Except ReadError (List Diagnostic)
  | .tsc, text => .ok (ofCompiler text)
  | .eslint, text => readDocument (ofLint? .eslint) text
  | .oxlint, text => readDocument (ofLint? .oxlint) text
  | .sarif, text => readDocument ofSarif? text
  | .json, text => readDocument (Json.Reader.list Diagnostic.ofJson?) text

end Format

end RootCause.Intake
