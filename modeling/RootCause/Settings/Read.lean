import RootCause.Json.Decode
import RootCause.Settings.Basic
import RootCause.Toml.Parser

/-!
# Reading settings

Settings are read from JSON values and from TOML documents. The two differ in small ways: a TOML
array in the place of a section may have surplus items, and a name that stands as the only key of a
table has an empty table or array for its value, not null.
-/

namespace RootCause.Settings

/-- What a form of settings is lenient about. -/
structure Form where
  /-- Whether an array in the place of a section may have surplus items. -/
  surplus : Bool
  /-- Whether a value may stand behind a name that is the only key of a table. -/
  isUnit : Json → Bool

/-- Settings as JSON. -/
def Form.json : Form where
  surplus := false
  isUnit
    | .null => true
    | _ => false

/-- Settings as TOML. -/
def Form.toml : Form where
  surplus := true
  isUnit
    | .arr [] | .obj [] => true
    | _ => false

namespace Form

open Json (Reader optionalField withDefault)

variable (f : Form)

/-- The values that the fields of a section are given. -/
def fields? (names : List String) : Json → Option Json.Fields
  | .arr items => Json.fields? names (.arr (if f.surplus then items.take names.length else items))
  | v => Json.fields? names v

/-- A colour mode, as a string or as the only key of a table. -/
def colourMode : Reader Output.ColourMode
  | .str (some name) => Output.ColourMode.ofName? name
  | .obj [(some name, v)] => if f.isUnit v then Output.ColourMode.ofName? name else none
  | _ => none

/-- Settings of the order. -/
def orderSection : Reader OrderSection := fun v => do
  match ← f.fields? ["semantic"] v with
  | [semantic] => return ⟨← optionalField Reader.bool semantic⟩
  | _ => none

/-- Settings of what is shown. -/
def displaySection : Reader DisplaySection := fun v => do
  match ← f.fields? ["tab_width", "limit", "blame", "history"] v with
  | [tabWidth, limit, blame, history] =>
    return ⟨← optionalField Reader.nat tabWidth, ← optionalField Reader.nat limit,
      ← optionalField Reader.bool blame, ← optionalField Reader.nat history⟩
  | _ => none

/-- Settings of the use of git. -/
def gitSection : Reader GitSection := fun v => do
  match ← f.fields? ["enabled", "upstream"] v with
  | [enabled, base] =>
    return ⟨← optionalField Reader.bool enabled, ← optionalField Reader.string base⟩
  | _ => none

/-- Settings of the pretty form. -/
def prettySection : Reader Output.PrettySettings := fun v => do
  match ← f.fields? ["enabled", "colors"] v with
  | [enabled, colours] =>
    return ⟨← optionalField Reader.bool enabled, ← optionalField f.colourMode colours⟩
  | _ => none

/-- A layer of settings. -/
def settings : Reader Settings := fun v => do
  match ← f.fields? ["ordering", "display", "git", "pretty"] v with
  | [ordering, display, git, pretty] =>
    return ⟨← withDefault {} f.orderSection ordering, ← withDefault {} f.displaySection display,
      ← withDefault {} f.gitSection git, ← withDefault {} f.prettySection pretty⟩
  | _ => none

end Form

/-- The settings in a JSON value. -/
def ofJson? (v : Json) : Option Settings := Form.json.settings v

/-- The settings in a TOML document. -/
def ofToml? (text : List Char) : Option Settings := (Toml.parse? text).bind Form.toml.settings

end RootCause.Settings
