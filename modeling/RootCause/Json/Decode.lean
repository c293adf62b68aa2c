import RootCause.Json.Value
import RootCause.Text.Decimal

/-!
# Reading domain values from JSON

A reader takes a JSON value to a domain value or refuses it. A record is read from an object or
from the array of its fields in their order. In an object the members it does not know are passed
over and the ones it knows may stand only once; in an array the last fields may be missing, and
surplus items are refused. A field that may be missing is not thereby allowed to be null: that goes
for optional values only.
-/

namespace RootCause.Json

/-- A reader of values of the type `α`. -/
abbrev Reader (α : Type) := Json → Option α

namespace Reader

/-- A truth value. -/
def bool : Reader Bool
  | .bool b => some b
  | _ => none

/-- A string with a text. -/
def string : Reader String
  | .str text => text
  | _ => none

/-- A number of at most `max` that is written with digits only. -/
def natUpTo (max : Nat) : Reader Nat
  | .num literal => (Text.digits? literal.toList).filter (· ≤ max)
  | _ => none

/-- A number that fits into a machine word. -/
def nat : Reader Nat := natUpTo Text.wordMax

/-- A value or null. -/
def optional {α : Type} (read : Reader α) : Reader (Option α)
  | .null => some none
  | v => (read v).map some

/-- An array of values. -/
def list {α : Type} (read : Reader α) : Reader (List α)
  | .arr items => items.mapM read
  | _ => none

/-- One of finitely many names: as a string, or as the only member of an object, with null for its
value. -/
def named {α : Type} (ofName? : String → Option α) : Reader α
  | .str (some name) => ofName? name
  | .obj [(some name, .null)] => ofName? name
  | _ => none

end Reader

/-- The values that a record's fields are given, if they are. -/
abbrev Fields := List (Option Json)

/-- The value of the member `name` of an object, if it stands there once, and nothing if it does
not stand there. Twice is refused. -/
def field? (members : List (Text × Json)) (name : String) : Option (Option Json) :=
  match members.filter (fun m => m.1 == some name) with
  | [] => some none
  | [(_, v)] => some (some v)
  | _ => none

/-- The values that a record with the fields `names` is given. -/
def fields? (names : List String) : Json → Option Fields
  | .arr items =>
    if items.length ≤ names.length then
      some (items.map some ++ List.replicate (names.length - items.length) none)
    else none
  | .obj members =>
    if members.all (fun m => m.1.isSome) then names.mapM (field? members) else none
  | _ => none

/-- A field that must be given. -/
def required {α : Type} (read : Reader α) (v : Option Json) : Option α := v.bind read

/-- A field that has a value of its own when it is not given. -/
def withDefault {α : Type} (d : α) (read : Reader α) : Option Json → Option α
  | none => some d
  | some v => read v

/-- A field that may be missing or null. -/
def optionalField {α : Type} (read : Reader α) : Option Json → Option (Option α) :=
  withDefault none read.optional

end RootCause.Json
