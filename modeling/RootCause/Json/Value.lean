/-!
# JSON values

A JSON document as it was written: an object keeps its members in order and may name one twice, a
number keeps its literal, and a string that an escape leaves with half of a surrogate pair has no
text. What a reader makes of these is its own affair (`Json.Decode`).
-/

namespace RootCause

/-- The text of a JSON string, or nothing when half of a surrogate pair stands alone in it. -/
abbrev Json.Text := Option String

/-- A JSON value. -/
inductive Json
  | null
  | bool (b : Bool)
  /-- A number, as its literal. -/
  | num (literal : String)
  | str (text : Json.Text)
  | arr (items : List Json)
  /-- An object, with its members in the order in which they were written. -/
  | obj (members : List (Json.Text × Json))
  deriving Inhabited

namespace Json

/-- The string value of a text. -/
def ofString (s : String) : Json := .str (some s)

/-- The number value of a natural number. -/
def ofNat (n : Nat) : Json := .num (toString n)

/-- The object with these members. -/
def ofMembers (members : List (String × Json)) : Json :=
  .obj (members.map fun (name, v) => (some name, v))

/-- A member if there is a value for it. -/
def member? (name : String) (v : Option Json) : List (String × Json) :=
  match v with
  | some v => [(name, v)]
  | none => []

/-- The value or null. -/
def orNull : Option Json → Json
  | some v => v
  | none => .null

mutual

/-- The value with the members of every object in it sorted by name, by code points. -/
def sortMembers : Json → Json
  | .arr items => .arr (sortItems items)
  | .obj members =>
    .obj ((sortValues members).mergeSort fun a b => decide (a.1.getD "" ≤ b.1.getD ""))
  | v => v

/-- `sortMembers` on each item. -/
def sortItems : List Json → List Json
  | [] => []
  | v :: vs => v.sortMembers :: sortItems vs

/-- `sortMembers` on each member's value. -/
def sortValues : List (Text × Json) → List (Text × Json)
  | [] => []
  | (name, v) :: members => (name, v.sortMembers) :: sortValues members

end

end Json

end RootCause
