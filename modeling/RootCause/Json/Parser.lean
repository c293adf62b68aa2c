import RootCause.Json.Token

/-!
# Reading JSON

A machine reads the tokens of a text one by one. Its state is what may come next, with the arrays
and objects that are still open, the innermost first; so no depth of nesting is too much for it.
A text is a document when the machine ends with one value and nothing open.
-/

namespace RootCause.Json

/-- An array or object that is still open. -/
inductive Frame
  /-- An array and its items so far, the last one first. -/
  | items (done : List Json)
  /-- An object, its members so far, the last one first, and the name whose value is to come. -/
  | members (done : List (Text × Json)) (name : Text)

/-- What may come next. -/
inductive State
  /-- A value. -/
  | value (outer : List Frame)
  /-- A value or the end of an array that was just opened. -/
  | firstItem (outer : List Frame)
  /-- A name or the end of an object that was just opened. -/
  | firstName (outer : List Frame)
  /-- The name of a further member. -/
  | name (done : List (Text × Json)) (outer : List Frame)
  /-- The colon after a name. -/
  | colon (done : List (Text × Json)) (name : Text) (outer : List Frame)
  /-- Whatever may follow a value. -/
  | after (v : Json) (outer : List Frame)

/-- The state after a token at a place where a value may start. -/
def State.begin (outer : List Frame) : Token → Option State
  | .scalar v => some (.after v outer)
  | .openArray => some (.firstItem outer)
  | .openObject => some (.firstName outer)
  | _ => none

/-- The state after a token, if it may come next. -/
def State.step : State → Token → Option State
  | .value k, t => State.begin k t
  | .firstItem k, .closeArray => some (.after (.arr []) k)
  | .firstItem k, t => State.begin (.items [] :: k) t
  | .firstName k, .closeObject => some (.after (.obj []) k)
  | .firstName k, .scalar (.str key) => some (.colon [] key k)
  | .name done k, .scalar (.str key) => some (.colon done key k)
  | .colon done key k, .colon => some (.value (.members done key :: k))
  | .after v (.items done :: k), .comma => some (.value (.items (v :: done) :: k))
  | .after v (.items done :: k), .closeArray => some (.after (.arr (v :: done).reverse) k)
  | .after v (.members done key :: k), .comma => some (.name ((key, v) :: done) k)
  | .after v (.members done key :: k), .closeObject =>
    some (.after (.obj ((key, v) :: done).reverse) k)
  | _, _ => none

/-- The state after some tokens. -/
def State.run : State → List Token → Option State
  | st, [] => some st
  | st, t :: ts => (st.step t).bind fun st => st.run ts

/-- The value of a state in which a document is complete. -/
def State.document? : State → Option Json
  | .after v [] => some v
  | _ => none

/-- The document that a text is. -/
def parse? (s : List Char) : Option Json := do
  let ts ← tokens? s
  let st ← (State.value []).run ts
  st.document?

end RootCause.Json
