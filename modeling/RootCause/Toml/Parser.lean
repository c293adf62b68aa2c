import RootCause.Toml.Number
import RootCause.Toml.Table
import RootCause.Toml.Text

/-!
# Reading TOML

A document is a sequence of lines, each with a key and its value, a header, or nothing. It is read
as the JSON object with the same content, in which a date is an object with one member.
-/

namespace RootCause.Toml

/-- A fixed word for a value. -/
def word (w : String) (v : Json) : Scan Json := do
  Scan.text w.toList
  return v

/-- The items of an array, up to its closing bracket. -/
def arrayItems (value : Scan Json) : Scan (List Json) := do
  gap
  let items ← Scan.optional (Scan.sepBy1 (do gap; let v ← value; gap; return v) (Scan.char ','))
  if items.isSome then
    let _ ← Scan.optional (Scan.char ',')
  gap
  Scan.char ']'
  return items.getD []

/-- A key, an equals sign and a value. -/
def pair (value : Scan Json) : Scan (List String × Json) := do
  let k ← key
  Scan.char '='
  blanks
  let v ← value
  return (k, v)

/-- The members of an inline table, up to its closing brace. -/
def inlineMembers (value : Scan Json) : Scan Members := do
  blanks
  let pairs ← Scan.optional
    (Scan.sepBy1 (do let p ← pair value; blanks; return p) (Scan.char ','))
  blanks
  Scan.char '\x7d'
  match (pairs.getD []).foldlM (fun m (k, v) => assign v k m) [] with
  | some members => return members
  | none => failure

/-- A value that has no values in it. -/
def scalar : Scan Json :=
  (do return .ofString (String.ofList (← string))) <|>
  word "true" (.bool true) <|> word "false" (.bool false) <|>
  number <|> specialFloat

/-- A value with arrays and inline tables nested in it up to a depth. -/
def value : Nat → Scan Json
  | 0 => scalar
  | depth + 1 =>
    (do Scan.char '['; return .arr (← arrayItems (value depth))) <|>
    (do Scan.char '\x7b'; return .obj (membersToJson (← inlineMembers (value depth)))) <|>
    scalar

/-- How deep arrays and inline tables may be nested. -/
def maxDepth : Nat := 79

/-- What a line says. -/
inductive Statement
  | pair (key : List String) (value : Json)
  | table (path : List String)
  | element (path : List String)
  | nothing

/-- The header of a table or of an element of an array of tables. -/
def header : Scan Statement :=
  (do
    Scan.text ['[', '[']
    let path ← key
    Scan.text [']', ']']
    return .element path) <|> do
  Scan.char '['
  Scan.notBefore (· == '[')
  let path ← key
  Scan.char ']'
  return .table path

/-- A line without its end. -/
def line : Scan Statement := do
  blanks
  let statement ← header <|> (do let (k, v) ← pair (value maxDepth); return .pair k v) <|>
    pure .nothing
  blanks
  let _ ← Scan.optional comment
  return statement

/-- The lines of a document. -/
def document : Scan (List Statement) := do
  let _ ← Scan.optional (Scan.char '\uFEFF')
  let statements ← Scan.sepBy1 line newline
  Scan.done
  return statements

/-- A document being read: the members of its root table and the path of the table that the last
header opened. -/
structure Draft where
  members : Members := []
  path : List String := []

/-- The draft after the header of a path, whose last key it gives a table. -/
def Draft.openAt (d : Draft) (change : String → Members → Option Members) (path : List String) :
    Option Draft :=
  match path.getLast? with
  | some key => (within (change key) path.dropLast d.members).map fun m => ⟨m, path⟩
  | none => some d

/-- The draft after a further line. -/
def Draft.add (d : Draft) : Statement → Option Draft
  | .pair k v => (within (assign v k) d.path d.members).map fun m => { d with members := m }
  | .table path => d.openAt openTable path
  | .element path => d.openAt openElement path
  | .nothing => some d

/-- The object that a document describes. -/
def parse? (s : List Char) : Option Json := do
  let (statements, _) ← document s
  let draft ← statements.foldlM Draft.add {}
  return .obj (membersToJson draft.members)

end RootCause.Toml
