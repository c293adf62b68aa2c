import RootCause.Json.Value

/-!
# Writing JSON

The compact form: no blanks between tokens. In a string a quote and a backslash are escaped, the
control characters that have a short escape take it, the others are written as `\u00` and two
digits, and all else stands as it is.
-/

namespace RootCause.Json

/-- A hexadecimal digit, in lower case. -/
def hexDigit (n : Nat) : Char := Nat.digitChar n

/-- How a character is written inside a string. -/
def escape (c : Char) : List Char :=
  if c = '\x22' then ['\\', '\x22']
  else if c = '\\' then ['\\', '\\']
  else if c = '\x08' then ['\\', 'b']
  else if c = '\t' then ['\\', 't']
  else if c = '\n' then ['\\', 'n']
  else if c = '\x0c' then ['\\', 'f']
  else if c = '\r' then ['\\', 'r']
  else if c.toNat < 0x20 then
    ['\\', 'u', '0', '0', hexDigit (c.toNat / 16), hexDigit (c.toNat % 16)]
  else [c]

/-- A string in quotes. One without a text is written as an escape that leaves it without one. -/
def quote : Text → List Char
  | some s => '\x22' :: s.toList.flatMap escape ++ ['\x22']
  | none => "\"\\ud800\"".toList

mutual

/-- The compact form of a value. -/
def render : Json → List Char
  | .null => "null".toList
  | .bool true => "true".toList
  | .bool false => "false".toList
  | .num literal => literal.toList
  | .str text => quote text
  | .arr [] => ['[', ']']
  | .arr (v :: vs) => '[' :: render v ++ renderItems vs
  | .obj [] => ['{', '}']
  | .obj ((name, v) :: members) => '{' :: quote name ++ ':' :: render v ++ renderMembers members

/-- The rest of an array after an item. -/
def renderItems : List Json → List Char
  | [] => [']']
  | v :: vs => ',' :: render v ++ renderItems vs

/-- The rest of an object after a member. -/
def renderMembers : List (Text × Json) → List Char
  | [] => ['}']
  | (name, v) :: members => ',' :: quote name ++ ':' :: render v ++ renderMembers members

end

/-- The compact form of a value, as a string. -/
def compact (v : Json) : String := String.ofList v.render

end RootCause.Json
