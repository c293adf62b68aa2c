import RootCause.Json.Token
import RootCause.Toml.Scan

/-!
# TOML strings and keys

Strings in single or double quotes, one or three of them: escapes count within double quotes only,
and only strings in three quotes go over several lines. The newline right after three opening
quotes is dropped, an end of line within them is a newline however it is written, and a backslash at
the end of a line takes away all blanks up to the next text.
-/

namespace RootCause.Toml

/-- The character with this number, if there is one. -/
def scalar? (n : Nat) : Option Char :=
  if n < 0xD800 ∨ (0xDFFF < n ∧ n < 0x110000) then some (Char.ofNat n) else none

/-- The character that `n` hexadecimal digits name. -/
def hexCharacter (n : Nat) : Scan Char := do
  let digits ← Scan.exactly (fun c => (Json.hexValue? c).isSome) n
  let value := digits.foldl (fun v c => v * 16 + (Json.hexValue? c).getD 0) 0
  match scalar? value with
  | some c => return c
  | none => failure

/-- What follows a backslash and stands for a character. -/
def escaped : Scan Char := do
  let c ← Scan.satisfying fun _ => true
  match c with
  | 'b' => return '\x08'
  | 't' => return '\t'
  | 'n' => return '\n'
  | 'f' => return '\x0c'
  | 'r' => return '\r'
  | '\x22' => return '\x22'
  | '\\' => return '\\'
  | 'u' => hexCharacter 4
  | 'U' => hexCharacter 8
  | _ => failure

/-- A character in double quotes. -/
def basicCharacter : Scan Char :=
  Scan.satisfying (fun c => isPrintable c && c != '\x22' && c != '\\') <|> do
    Scan.char '\\'
    escaped

/-- A string in double quotes. -/
def basicString : Scan (List Char) := do
  Scan.char '\x22'
  let s ← Scan.many basicCharacter
  Scan.char '\x22'
  return s

/-- A string in single quotes. -/
def literalString : Scan (List Char) := do
  Scan.char '\x27'
  let s ← Scan.run fun c => isPrintable c && c != '\x27'
  Scan.char '\x27'
  return s

/-- Three quotes. -/
def tripleQuote (quote : Char) : List Char := [quote, quote, quote]

/-- One or two quotes inside a string in three quotes. -/
def innerQuotes (quote : Char) : Scan (List Char) := fun s =>
  let n := (s.takeWhile (· == quote)).length
  if n = 1 ∨ n = 2 then some (List.replicate n quote, s.drop n) else none

/-- The quotes that end a string in three quotes; up to two before them belong to the string. -/
def closingQuotes (quote : Char) : Scan (List Char) := fun s =>
  let n := (s.takeWhile (· == quote)).length
  if n < 3 then none
  else
    let inner := min 2 (n - 3)
    some (List.replicate inner quote, s.drop (inner + 3))

/-- A backslash at the end of a line and the blanks after it. -/
def lineContinuation : Scan (List Char) := do
  Scan.char '\\'
  blanks
  newline
  let _ ← Scan.many ((do let _ ← Scan.run1 isBlank) <|> newline)
  return []

/-- An end of line inside a string. -/
def innerNewline : Scan (List Char) := do
  newline
  return ['\n']

/-- A string in three quotes, made of some pieces besides ends of lines and quotes. -/
def multilineString (quote : Char) (piece : Scan (List Char)) : Scan (List Char) := do
  Scan.text (tripleQuote quote)
  let _ ← Scan.optional newline
  let pieces ← Scan.many (piece <|> innerNewline <|> innerQuotes quote)
  return pieces.flatten ++ (← closingQuotes quote)

/-- A string in three double quotes. -/
def multilineBasicString : Scan (List Char) :=
  multilineString '\x22' (lineContinuation <|> do return [← basicCharacter])

/-- A string in three single quotes. -/
def multilineLiteralString : Scan (List Char) :=
  multilineString '\x27' (Scan.run1 fun c => isPrintable c && c != '\x27')

/-- A string. -/
def string : Scan (List Char) := fun s =>
  if (tripleQuote '\x22').isPrefixOf s then multilineBasicString s
  else if (tripleQuote '\x27').isPrefixOf s then multilineLiteralString s
  else (basicString <|> literalString) s

/-- Whether a character may stand in a key without quotes. -/
def isBare (c : Char) : Bool := c.isAlphanum || c == '-' || c == '_'

/-- A key without dots. -/
def simpleKey : Scan String := do
  let s ← basicString <|> literalString <|> Scan.run1 isBare
  return String.ofList s

/-- The number of parts that a key may have. -/
def maxKeyParts : Nat := 79

/-- A key, with dots between its parts. -/
def key : Scan (List String) := do
  let parts ← Scan.sepBy1 (do blanks; let k ← simpleKey; blanks; return k) (Scan.char '.')
  if parts.length ≤ maxKeyParts then return parts else failure

end RootCause.Toml
