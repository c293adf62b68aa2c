/-!
# Scanning

A scanner takes something off the start of a text or fails. This module has the scanners for single
characters and fixed texts, repetition and choice, and the blanks, comments and ends of lines of
TOML.
-/

namespace RootCause.Toml

/-- A scanner. -/
abbrev Scan (α : Type) := StateT (List Char) Option α

namespace Scan

/-- Takes one character that satisfies `p`. -/
def satisfying (p : Char → Bool) : Scan Char := fun s =>
  match s with
  | c :: s => if p c then some (c, s) else none
  | [] => none

/-- Takes the character `c`. -/
def char (c : Char) : Scan Unit := do
  let _ ← satisfying (· == c)

/-- Takes a fixed text. -/
def text : List Char → Scan Unit
  | [] => pure ()
  | c :: cs => do
    char c
    text cs

/-- Takes the longest run of characters that satisfy `p`. -/
def run (p : Char → Bool) : Scan (List Char) := fun s => some (s.takeWhile p, s.dropWhile p)

/-- Takes the longest run of characters that satisfy `p`, and at least one. -/
def run1 (p : Char → Bool) : Scan (List Char) := do
  let c ← satisfying p
  return c :: (← run p)

/-- Takes nothing, at the end of the text. -/
def done : Scan Unit := fun s => if s.isEmpty then some ((), s) else none

/-- Takes nothing, unless the next character satisfies `p`. -/
def notBefore (p : Char → Bool) : Scan Unit := fun s =>
  if s.head?.any p then none else some ((), s)

/-- Takes what `p` takes if it succeeds, and else nothing. -/
def optional {α : Type} (p : Scan α) : Scan (Option α) := fun s =>
  match p s with
  | some (a, s) => some (some a, s)
  | none => some (none, s)

/-- Takes what `p` takes, at most `n` times and as long as it succeeds. -/
def repeatUpTo {α : Type} (p : Scan α) : Nat → Scan (List α)
  | 0 => pure []
  | n + 1 => do
    match ← optional p with
    | some a => return a :: (← repeatUpTo p n)
    | none => return []

/-- Takes what `p` takes as long as it succeeds, where each time takes at least one character. -/
def many {α : Type} (p : Scan α) : Scan (List α) := do
  repeatUpTo p (← get).length

/-- Takes exactly `n` characters that satisfy `p`. -/
def exactly (p : Char → Bool) : Nat → Scan (List Char)
  | 0 => pure []
  | n + 1 => do
    let c ← satisfying p
    return c :: (← exactly p n)

/-- Takes one or more things with separators between them. -/
def sepBy1 {α : Type} (item : Scan α) (separator : Scan Unit) : Scan (List α) := do
  let first ← item
  let rest ← many do
    separator
    item
  return first :: rest

end Scan

/-! ## Blanks and ends of lines -/

/-- The characters between tokens on a line. -/
def isBlank (c : Char) : Bool := c == ' ' || c == '\t'

/-- Whether a character may stand in a comment or in a string: tabs, what is printable, and all
beyond the ASCII characters. -/
def isPrintable (c : Char) : Bool := c == '\t' || (' ' ≤ c && c != '\x7f')

/-- The blanks on a line. -/
def blanks : Scan Unit := do
  let _ ← Scan.run isBlank

/-- The end of a line. -/
def newline : Scan Unit := Scan.char '\n' <|> Scan.text ['\r', '\n']

/-- A comment, up to the end of its line. -/
def comment : Scan Unit := do
  Scan.char '#'
  let _ ← Scan.run isPrintable

/-- Blanks, comments and ends of lines, as they may stand between the items of an array. -/
def gap : Scan Unit := do
  let _ ← Scan.many ((do let _ ← Scan.run1 isBlank) <|> newline <|> comment)

end RootCause.Toml
