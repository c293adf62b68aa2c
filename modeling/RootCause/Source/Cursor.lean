import RootCause.Source.Tree
import RootCause.Text.Utf8
import RootCause.Text.Blank
import RootCause.Text.Search

/-!
# Cursors

A cursor is a place in a source text in front of a token, together with what is known about the gap
between it and the token before: whether a line ends there, and where a semicolon would stand that
is put in for the end of the line. A `Parse` takes a cursor further or fails.
-/

namespace RootCause.Source

/-- A place in a source text. -/
structure Cursor where
  /-- The text from the place on. -/
  rest : List Char
  /-- The offset of the place. -/
  pos : Nat
  /-- The offset after the last token. -/
  stop : Nat
  /-- Whether a line ends between the last token and the place. -/
  newline : Bool
  /-- The offset after the last token and the comments that follow it on its line. -/
  seam : Nat
  deriving Repr

/-- A way to read part of a text. -/
abbrev Parse (α : Type) := StateT Cursor Option α

/-! ## Gaps -/

/-- Whether a character is a blank between tokens. -/
def isGap (c : Char) : Bool :=
  Text.isBlank c || c = '\u2060' || c = '\u200B' || c = '\uFEFF'

/-- Whether a comment that runs to the end of the line ends in front of a character. -/
def endsLineComment (c : Char) : Bool :=
  c = '\n' || c = '\r' || c = '\u2028' || c = '\u2029'

/-- The length in octets of the rest of a comment that ends with a star and a slash, and the text
after it. -/
def blockComment : List Char → Nat × List Char
  | [] => (0, [])
  | '*' :: '/' :: s => (2, s)
  | c :: s =>
    let (n, rest) := blockComment s
    (c.utf8Size + n, rest)

theorem length_blockComment_le (s : List Char) : (blockComment s).2.length ≤ s.length := by
  fun_induction blockComment s with
  | case1 => simp
  | case2 => simp only [List.length_cons]; omega
  | case3 c s _ n rest h ih => simp only [List.length_cons]; simp only [h] at ih; omega

/-- The cursor after blanks and comments. -/
def skipGap (c : Cursor) : Cursor :=
  match h : c.rest with
  | '/' :: '/' :: s =>
    let body := s.takeWhile fun x => !endsLineComment x
    let pos := c.pos + 2 + Text.byteLength body
    skipGap { c with
      rest := s.dropWhile fun x => !endsLineComment x
      pos := pos
      seam := if c.newline then c.seam else pos }
  | '/' :: '*' :: s =>
    let body := blockComment s
    let pos := c.pos + 2 + body.1
    skipGap { c with rest := body.2, pos := pos, seam := if c.newline then c.seam else pos }
  | x :: s =>
    if isGap x then
      skipGap { c with
        rest := s, pos := c.pos + x.utf8Size, newline := c.newline || x == '\n' }
    else c
  | [] => c
termination_by c.rest.length
decreasing_by
  · have := (List.dropWhile_suffix (fun x => !endsLineComment x) (l := s)).length_le
    simp only [h, List.length_cons]; omega
  · have := length_blockComment_le s
    simp only [h, List.length_cons]
    omega
  · simp [h]

/-- The cursor at the start of a text. -/
def Cursor.start (s : List Char) : Cursor := skipGap ⟨s, 0, 0, false, 0⟩

namespace Parse

/-- The cursor. -/
def here : Parse Cursor := get

/-- The text from the cursor on. -/
def rest : Parse (List Char) := return (← get).rest

/-- No way to go on. -/
def fail {α : Type} : Parse α := fun _ => none

/-- Goes on only if `b` holds. -/
def require (b : Bool) : Parse Unit := if b then pure () else fail

/-- The first `n` characters, without the gap after them. -/
def takeRaw (n : Nat) : Parse (List Char) := do
  let c ← get
  let taken := c.rest.take n
  let pos := c.pos + Text.byteLength taken
  set { c with rest := c.rest.drop n, pos := pos, stop := pos, newline := false, seam := pos }
  return taken

/-- Passes over a gap. -/
def gap : Parse Unit := modify skipGap

/-- A token of `n` characters. -/
def take (n : Nat) : Parse (List Char) := do
  let taken ← takeRaw n
  gap
  return taken

/-- What `p` reads, or nothing read. -/
def option {α : Type} (p : Parse α) : Parse (Option α) := (some <$> p) <|> pure none

/-- Whether `p` can go on from here; nothing is read. -/
def ahead {α : Type} (p : Parse α) : Parse Bool := do
  let c ← get
  return (p.run c).isSome

/-- At most `n` readings of `p`, as many as there are. -/
def upTo {α : Type} (p : Parse α) : Nat → Parse (List α)
  | 0 => pure []
  | n + 1 => (do let a ← p; let l ← upTo p n; return a :: l) <|> pure []

/-- Readings of `p`, each of which takes at least one character, as many as there are. -/
def many {α : Type} (p : Parse α) : Parse (List α) := do
  upTo p (← rest).length

/-- Readings of `p` with readings of `separator` between them, which are dropped. -/
def sepBy {α β : Type} (p : Parse α) (separator : Parse β) : Parse (List α) :=
  (do
    let a ← p
    let l ← many (do let _ ← separator; p)
    return a :: l) <|> pure []

end Parse

end RootCause.Source
