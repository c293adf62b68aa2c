/-!
# Blank characters

The characters of the Unicode property `White_Space`, and the ways to cut them off a text. The
property has twenty-five members, of which core's `Char.isWhitespace` knows four: the lemma
`isBlank_of_isWhitespace` says that none of those is missed.
-/

namespace RootCause.Text

/-- Whether a character has the Unicode property `White_Space`. -/
def isBlank (c : Char) : Bool :=
  let n := c.toNat
  (0x09 ≤ n && n ≤ 0x0D) || n == 0x20 || n == 0x85 || n == 0xA0 || n == 0x1680 ||
    (0x2000 ≤ n && n ≤ 0x200A) || n == 0x2028 || n == 0x2029 || n == 0x202F || n == 0x205F ||
    n == 0x3000

theorem isBlank_of_isWhitespace {c : Char} (h : c.isWhitespace = true) : isBlank c = true := by
  simp only [Char.isWhitespace, Bool.or_eq_true, decide_eq_true_eq] at h
  rcases h with ((rfl | rfl) | rfl) | rfl <;> decide

/-- The text without the blanks it starts with. -/
def trimStart (s : List Char) : List Char :=
  s.dropWhile isBlank

/-- The text without the characters at its end that satisfy `p`. -/
def dropEndWhile (p : Char → Bool) (s : List Char) : List Char :=
  (s.reverse.dropWhile p).reverse

/-- The text without the blanks it ends with. -/
def trimEnd (s : List Char) : List Char :=
  dropEndWhile isBlank s

/-- The text without the blanks at either end. -/
def trim (s : List Char) : List Char :=
  trimEnd (trimStart s)

/-- The text without the characters at either end that satisfy `p`. -/
def trimMatches (p : Char → Bool) (s : List Char) : List Char :=
  dropEndWhile p (s.dropWhile p)

/-- The maximal runs of characters that are not blank. -/
def words (s : List Char) : List (List Char) :=
  (s.splitOnP isBlank).filter (fun w => !w.isEmpty)

end RootCause.Text
