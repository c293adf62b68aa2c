import RootCause.Text.Blank
import RootCause.Text.Search
import RootCause.Text.Decimal

/-!
# Lines of a unified diff

The first character of a line in a hunk is its sign; added and context lines exist in the new file
and are numbered there, from the number that the hunk's header gives.
-/

namespace RootCause.Diff

/-- The sign that a line starts with. -/
inductive Sign
  | added
  | removed
  | context
  | hunk
  /-- A remark about the line before, such as a missing newline. -/
  | marker
  deriving DecidableEq, Repr

/-- How a sign is written. -/
def Sign.char : Sign → Char
  | .added => '+'
  | .removed => '-'
  | .context => ' '
  | .hunk => '@'
  | .marker => '\\'

/-- The sign that a character is. -/
def Sign.ofChar? (c : Char) : Option Sign :=
  if c = '+' then some .added
  else if c = '-' then some .removed
  else if c = ' ' then some .context
  else if c = '@' then some .hunk
  else if c = '\\' then some .marker
  else none

/-- The name of a sign. -/
def Sign.name : Sign → String
  | .added => "added"
  | .removed => "removed"
  | .context => "context"
  | .hunk => "hunk"
  | .marker => "marker"

/-- Whether a line with this sign exists in the new file. -/
def Sign.inNew : Sign → Bool
  | .added | .context => true
  | _ => false

@[simp] theorem Sign.ofChar?_char (s : Sign) : Sign.ofChar? s.char = some s := by
  cases s <;> decide

theorem Sign.ofChar?_eq_some_iff {c : Char} {s : Sign} :
    Sign.ofChar? c = some s ↔ c = s.char := by
  constructor
  · intro h
    unfold Sign.ofChar? at h
    repeat' split at h
    all_goals first | (cases h; assumption) | cases h
  · rintro rfl
    exact Sign.ofChar?_char s

/-- A line in the body of a hunk. -/
structure Line where
  /-- The line as it stands in the diff. -/
  raw : List Char
  sign : Option Sign
  /-- The line's number in the new file, for lines that exist there. -/
  newLine : Option Nat
  /-- The line without its sign. -/
  content : List Char
  deriving DecidableEq, Repr

/-- The sign of a line, if it starts with one. -/
def sign? (raw : List Char) : Option Sign := raw.head?.bind Sign.ofChar?

/-- Whether a line exists in the new file. -/
def isNew (raw : List Char) : Bool := (sign? raw).any Sign.inNew

/-- The line that `raw` is where the next line of the new file has the number `next`. -/
def Line.read (next : Nat) (raw : List Char) : Line where
  raw := raw
  sign := sign? raw
  newLine := if isNew raw then some next else none
  content := if (sign? raw).isSome then raw.tail else raw

/-- Whether a line starts a hunk. -/
def isHeader (raw : List Char) : Bool := (Text.stripStart? ['@', '@'] raw).isSome

/-- Whether a line starts the part of a diff that is about another file. -/
def isFileStart (raw : List Char) : Bool := (Text.stripStart? "diff --git ".toList raw).isSome

/-- The number in a header's range of new lines: the first word with a plus sign in front, up to
its comma. -/
def declaredStart? (header : List Char) : Option Nat := do
  let newRange ← (Text.words header).findSome? (Text.stripStart? ['+'])
  Text.number? (newRange.takeWhile (· != ','))

/-- The number of the first new line of a hunk. A header that declares none is given zero, so that
its first line has no number that is asked for. -/
def newStart (header : List Char) : Nat := (declaredStart? header).getD 0

theorem newStart_lt (header : List Char) : newStart header < Text.wordSize := by
  rw [newStart]
  cases hstart : declaredStart? header with
  | none => decide
  | some n =>
    obtain ⟨range, -, hn⟩ := Option.bind_eq_some_iff.mp hstart
    exact Text.lt_of_number? hn

end RootCause.Diff
