/-!
# Searching a text

Where a piece occurs in a text, and the text before and after it.
-/

namespace RootCause.Text

/-- What is left of a text that starts with `piece`. -/
def stripStart? : List Char → List Char → Option (List Char)
  | [], s => some s
  | _ :: _, [] => none
  | p :: ps, c :: s => if p = c then stripStart? ps s else none

/-- What is before and after the first occurrence of `piece`. -/
def splitOnce? (piece : List Char) : List Char → Option (List Char × List Char)
  | [] => if piece.isEmpty then some ([], []) else none
  | c :: s =>
    match stripStart? piece (c :: s) with
    | some rest => some ([], rest)
    | none => (splitOnce? piece s).map fun (before, after) => (c :: before, after)

/-- What is before and after the last occurrence of the character `c`. -/
def splitLast? (c : Char) (s : List Char) : Option (List Char × List Char) :=
  (splitOnce? [c] s.reverse).map fun (after, before) => (before.reverse, after.reverse)

/-- Whether `piece` occurs in a text. -/
def occurs (piece s : List Char) : Bool :=
  (splitOnce? piece s).isSome

/-- The pieces of a text between occurrences of `c`, of which there are at most `limit`: the last
one keeps the occurrences that are left. -/
def splitAtMost (c : Char) : Nat → List Char → List (List Char)
  | 0, _ => []
  | 1, s => [s]
  | n + 2, s =>
    match splitOnce? [c] s with
    | none => [s]
    | some (before, after) => before :: splitAtMost c (n + 1) after

/-- Whether a text ends with `piece`. -/
def endsWith (piece s : List Char) : Bool :=
  piece.isSuffixOf s

@[simp] theorem stripStart?_append (p s : List Char) : stripStart? p (p ++ s) = some s := by
  induction p with
  | nil => rfl
  | cons c p ih => simp [stripStart?, ih]

theorem eq_append_of_stripStart? {p s r : List Char} (h : stripStart? p s = some r) :
    s = p ++ r := by
  induction p generalizing s with
  | nil => simpa [stripStart?] using h
  | cons c p ih =>
    cases s with
    | nil => simp [stripStart?] at h
    | cons d s =>
      by_cases hc : c = d
      · subst hc
        simp only [stripStart?, if_true] at h
        simp [ih h]
      · simp [stripStart?, hc] at h

end RootCause.Text
