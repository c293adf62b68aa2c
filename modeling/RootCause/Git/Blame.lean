import RootCause.Text.Blank
import RootCause.Text.Lines
import RootCause.Text.Search

/-!
# Blame

The commit that last touched a line, as the porcelain format of `git blame` tells it: the commit's
hash is the first word of the first line, headers follow, and a line that starts with a tab ends
them. A hash of zeros stands for a line that is not committed yet.
-/

namespace RootCause.Git

/-- The commit that last touched a line. -/
structure Blame where
  commit : List Char
  author : List Char
  summary : List Char
  deriving DecidableEq, Repr

/-- The last value of the header `name`, or the empty text. -/
def header (name : String) (headers : List (List Char)) : List Char :=
  (headers.filterMap (Text.stripStart? (name.toList ++ [' ']))).getLast?.getD []

/-- Reads the blame of a line. -/
def Blame.read? (text : List Char) : Option Blame :=
  match Text.lines text with
  | [] => none
  | first :: rest =>
    match Text.words first with
    | [] => none
    | commit :: _ =>
      if commit.all (· = '0') then none
      else
        let headers := rest.takeWhile fun line => line.head? ≠ some '\t'
        some ⟨commit, header "author" headers, header "summary" headers⟩

end RootCause.Git
