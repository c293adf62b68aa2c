import RootCause.Text.Lines
import RootCause.Text.Search

/-!
# Line history

The commits that changed a line, one record a line, with the unit separator U+001F between hash,
author, date and message. The message may hold the separator; a line with too few fields is no
record.
-/

namespace RootCause.Git

/-- A commit that changed a line. -/
structure Commit where
  hash : List Char
  author : List Char
  date : List Char
  message : List Char
  deriving DecidableEq, Repr

/-- What stands between the fields of a record. -/
def unitSeparator : Char := '\x1f'

/-- The pretty-printing format that asks for records. -/
def Commit.format : String := "%H%x1f%an%x1f%as%x1f%s"

/-- Reads a record. -/
def Commit.read? (line : List Char) : Option Commit :=
  match Text.splitAtMost unitSeparator 4 line with
  | [hash, author, date, message] => some ⟨hash, author, date, message⟩
  | _ => none

/-- Reads the records of a history. -/
def readHistory (text : List Char) : List Commit := (Text.lines text).filterMap Commit.read?

end RootCause.Git
