import RootCause.Git.History
import RootCause.Proofs.Text.Splitting

/-!
# Histories read back

A history is written with one commit on a line (`Commit.line`), between other lines or not
(`HistoryLine`). What is cut off in front of the message is what the commit was written with
(`read?_line`), whatever the message holds, and a line is no record if and only if it has less than
three separators (`read?_eq_none_iff`). So a history is read back as the commits that were written,
in their order (`readHistory_text`).
-/

namespace RootCause.Git

open Text

/-- A text that stands in front of a separator on a line. -/
structure IsField (s : List Char) : Prop where
  separator : unitSeparator ∉ s
  newline : '\n' ∉ s

namespace Commit

/-- A commit can stand on a line. Its message may hold separators, but a carriage return at its end
would be taken for one at the end of the line. -/
structure FitsLine (c : Commit) : Prop where
  hash : IsField c.hash
  author : IsField c.author
  date : IsField c.date
  newline : '\n' ∉ c.message
  carriageReturn : c.message.getLast? ≠ some '\r'

/-- How a commit is written. -/
def line (c : Commit) : List Char :=
  c.hash ++ unitSeparator ::
    (c.author ++ unitSeparator :: (c.date ++ unitSeparator :: c.message))

variable {c : Commit}

theorem read?_line (h : c.FitsLine) : read? c.line = some c := by
  have hsplit : splitAtMost unitSeparator 4 c.line = [c.hash, c.author, c.date, c.message] := by
    rw [line, splitAtMost_append_cons h.hash.separator, splitAtMost_append_cons h.author.separator,
      splitAtMost_append_cons h.date.separator]
    rfl
  simp only [read?, hsplit]

/-- A line is a record unless there are too few separators in it. -/
theorem read?_eq_none_iff {l : List Char} : read? l = none ↔ l.count unitSeparator < 3 := by
  have hlength : (splitAtMost unitSeparator 4 l).length = min 3 (l.count unitSeparator) + 1 :=
    length_splitAtMost unitSeparator 3 l
  unfold read?
  split
  next hash author date message hsplit =>
    rw [hsplit, List.length_cons, List.length_cons, List.length_cons, List.length_singleton]
      at hlength
    simp only [reduceCtorEq, false_iff]
    omega
  next hother =>
    have hne : (splitAtMost unitSeparator 4 l).length ≠ 4 := fun hfour => by
      obtain ⟨hash, author, date, message, hsplit⟩ := List.length_eq_four.mp hfour
      exact hother hash author date message hsplit
    simp only [true_iff]
    omega

theorem newline_notMem_line (h : c.FitsLine) : '\n' ∉ c.line := by
  have hseparator : '\n' ≠ unitSeparator := by decide
  simp only [line, List.mem_append, List.mem_cons, not_or]
  exact ⟨h.hash.newline, hseparator, h.author.newline, hseparator, h.date.newline, hseparator,
    h.newline⟩

theorem dropReturn_line (h : c.FitsLine) : dropReturn c.line = c.line := by
  have hmessage : dropReturn (unitSeparator :: c.message) = unitSeparator :: c.message := by
    rw [dropReturn_cons (by decide), dropReturn_of_getLast?_ne h.carriageReturn]
  have hline : c.line = (c.hash ++ unitSeparator :: (c.author ++ unitSeparator :: c.date)) ++
      unitSeparator :: c.message := by
    simp [line]
  rw [hline, dropReturn_append _ (List.cons_ne_nil _ _), hmessage]

end Commit

/-! ## Commits between other lines -/

/-- A line of a history. -/
inductive HistoryLine
  /-- A commit. -/
  | record (c : Commit) (h : c.FitsLine)
  /-- Another line, which may be empty. -/
  | other (l : List Char) (newline : '\n' ∉ l) (separators : l.count unitSeparator < 3)

namespace HistoryLine

/-- How a line is written. -/
def line : HistoryLine → List Char
  | record c _ => c.line
  | other l _ _ => l

/-- The commit on a line. -/
def commit? : HistoryLine → Option Commit
  | record c _ => some c
  | other _ _ _ => none

/-- The text of a history. -/
def text (ls : List HistoryLine) : List Char := unlines (ls.map line)

theorem newline_notMem_line (l : HistoryLine) : '\n' ∉ l.line := by
  cases l with
  | record c h => exact Commit.newline_notMem_line h
  | other l newline _ => exact newline

theorem read?_dropReturn_line (l : HistoryLine) : Commit.read? (dropReturn l.line) = l.commit? := by
  cases l with
  | record c h =>
    rw [line, Commit.dropReturn_line h, Commit.read?_line h]
    rfl
  | other l _ separators =>
    have hle : (dropReturn l).count unitSeparator ≤ l.count unitSeparator :=
      (dropReturn_prefix_self l).sublist.count_le _
    exact Commit.read?_eq_none_iff.mpr (hle.trans_lt separators)

end HistoryLine

/-- **A history is read back as the commits that were written**, all of them and in their order,
whatever other lines stand between them. -/
theorem readHistory_text (ls : List HistoryLine) :
    readHistory (HistoryLine.text ls) = ls.filterMap HistoryLine.commit? := by
  have hnewline : ∀ l ∈ ls.map HistoryLine.line, '\n' ∉ l :=
    List.forall_mem_map.mpr fun l _ => l.newline_notMem_line
  rw [readHistory, HistoryLine.text, lines_unlines hnewline, List.map_map, List.filterMap_map]
  exact List.filterMap_congr fun l _ => l.read?_dropReturn_line

end RootCause.Git
