import RootCause.Diff.Snippet
import RootCause.Proofs.Text.ReadBack

/-!
# Patches

A unified diff as a syntax tree: lines before the first hunk, and hunks, each with the lines after
it that start the part about another file. `Patch.text` writes it down, and `Patch.Describes` says
that its context and added lines are those of a file.

The header of a hunk says where its lines are (`newStart_header`), and every line of its body is
read back as what it is (`Change.read_raw`).
-/

namespace RootCause.Diff

open Text

/-! ## The syntax tree -/

/-- A line in the body of a hunk. -/
structure Change where
  sign : Sign
  /-- The line without its sign. -/
  text : List Char
  sign_ne_hunk : sign ≠ .hunk := by decide
  deriving DecidableEq

/-- The first line and the number of lines of a hunk in a file, where one line needs no number. -/
structure Extent where
  start : Nat
  count : Option Nat := none
  deriving DecidableEq

/-- A hunk, with the lines that stand between it and the next one. -/
structure Hunk where
  old : Extent
  new : Extent
  /-- The rest of the header. -/
  heading : List Char := []
  changes : List Change
  after : List (List Char) := []
  deriving DecidableEq

/-- A unified diff. -/
structure Patch where
  /-- The lines before the first hunk. -/
  preamble : List (List Char) := []
  hunks : List Hunk
  deriving DecidableEq

namespace Change

/-- How the line is written. -/
def raw (c : Change) : List Char := c.sign.char :: c.text

/-- The line of the new file, if it is one. -/
def newLine? (c : Change) : Option (List Char) := if c.sign.inNew then some c.text else none

/-- The line without a carriage return at its end. -/
def trimmed (c : Change) : Change := { c with text := dropReturn c.text }

end Change

/-- How an extent is written: its number of lines follows a comma. -/
def Extent.text (e : Extent) : List Char :=
  decimal e.start ++ (e.count.map fun n => ',' :: decimal n).getD []

namespace Hunk

/-- How the header is written. -/
def header (h : Hunk) : List Char :=
  ['@', '@', ' ', '-'] ++ h.old.text ++ [' ', '+'] ++ h.new.text ++ [' ', '@', '@'] ++ h.heading

/-- The lines of the new file in the hunk. -/
def newLines (h : Hunk) : List (List Char) := h.changes.filterMap Change.newLine?

/-- Whether a line of the new file, counted from 1, is in the hunk. -/
def covers (h : Hunk) (t : Nat) : Bool :=
  h.new.start ≤ t ∧ t < h.new.start + h.newLines.length

/-- The hunk's lines and those after it. -/
def lines (h : Hunk) : List (List Char) := h.header :: (h.changes.map Change.raw ++ h.after)

/-- The hunk carries the lines of a file from the one on at which it starts, and their numbers are
words. After it there is nothing or what starts the part about another file. -/
structure Describes (file : List (List Char)) (h : Hunk) : Prop where
  start_pos : 1 ≤ h.new.start
  start_lt : h.new.start < wordSize
  end_le : h.new.start + h.newLines.length ≤ wordSize
  newLines : h.newLines <+: file.drop (h.new.start - 1)
  after : ∀ l ∈ h.after, ¬ ['@', '@'] <+: l
  after_start : ∀ l ∈ h.after.head?, "diff --git ".toList <+: l

instance (file : List (List Char)) (h : Hunk) : Decidable (h.Describes file) :=
  decidable_of_iff
    (1 ≤ h.new.start ∧ h.new.start < wordSize ∧ h.new.start + h.newLines.length ≤ wordSize ∧
      h.newLines <+: file.drop (h.new.start - 1) ∧ (∀ l ∈ h.after, ¬ ['@', '@'] <+: l) ∧
      ∀ l ∈ h.after.head?, "diff --git ".toList <+: l)
    ⟨fun ⟨h₁, h₂, h₃, h₄, h₅, h₆⟩ => ⟨h₁, h₂, h₃, h₄, h₅, h₆⟩,
      fun ⟨h₁, h₂, h₃, h₄, h₅, h₆⟩ => ⟨h₁, h₂, h₃, h₄, h₅, h₆⟩⟩

end Hunk

namespace Patch

/-- The lines of a patch. -/
def lines (p : Patch) : List (List Char) := p.preamble ++ p.hunks.flatMap Hunk.lines

/-- The text of a patch, in which every line is ended by a newline. -/
def text (p : Patch) : List Char := unlines p.lines

/-- The patch is well formed, and its hunks carry lines of a file. -/
structure Describes (file : List (List Char)) (p : Patch) : Prop where
  file_lines : ∀ l ∈ file, '\n' ∉ l ∧ l.getLast? ≠ some '\r'
  lines : ∀ l ∈ p.lines, '\n' ∉ l
  preamble : ∀ l ∈ p.preamble, ¬ ['@', '@'] <+: l
  hunks : ∀ h ∈ p.hunks, h.Describes file

instance (file : List (List Char)) (p : Patch) : Decidable (p.Describes file) :=
  decidable_of_iff
    ((∀ l ∈ file, '\n' ∉ l ∧ l.getLast? ≠ some '\r') ∧ (∀ l ∈ p.lines, '\n' ∉ l) ∧
      (∀ l ∈ p.preamble, ¬ ['@', '@'] <+: l) ∧ ∀ h ∈ p.hunks, h.Describes file)
    ⟨fun ⟨h₁, h₂, h₃, h₄⟩ => ⟨h₁, h₂, h₃, h₄⟩, fun ⟨h₁, h₂, h₃, h₄⟩ => ⟨h₁, h₂, h₃, h₄⟩⟩

end Patch

/-! ## Headers -/

theorem isHeader_iff {l : List Char} : isHeader l = true ↔ ['@', '@'] <+: l :=
  isSome_stripStart?_iff

theorem isFileStart_iff {l : List Char} : isFileStart l = true ↔ "diff --git ".toList <+: l :=
  isSome_stripStart?_iff

theorem isHeader_dropReturn {l : List Char} (h : ¬ ['@', '@'] <+: l) :
    isHeader (dropReturn l) = false := by
  rw [Bool.eq_false_iff, Ne, isHeader_iff]
  exact fun hpre => h (hpre.trans (dropReturn_prefix_self l))

theorem isFileStart_dropReturn {l : List Char} (h : "diff --git ".toList <+: l) :
    isFileStart (dropReturn l) = true := by
  obtain ⟨s, rfl⟩ := h
  rw [isFileStart_iff]
  cases s with
  | nil =>
    have hkeep : dropReturn "diff --git ".toList = "diff --git ".toList :=
      dropReturn_of_getLast?_ne (by decide)
    simp only [List.append_nil, hkeep, List.prefix_rfl]
  | cons c s =>
    rw [dropReturn_append _ (List.cons_ne_nil c s)]
    exact List.prefix_append _ _

theorem Extent.isBlank_of_mem_text {e : Extent} {c : Char} (h : c ∈ e.text) :
    isBlank c = false := by
  rcases List.mem_append.mp h with hstart | hcount
  · exact isBlank_of_isDigit (isDigit_of_mem_decimal hstart)
  · cases hn : e.count with
    | none => simp [hn] at hcount
    | some n =>
      simp only [hn, Option.map_some, Option.getD_some, List.mem_cons] at hcount
      rcases hcount with rfl | hcount
      · decide
      · exact isBlank_of_isDigit (isDigit_of_mem_decimal hcount)

theorem Extent.isBlank_of_mem_cons {e : Extent} {c d : Char} (hc : isBlank c = false)
    (h : d ∈ c :: e.text) : isBlank d = false := by
  rcases List.mem_cons.mp h with rfl | h
  · exact hc
  · exact isBlank_of_mem_text h

theorem Extent.takeWhile_text (e : Extent) : e.text.takeWhile (· != ',') = decimal e.start := by
  have hdigits : ∀ c ∈ decimal e.start, (c != ',') = true := by
    intro c hc
    have hdigit := isDigit_of_mem_decimal hc
    rw [bne_iff_ne]
    rintro rfl
    exact absurd hdigit (by decide)
  rw [Extent.text, List.takeWhile_append_of_pos hdigits]
  cases e.count with
  | none => simp
  | some n => simp

/-- The header word by word. A carriage return can be cut off only after the second `@@`. -/
theorem dropReturn_header (h : Hunk) :
    dropReturn h.header =
      ['@', '@'] ++ ' ' :: (('-' :: h.old.text) ++ ' ' :: (('+' :: h.new.text) ++
        ' ' :: dropReturn (['@', '@'] ++ h.heading))) := by
  have hcut : h.header =
      (['@', '@', ' ', '-'] ++ h.old.text ++ [' ', '+'] ++ h.new.text) ++
        (' ' :: (['@', '@'] ++ h.heading)) := by
    simp [Hunk.header]
  rw [hcut, dropReturn_append _ (List.cons_ne_nil _ _), dropReturn_cons (by decide)]
  simp

theorem isHeader_header (h : Hunk) : isHeader (dropReturn h.header) = true := by
  rw [isHeader_iff, dropReturn_header]
  exact List.prefix_append _ _

theorem newStart_header (h : Hunk) (hlt : h.new.start < wordSize) :
    newStart (dropReturn h.header) = h.new.start := by
  have hopen : ∀ d ∈ ['@', '@'], isBlank d = false := by
    intro d hd
    obtain rfl : d = '@' := by simpa using hd
    decide
  have hold : ∀ d ∈ '-' :: h.old.text, isBlank d = false := fun _ =>
    Extent.isBlank_of_mem_cons (by decide)
  have hnew : ∀ d ∈ '+' :: h.new.text, isBlank d = false := fun _ =>
    Extent.isBlank_of_mem_cons (by decide)
  have hwords : words (dropReturn h.header) =
      ['@', '@'] :: ('-' :: h.old.text) :: ('+' :: h.new.text) ::
        words (dropReturn (['@', '@'] ++ h.heading)) := by
    rw [dropReturn_header, words_append_blank hopen (List.cons_ne_nil _ _) (by decide),
      words_append_blank hold (List.cons_ne_nil _ _) (by decide),
      words_append_blank hnew (List.cons_ne_nil _ _) (by decide)]
  have hdeclared : declaredStart? (dropReturn h.header) = some h.new.start := by
    simp [declaredStart?, hwords, stripStart?, Extent.takeWhile_text, number?_decimal hlt]
  rw [newStart, hdeclared, Option.getD_some]

/-! ## Lines of a hunk -/

namespace Change

theorem sign?_raw (c : Change) : sign? c.raw = some c.sign :=
  Sign.ofChar?_char c.sign

theorem isNew_raw (c : Change) : isNew c.raw = c.sign.inNew := by
  rw [isNew, sign?_raw, Option.any_some]

theorem read_raw (next : Nat) (c : Change) :
    Line.read next c.raw =
      ⟨c.raw, some c.sign, if c.sign.inNew then some next else none, c.text⟩ := by
  simp only [Line.read, isNew_raw, sign?_raw, Option.isSome_some, if_true]
  rfl

theorem dropReturn_raw (c : Change) : dropReturn c.raw = c.trimmed.raw := by
  have hsign : c.sign.char ≠ '\r' := by
    cases c.sign <;> decide
  exact dropReturn_cons hsign c.text

theorem isHeader_raw (c : Change) : isHeader c.raw = false := by
  rw [Bool.eq_false_iff, Ne, isHeader_iff, raw, List.cons_prefix_cons]
  rintro ⟨hsign, -⟩
  have : c.sign = .hunk := Option.some.inj ((Sign.ofChar?_char c.sign).symm.trans (hsign ▸ rfl))
  exact c.sign_ne_hunk this

theorem isFileStart_raw (c : Change) : isFileStart c.raw = false := by
  have hsign : 'd' ≠ c.sign.char := by
    cases c.sign <;> decide
  rw [Bool.eq_false_iff, Ne, isFileStart_iff]
  rintro ⟨s, hs⟩
  exact hsign (List.cons.inj hs).1

theorem newLine?_of_inNew {c : Change} (h : c.sign.inNew = true) : c.newLine? = some c.text :=
  if_pos h

theorem newLine?_of_not_inNew {c : Change} (h : c.sign.inNew = false) : c.newLine? = none :=
  if_neg (Bool.eq_false_iff.mp h)

theorem newLine?_trimmed (c : Change) : c.trimmed.newLine? = c.newLine?.map dropReturn := by
  cases h : c.sign.inNew with
  | false =>
    have htrimmed : c.trimmed.sign.inNew = false := h
    rw [newLine?_of_not_inNew h, newLine?_of_not_inNew htrimmed, Option.map_none]
  | true =>
    have htrimmed : c.trimmed.sign.inNew = true := h
    rw [newLine?_of_inNew h, newLine?_of_inNew htrimmed, Option.map_some]
    rfl

end Change

end RootCause.Diff
