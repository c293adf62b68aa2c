import Mathlib.Data.Nat.ModEq
import RootCause.Proofs.Diff.Patch
import RootCause.Proofs.Diff.Sections

/-!
# Snippets of a whole text

The scan of a diff says line by line what can be said of the whole text at once. A section is a
header and the lines up to the next header or the start of the part about another file
(`IsSectionIn`), and its lines are numbered by how many lines of the new file stand before them
(`Section.number?`), in words, as the scan counts them. No section has more lines than there are
words, so that no two lines of it have one number (`Section.number?_inj`). The snippet for a line
shows the first section in which a line has that number (`IsSnippetFor`). This determines the
snippet for every text, whether it is a diff or not (`extract_isSnippetFor`).

That the scan comes to the same is read off its sections (`extract_eq_find?`), as the sections of a
text are those in which it can be cut (`sections_eq_append_cons_iff`).
-/

namespace RootCause.Diff

open Text

variable {t : Nat} {raws before after : List (List Char)} {s : Section}

/-! ## Cutting a text into sections -/

/-- A line starts a section, or the part about another file. -/
def StartsPart (raw : List Char) : Prop := ['@', '@'] <+: raw ∨ "diff --git ".toList <+: raw

/-- A section stands between two pieces of a text: it starts at a line that begins as a header, and
ends before the next line that starts a part, or at the end of the text. -/
structure IsSectionIn (raws before : List (List Char)) (s : Section) (after : List (List Char)) :
    Prop where
  eq : raws = before ++ s.header :: (s.body ++ after)
  header : ['@', '@'] <+: s.header
  body : ∀ raw ∈ s.body, ¬ StartsPart raw
  after : ∀ raw ∈ after.head?, StartsPart raw

theorem isBody_iff {raw : List Char} : isBody raw = true ↔ ¬ StartsPart raw := by
  rw [isBody, Bool.and_eq_true, Bool.not_eq_true', Bool.not_eq_true', StartsPart, ← isHeader_iff,
    ← isFileStart_iff, not_or, Bool.not_eq_true, Bool.not_eq_true]

theorem isBody_of_isHeader {raw : List Char} (h : isHeader raw = true) : isBody raw = false := by
  rw [isBody, h]
  rfl

/-- A section does not go on behind a header. -/
theorem takeWhile_isBody_append_cons {header : List Char} (h : isHeader header = true)
    (before after : List (List Char)) :
    (before ++ header :: after).takeWhile isBody = before.takeWhile isBody := by
  have hheader : (header :: after).takeWhile isBody = [] :=
    List.takeWhile_cons_of_neg (by simp [isBody_of_isHeader h])
  rw [List.takeWhile_append, hheader, List.append_nil]
  split_ifs with hlength
  · exact (((List.takeWhile_prefix isBody).sublist).eq_of_length hlength).symm
  · rfl

theorem sections_append_cons_of_isHeader {header : List Char} (h : isHeader header = true)
    (before after : List (List Char)) :
    sections (before ++ header :: after) = sections before ++ sections (header :: after) := by
  induction before with
  | nil => rfl
  | cons raw before ih =>
    cases hraw : isHeader raw with
    | true =>
      rw [List.cons_append, sections_cons_of_isHeader hraw, sections_cons_of_isHeader hraw,
        takeWhile_isBody_append_cons h, ih, List.cons_append]
    | false =>
      rw [List.cons_append, sections_cons_of_not_isHeader hraw,
        sections_cons_of_not_isHeader hraw, ih]

theorem IsSectionIn.takeWhile (h : IsSectionIn raws before s after) :
    (s.body ++ after).takeWhile isBody = s.body := by
  have hafter : after.takeWhile isBody = [] := by
    cases hcons : after with
    | nil => rfl
    | cons raw rest =>
      have hraw : StartsPart raw := h.after raw (by rw [hcons]; rfl)
      exact List.takeWhile_cons_of_neg fun hbody => isBody_iff.mp hbody hraw
  rw [List.takeWhile_append_of_pos fun raw hraw => isBody_iff.mpr (h.body raw hraw), hafter,
    List.append_nil]

theorem IsSectionIn.sections_eq (h : IsSectionIn raws before s after) :
    sections raws = sections before ++ s :: sections after := by
  have hheader : isHeader s.header = true := isHeader_iff.mpr h.header
  have hbody : ∀ raw ∈ s.body, isHeader raw = false := fun raw hraw =>
    Bool.eq_false_iff.mpr fun hraw' => h.body raw hraw (.inl (isHeader_iff.mp hraw'))
  rw [h.eq, sections_append_cons_of_isHeader hheader, sections_cons_of_isHeader hheader,
    h.takeWhile, sections_append_of_not_isHeader hbody]

/-- A header starts a section, wherever it stands. -/
theorem isSectionIn_cons {header : List Char} (h : isHeader header = true)
    (rest : List (List Char)) :
    IsSectionIn (header :: rest) [] ⟨header, rest.takeWhile isBody⟩ (rest.dropWhile isBody) where
  eq := by rw [List.nil_append, List.takeWhile_append_dropWhile]
  header := isHeader_iff.mp h
  body raw hraw := isBody_iff.mp (List.mem_takeWhile_imp hraw)
  after raw hraw := by
    have hstop := List.head?_dropWhile_not isBody rest
    rw [hraw] at hstop
    by_contra hpart
    exact absurd hstop (by simp [isBody_iff.mpr hpart])

theorem IsSectionIn.cons (h : IsSectionIn raws before s after) (raw : List Char) :
    IsSectionIn (raw :: raws) (raw :: before) s after :=
  ⟨by rw [h.eq, List.cons_append], h.header, h.body, h.after⟩

/-- The sections of a text are those in which it can be cut, in their order. -/
theorem sections_eq_append_cons_iff {ss ss' : List Section} :
    sections raws = ss ++ s :: ss' ↔
      ∃ before after, IsSectionIn raws before s after ∧ sections before = ss ∧
        sections after = ss' := by
  constructor
  · intro h
    induction raws generalizing ss with
    | nil => simp [sections] at h
    | cons raw raws ih =>
      cases hraw : isHeader raw with
      | false =>
        rw [sections_cons_of_not_isHeader hraw] at h
        obtain ⟨before, after, hs, hbefore, hafter⟩ := ih h
        exact ⟨raw :: before, after, hs.cons raw,
          by rw [sections_cons_of_not_isHeader hraw, hbefore], hafter⟩
      | true =>
        cases ss with
        | nil =>
          have hs := isSectionIn_cons hraw raws
          obtain ⟨rfl, hafter⟩ := List.cons.inj (hs.sections_eq.symm.trans h)
          exact ⟨[], raws.dropWhile isBody, hs, rfl, hafter⟩
        | cons s' ss =>
          rw [sections_cons_of_isHeader hraw, List.cons_append] at h
          obtain ⟨rfl, hrest⟩ := List.cons.inj h
          obtain ⟨before, after, hs, hbefore, hafter⟩ := ih hrest
          refine ⟨raw :: before, after, hs.cons raw, ?_, hafter⟩
          rw [sections_cons_of_isHeader hraw, hbefore, hs.eq,
            takeWhile_isBody_append_cons (isHeader_iff.mpr hs.header)]
  · rintro ⟨before, after, hs, rfl, rfl⟩
    exact hs.sections_eq

theorem mem_sections_iff : s ∈ sections raws ↔ ∃ before after, IsSectionIn raws before s after := by
  rw [List.mem_iff_append]
  constructor
  · rintro ⟨ss, ss', h⟩
    obtain ⟨before, after, hs, -, -⟩ := sections_eq_append_cons_iff.mp h
    exact ⟨before, after, hs⟩
  · rintro ⟨before, after, hs⟩
    exact ⟨sections before, sections after, hs.sections_eq⟩

/-! ## Numbers -/

/-- A line starts with the sign of a line of the new file: a plus sign or a blank. -/
def startsNew (raw : List Char) : Bool := raw.head? = some '+' ∨ raw.head? = some ' '

/-- The number of the line at a place of a section. The lines of the new file are counted on from
the number in the header, and the others have no number. -/
def Section.number? (s : Section) (i : Nat) : Option Nat :=
  s.body[i]?.bind fun raw =>
    if startsNew raw then some (wrap (newStart s.header + (s.body.take i).countP startsNew))
    else none

theorem sign?_eq_some_iff {raw : List Char} {sign : Sign} :
    sign? raw = some sign ↔ raw.head? = some sign.char := by
  simp only [sign?, Option.bind_eq_some_iff, Sign.ofChar?_eq_some_iff, exists_eq_right]

theorem isNew_eq_startsNew (raw : List Char) : isNew raw = startsNew raw := by
  rw [Bool.eq_iff_iff, isNew, Option.any_eq_true, startsNew, decide_eq_true_iff]
  constructor
  · rintro ⟨sign, hsign, hnew⟩
    rw [sign?_eq_some_iff] at hsign
    cases sign with
    | added => exact .inl hsign
    | context => exact .inr hsign
    | removed => cases hnew
    | hunk => cases hnew
    | marker => cases hnew
  · rintro (hplus | hblank)
    · exact ⟨.added, sign?_eq_some_iff.mpr hplus, rfl⟩
    · exact ⟨.context, sign?_eq_some_iff.mpr hblank, rfl⟩

/-- What a counter numbers one line after the other is numbered by how many lines were counted. -/
theorem getElem?_numberLines {next : Nat} (hnext : next < wordSize) (raws : List (List Char))
    (i : Nat) :
    (numberLines next raws)[i]? =
      raws[i]?.map (Line.read (wrap (next + (raws.take i).countP startsNew))) := by
  induction raws generalizing next i with
  | nil => rfl
  | cons raw raws ih =>
    cases i with
    | zero => simp [numberLines, wrap_of_lt hnext]
    | succ i =>
      rw [numberLines, List.getElem?_cons_succ, List.getElem?_cons_succ, List.take_succ_cons,
        List.countP_cons, isNew_eq_startsNew]
      cases startsNew raw with
      | true =>
        rw [if_pos rfl, if_pos rfl, ih (wrap_lt _), wrap_wrap_add, Nat.add_right_comm,
          Nat.add_assoc]
      | false => simp [ih hnext]

theorem Section.number?_eq (s : Section) (i : Nat) :
    s.number? i = s.lines[i]?.bind Line.newLine := by
  rw [Section.lines, getElem?_numberLines (newStart_lt _), Section.number?, Option.bind_map]
  refine Option.bind_congr fun raw _ => ?_
  rw [Function.comp_apply, Line.read, isNew_eq_startsNew]

theorem Section.number?_eq_some_iff {i n : Nat} :
    s.number? i = some n ↔ ∃ raw, s.body[i]? = some raw ∧ startsNew raw = true ∧
      wrap (newStart s.header + (s.body.take i).countP startsNew) = n := by
  simp [Section.number?, Option.bind_eq_some_iff]

/-- A counter that takes less steps than there are words does not come back to a number. -/
theorem wrap_add_left_cancel {a m n : Nat} (hm : m < wordSize) (hn : n < wordSize)
    (h : wrap (a + m) = wrap (a + n)) : m = n :=
  Nat.ModEq.eq_of_lt_of_lt (Nat.ModEq.add_left_cancel' a h) hm hn

/-- The lines in front of a numbered line are fewer than the ones in front of a later one. -/
theorem Section.countP_take_lt {i j n : Nat} (hi : s.number? i = some n) (hij : i < j) :
    (s.body.take i).countP startsNew < (s.body.take j).countP startsNew := by
  obtain ⟨raw, hraw, hnew, -⟩ := number?_eq_some_iff.mp hi
  have hcount : (s.body.take (i + 1)).countP startsNew = (s.body.take i).countP startsNew + 1 := by
    rw [List.take_add_one, hraw, List.countP_append, Option.toList_some, List.countP_singleton,
      if_pos hnew]
  have hle : (s.body.take (i + 1)).countP startsNew ≤ (s.body.take j).countP startsNew :=
    (List.take_sublist_take_left hij).countP_le
  omega

theorem Section.countP_take_lt_wordSize {i n : Nat} (hsize : s.body.length ≤ wordSize)
    (hi : s.number? i = some n) : (s.body.take i).countP startsNew < wordSize := by
  obtain ⟨raw, hraw, -⟩ := number?_eq_some_iff.mp hi
  have hlt : i < s.body.length := (List.getElem?_eq_some_iff.mp hraw).1
  calc (s.body.take i).countP startsNew ≤ (s.body.take i).length := List.countP_le_length
    _ ≤ i := List.length_take_le i s.body
    _ < wordSize := hlt.trans_le hsize

/-- No two lines of a section have one number. -/
theorem Section.number?_inj {i j : Nat} (hsize : s.body.length ≤ wordSize)
    (hi : s.number? i = some t) (hj : s.number? j = some t) : i = j := by
  obtain ⟨_, -, -, hit⟩ := number?_eq_some_iff.mp hi
  obtain ⟨_, -, -, hjt⟩ := number?_eq_some_iff.mp hj
  have hcount : (s.body.take i).countP startsNew = (s.body.take j).countP startsNew :=
    wrap_add_left_cancel (countP_take_lt_wordSize hsize hi) (countP_take_lt_wordSize hsize hj)
      (hit.trans hjt.symm)
  rcases Nat.lt_trichotomy i j with hlt | heq | hgt
  · exact absurd hcount (countP_take_lt hi hlt).ne
  · exact heq
  · exact absurd hcount (countP_take_lt hj hgt).ne'

/-! ## The snippet that a section is -/

/-- A line has the sign that it starts with, and is written as its sign and its content, or as its
content if it has no sign. -/
structure Line.IsWritten (l : Line) : Prop where
  sign : ∀ sign, l.sign = some sign ↔ l.raw.head? = some sign.char
  raw : l.raw = (l.sign.map Sign.char).toList ++ l.content

/-- A snippet shows all lines of a section in their order, with their numbers, and points at the
only one with the number `t`, which is at the place `i`. -/
structure Section.IsShownBy (s : Section) (t i : Nat) (found : Snippet) : Prop where
  header : found.header = s.header
  lines : found.lines.map Line.raw = s.body
  number : ∀ j l, found.lines[j]? = some l → l.newLine = s.number? j
  written : ∀ l ∈ found.lines, l.IsWritten
  pointer : found.pointer = some i
  pointed : ∀ j, s.number? j = some t ↔ j = i

/-- No line of a section in a text has the number `t`. -/
def LacksLine (t : Nat) (raws : List (List Char)) : Prop :=
  ∀ before s after, IsSectionIn raws before s after → ∀ i, s.number? i ≠ some t

/-- What a text says the snippet for the line `t` is: what shows the section that has a line with
this number while no section before it has one, or nothing if there is no such section. -/
def IsSnippetFor (t : Nat) (raws : List (List Char)) : Option Snippet → Prop
  | none => LacksLine t raws
  | some found => ∃ before s after i,
      IsSectionIn raws before s after ∧ LacksLine t before ∧ s.IsShownBy t i found

theorem Line.isWritten_read (next : Nat) (raw : List Char) : (Line.read next raw).IsWritten where
  sign _ := sign?_eq_some_iff
  raw := by
    cases hsign : sign? raw with
    | none => simp [Line.read, hsign]
    | some sign =>
      obtain ⟨rest, rfl⟩ := List.head?_eq_some_iff.mp (sign?_eq_some_iff.mp hsign)
      simp [Line.read, hsign]

/-- A line is determined by how it is written and by its number. -/
theorem Line.IsWritten.ext {l l' : Line} (h : l.IsWritten) (h' : l'.IsWritten)
    (hraw : l.raw = l'.raw) (hnumber : l.newLine = l'.newLine) : l = l' := by
  have hsign : l.sign = l'.sign := Option.ext fun sign => by rw [h.sign, h'.sign, hraw]
  have hcontent : l.content = l'.content := by
    have htext : (l.sign.map Sign.char).toList ++ l.content =
        (l'.sign.map Sign.char).toList ++ l'.content := h.raw.symm.trans (hraw.trans h'.raw)
    rw [hsign] at htext
    exact List.append_cancel_left htext
  cases l
  cases l'
  simp_all

theorem Section.IsShownBy.unique {i i' : Nat} {found found' : Snippet}
    (h : s.IsShownBy t i found) (h' : s.IsShownBy t i' found') : found = found' := by
  have hi : i = i' := (h'.pointed i).mp ((h.pointed i).mpr rfl)
  have hraws : found.lines.map Line.raw = found'.lines.map Line.raw := h.lines.trans h'.lines.symm
  have hlines : found.lines = found'.lines := by
    refine List.ext_getElem (by simpa using congrArg List.length hraws) fun j hj hj' => ?_
    have hraw : found.lines[j].raw = found'.lines[j].raw := by
      have hget := congrArg (·[j]?) hraws
      simpa [hj, hj'] using hget
    refine (h.written _ (List.getElem_mem hj)).ext (h'.written _ (List.getElem_mem hj')) hraw ?_
    rw [h.number j _ (List.getElem?_eq_getElem hj), h'.number j _ (List.getElem?_eq_getElem hj')]
  calc found = ⟨found.header, found.lines, found.pointer⟩ := rfl
    _ = ⟨found'.header, found'.lines, found'.pointer⟩ := by
      rw [h.header, h'.header, hlines, h.pointer, h'.pointer, hi]
    _ = found' := rfl

namespace Section

theorem covers_iff : s.covers t = true ↔ ∃ i, s.number? i = some t := by
  rw [covers, List.any_eq_true]
  constructor
  · rintro ⟨l, hl, hnumber⟩
    obtain ⟨i, hi⟩ := List.getElem?_of_mem hl
    refine ⟨i, ?_⟩
    rw [s.number?_eq, hi]
    exact of_decide_eq_true hnumber
  · rintro ⟨i, hi⟩
    rw [s.number?_eq] at hi
    obtain ⟨l, hl, hnumber⟩ := Option.bind_eq_some_iff.mp hi
    exact ⟨l, List.mem_of_getElem? hl, decide_eq_true hnumber⟩

theorem map_raw_lines (s : Section) : s.lines.map Line.raw = s.body := by
  refine List.ext_getElem? fun i => ?_
  rw [List.getElem?_map, lines, getElem?_numberLines (newStart_lt _), Option.map_map]
  exact Option.map_id'

/-- The snippet for a line that a section has shows this section. -/
theorem isShownBy_snippet {i : Nat} (hsize : s.body.length ≤ wordSize)
    (hi : s.number? i = some t) : s.IsShownBy t i (s.snippet t) where
  header := rfl
  lines := s.map_raw_lines
  number j l hl := by
    have hl : s.lines[j]? = some l := hl
    rw [s.number?_eq, hl, Option.bind_some]
  written l hl := by
    obtain ⟨j, hj⟩ := List.getElem?_of_mem hl
    rw [snippet, lines, getElem?_numberLines (newStart_lt _)] at hj
    obtain ⟨raw, -, rfl⟩ := Option.map_eq_some_iff.mp hj
    exact Line.isWritten_read _ raw
  pointer := by
    obtain ⟨l, hl, hnumber⟩ := Option.bind_eq_some_iff.mp (s.number?_eq i ▸ hi)
    obtain ⟨hlt, rfl⟩ := List.getElem?_eq_some_iff.mp hl
    refine List.findIdx?_eq_some_iff_getElem.mpr ⟨hlt, decide_eq_true hnumber, fun j hj hat => ?_⟩
    have hjt : s.number? j = some t := by
      rw [s.number?_eq, List.getElem?_eq_getElem (hj.trans hlt), Option.bind_some]
      exact of_decide_eq_true hat
    exact absurd (number?_inj hsize hjt hi) hj.ne
  pointed j := ⟨fun hj => number?_inj hsize hj hi, fun h => h ▸ hi⟩

end Section

/-! ## The snippet of a whole text -/

theorem lacksLine_iff : LacksLine t raws ↔ ∀ s ∈ sections raws, s.covers t = false := by
  constructor
  · intro h s hs
    obtain ⟨before, after, hs⟩ := mem_sections_iff.mp hs
    refine Bool.eq_false_iff.mpr fun hcovers => ?_
    obtain ⟨i, hi⟩ := Section.covers_iff.mp hcovers
    exact h before s after hs i hi
  · intro h before s after hs i hi
    have hcovers : s.covers t = true := Section.covers_iff.mpr ⟨i, hi⟩
    exact absurd hcovers (Bool.eq_false_iff.mp (h s (mem_sections_iff.mpr ⟨before, after, hs⟩)))

theorem IsSectionIn.length_body_le (h : IsSectionIn raws before s after) :
    s.body.length ≤ raws.length := by
  rw [h.eq, List.length_append, List.length_cons, List.length_append]
  omega

/-- The first section that covers a line is the snippet for it, and nothing else is. -/
theorem isSnippetFor_iff (hsize : raws.length ≤ wordSize) {found : Option Snippet} :
    IsSnippetFor t raws found ↔
      ((sections raws).find? (·.covers t)).map (·.snippet t) = found := by
  cases found with
  | none =>
    rw [IsSnippetFor, lacksLine_iff, Option.map_eq_none_iff, List.find?_eq_none]
    simp only [Bool.not_eq_true]
  | some found =>
    rw [Option.map_eq_some_iff]
    constructor
    · rintro ⟨before, s, after, i, hs, hbefore, hshown⟩
      have hi : s.number? i = some t := (hshown.pointed i).mpr rfl
      have hbody := hs.length_body_le.trans hsize
      refine ⟨s, ?_, (Section.isShownBy_snippet hbody hi).unique hshown⟩
      refine List.find?_eq_some_iff_append.mpr ⟨Section.covers_iff.mpr ⟨i, hi⟩, sections before,
        sections after, hs.sections_eq, fun s' hs' => ?_⟩
      rw [lacksLine_iff.mp hbefore s' hs', Bool.not_false]
    · rintro ⟨s, hfind, rfl⟩
      obtain ⟨hcovers, ss, ss', hsections, hnone⟩ := List.find?_eq_some_iff_append.mp hfind
      obtain ⟨i, hi⟩ := Section.covers_iff.mp hcovers
      obtain ⟨before, after, hs, rfl, -⟩ := sections_eq_append_cons_iff.mp hsections
      refine ⟨before, s, after, i, hs, lacksLine_iff.mpr fun s' hs' => ?_,
        Section.isShownBy_snippet (hs.length_body_le.trans hsize) hi⟩
      simpa using hnone s' hs'

/-- In a section that is shown, the lines with a number are those of the new file. -/
theorem Section.IsShownBy.isSome_newLine_iff {i : Nat} {found : Snippet}
    (h : s.IsShownBy t i found) {l : Line} (hl : l ∈ found.lines) :
    l.newLine.isSome ↔ l.sign = some .added ∨ l.sign = some .context := by
  obtain ⟨j, hj⟩ := List.getElem?_of_mem hl
  have hraw : s.body[j]? = some l.raw := by
    rw [← h.lines, List.getElem?_map, hj, Option.map_some]
  have hsign := (h.written l hl).sign
  rw [h.number j l hj, Section.number?, hraw, Option.bind_some, Option.isSome_ite, startsNew,
    decide_eq_true_iff, hsign, hsign]
  rfl

theorem Section.IsShownBy.raw_mem {i : Nat} {found : Snippet} (h : s.IsShownBy t i found)
    {l : Line} (hl : l ∈ found.lines) : l.raw ∈ s.body :=
  h.lines ▸ List.mem_map_of_mem hl

/-- **A snippet is what the whole text says it is.** For every text whose length is a word there is
a result, and it is the only one that the definition allows. In a snippet just the added and the
context lines have numbers, and no line starts a section or the part about another file. -/
theorem extract_isSnippetFor (ht : 1 ≤ t) {diff : List Char} (hsize : diff.length < wordSize) :
    (∃ found, extract diff t = .ok found ∧
      ∀ found', IsSnippetFor t (Text.lines diff) found' ↔ found' = found) ∧
    ∀ found, extract diff t = .ok (some found) → ∀ l ∈ found.lines,
      (l.newLine.isSome ↔ l.sign = some .added ∨ l.sign = some .context) ∧
      ¬ ['@', '@'] <+: l.raw ∧ ¬ "diff --git ".toList <+: l.raw := by
  have hlines : (Text.lines diff).length ≤ wordSize := (length_lines_le diff).trans hsize.le
  constructor
  · refine ⟨_, extract_eq_find? ht diff, fun found' => ?_⟩
    rw [isSnippetFor_iff hlines, eq_comm]
  · intro found hfound l hl
    rw [extract_eq_find? ht, Except.ok.injEq, ← isSnippetFor_iff hlines] at hfound
    obtain ⟨before, s, after, i, hs, -, hshown⟩ := hfound
    exact ⟨hshown.isSome_newLine_iff hl, not_or.mp (hs.body l.raw (hshown.raw_mem hl))⟩

/-- A text that is no proper diff: a header without a start and one without lines, lines without a
sign, and a line that belongs to no section. -/
def misshapenDiff : List Char :=
  " top\n@@ -1 +x @@\n\n?\n a\ndiff --git a b\n b\n@@ +1 @@\n@@@ -1 +1,9\n-\n+c\r\n\\ end".toList

theorem misshapenDiff_snippet :
    1 ≤ 1 ∧ misshapenDiff.length < wordSize ∧ ∃ found, extract misshapenDiff 1 = .ok (some found) ∧
      IsSnippetFor 1 (Text.lines misshapenDiff) (some found) ∧
      found.header = "@@@ -1 +1,9".toList ∧ found.pointer = some 1 ∧
      found.lines.map Line.newLine = [none, some 1, none] := by
  have hsize : misshapenDiff.length < wordSize := by decide +kernel
  obtain ⟨result, hresult, hunique⟩ := (extract_isSnippetFor (Nat.le_refl 1) hsize).1
  have hfound : ∃ found, extract misshapenDiff 1 = .ok (some found) ∧
      found.header = "@@@ -1 +1,9".toList ∧ found.pointer = some 1 ∧
      found.lines.map Line.newLine = [none, some 1, none] :=
    ⟨_, rfl, by decide +kernel⟩
  obtain ⟨found, hextract, hlook⟩ := hfound
  have hsame : some found = result := Except.ok.inj (hextract.symm.trans hresult)
  exact ⟨Nat.le_refl 1, hsize, found, hextract, (hunique (some found)).mpr hsame, hlook⟩

end RootCause.Diff
