import Mathlib.Data.List.TakeWhile
import RootCause.Diff.Snippet
import RootCause.Proofs.Text.ReadBack

/-!
# Sections of a diff

Any text can be taken for a diff: each line that begins as a header starts a section, which ends
before the next header or the start of the part about another file (`sections`). The lines of a
section are numbered on from the number in its header (`numberLines`), and the snippet for a line is
the first section that covers it (`extract_eq_find?`).

The numbers are words, so that a section may have lines on both sides of the largest one
(`any_hasNumber_numberLines`); one that ends before it covers the numbers from its first line's to
its last one's (`Section.covers_iff_of_le`).

A header need not say where its lines start. The lines after such a header are numbered from zero,
so that its section covers the numbers below that of its new lines: it is the snippet for any of
them that no section before it covers (`headers_declare_start_iff`).
-/

namespace RootCause.Diff

open Text

variable {t : Nat}

/-! ## The sections -/

/-- A header and the lines after it. -/
structure Section where
  header : List Char
  body : List (List Char)
  deriving DecidableEq

/-- Whether a line ends no section. -/
def isBody (raw : List Char) : Bool := !isHeader raw && !isFileStart raw

/-- The sections among some lines. -/
def sections : List (List Char) → List Section
  | [] => []
  | raw :: rest =>
    if isHeader raw then ⟨raw, rest.takeWhile isBody⟩ :: sections rest else sections rest

theorem sections_cons_of_isHeader {raw : List Char} (h : isHeader raw = true)
    (rest : List (List Char)) :
    sections (raw :: rest) = ⟨raw, rest.takeWhile isBody⟩ :: sections rest := by
  rw [sections, if_pos h]

theorem sections_cons_of_not_isHeader {raw : List Char} (h : isHeader raw = false)
    (rest : List (List Char)) : sections (raw :: rest) = sections rest := by
  rw [sections, h, if_neg Bool.false_ne_true]

theorem sections_append_of_not_isHeader {raws : List (List Char)}
    (h : ∀ raw ∈ raws, isHeader raw = false) (rest : List (List Char)) :
    sections (raws ++ rest) = sections rest := by
  induction raws with
  | nil => rfl
  | cons raw raws ih =>
    obtain ⟨hraw, hraws⟩ := List.forall_mem_cons.mp h
    rw [List.cons_append, sections_cons_of_not_isHeader hraw, ih hraws]

theorem sections_of_not_isHeader {raws : List (List Char)}
    (h : ∀ raw ∈ raws, isHeader raw = false) : sections raws = [] := by
  rw [← List.append_nil raws, sections_append_of_not_isHeader h, sections]

/-- Some lines of a diff, of which the first one of the new file has the number `next`. -/
def numberLines (next : Nat) : List (List Char) → List Line
  | [] => []
  | raw :: rest =>
    Line.read next raw :: numberLines (if isNew raw then wrap (next + 1) else next) rest

/-- Whether a line has a number. -/
def Line.hasNumber (t : Nat) (l : Line) : Bool := l.newLine = some t

namespace Section

/-- The lines of a section. -/
def lines (s : Section) : List Line := numberLines (newStart s.header) s.body

/-- The number of lines of the new file in a section. -/
def newCount (s : Section) : Nat := s.body.countP isNew

/-- Whether a line of a section has the number `t`. -/
def covers (t : Nat) (s : Section) : Bool := s.lines.any (·.hasNumber t)

/-- The snippet that a section is for the line `t`. -/
def snippet (t : Nat) (s : Section) : Snippet :=
  ⟨s.header, s.lines, s.lines.findIdx? (·.hasNumber t)⟩

end Section

/-- The lines of the new file have the numbers that are counted on from the first one. -/
theorem any_hasNumber_numberLines {next : Nat} (hnext : next < wordSize)
    {raws : List (List Char)} :
    (numberLines next raws).any (·.hasNumber t) = true ↔
      ∃ k < raws.countP isNew, wrap (next + k) = t := by
  induction raws generalizing next with
  | nil => simp [numberLines]
  | cons raw raws ih =>
    have hraw : (Line.read next raw).hasNumber t = true ↔ isNew raw = true ∧ next = t := by
      cases hnew : isNew raw <;> simp [Line.hasNumber, Line.read, hnew]
    rw [numberLines, List.any_cons, Bool.or_eq_true, hraw]
    cases hnew : isNew raw with
    | false =>
      rw [List.countP_cons_of_neg (by simp [hnew]), if_neg Bool.false_ne_true, ih hnext]
      simp
    | true =>
      -- the line itself is counted first, and the others one later than without it
      rw [List.countP_cons_of_pos hnew, if_pos rfl, ih (wrap_lt _), Nat.exists_lt_succ_left]
      simp only [true_and, Nat.add_zero, wrap_of_lt hnext, wrap_wrap_add, Nat.add_assoc,
        Nat.add_comm 1]

namespace Section

theorem isSome_pointer_snippet (s : Section) : (s.snippet t).pointer.isSome = s.covers t := by
  rw [Bool.eq_iff_iff, snippet, List.findIdx?_isSome, covers]

theorem covers_iff_exists (s : Section) :
    s.covers t = true ↔ ∃ k < s.newCount, wrap (newStart s.header + k) = t :=
  any_hasNumber_numberLines (newStart_lt s.header)

/-- A section that ends before the largest number covers what is between its ends. -/
theorem covers_iff_of_le {s : Section} (h : newStart s.header + s.newCount ≤ wordSize) :
    s.covers t = true ↔ newStart s.header ≤ t ∧ t < newStart s.header + s.newCount := by
  rw [covers_iff_exists]
  constructor
  · rintro ⟨k, hk, rfl⟩
    rw [wrap_of_lt (by omega)]
    omega
  · rintro ⟨hle, hlt⟩
    refine ⟨t - newStart s.header, by omega, ?_⟩
    rw [Nat.add_sub_cancel' hle, wrap_of_lt (by omega)]

/-- A section that starts at zero covers the numbers below that of its new lines. -/
theorem covers_iff_of_newStart_eq_zero {s : Section} (h : newStart s.header = 0) :
    s.covers t = true ↔ t < s.newCount ∧ t < wordSize := by
  rw [covers_iff_exists, h]
  simp only [Nat.zero_add]
  constructor
  · rintro ⟨k, hk, rfl⟩
    exact ⟨(wrap_le k).trans_lt hk, wrap_lt k⟩
  · rintro ⟨hcount, hword⟩
    exact ⟨t, hcount, wrap_of_lt hword⟩

end Section

/-! ## A section line by line -/

namespace OpenHunk

/-- The hunk after some more lines. -/
def pushAll (t : Nat) (o : OpenHunk) (raws : List (List Char)) : OpenHunk :=
  raws.foldl (push t) o

/-- The pointer is at the first line with the number `t`. -/
def IsPointed (t : Nat) (o : OpenHunk) : Prop :=
  o.snippet.pointer = o.snippet.lines.findIdx? (·.hasNumber t)

theorem IsPointed.push {o : OpenHunk} (h : o.IsPointed t) (raw : List Char) :
    (o.push t raw).IsPointed t := by
  unfold IsPointed at h ⊢
  simp only [OpenHunk.push, List.findIdx?_append, List.findIdx?_singleton]
  rw [← h]
  cases o.snippet.pointer with
  | none => simp [Line.hasNumber]
  | some i => simp

theorem IsPointed.pushAll {o : OpenHunk} (h : o.IsPointed t) (raws : List (List Char)) :
    (o.pushAll t raws).IsPointed t := by
  induction raws generalizing o with
  | nil => exact h
  | cons raw raws ih => exact ih (h.push raw)

theorem header_pushAll (o : OpenHunk) (raws : List (List Char)) :
    (o.pushAll t raws).snippet.header = o.snippet.header := by
  induction raws generalizing o with
  | nil => rfl
  | cons raw raws ih => exact ih (o.push t raw)

theorem next_push (o : OpenHunk) (raw : List Char) :
    (o.push t raw).next = if isNew raw then wrap (o.next + 1) else o.next := by
  cases h : isNew raw <;> simp [push, Line.read, h]

theorem lines_pushAll (o : OpenHunk) (raws : List (List Char)) :
    (o.pushAll t raws).snippet.lines = o.snippet.lines ++ numberLines o.next raws := by
  induction raws generalizing o with
  | nil => exact (List.append_nil _).symm
  | cons raw raws ih =>
    have hpush : (o.push t raw).snippet.lines = o.snippet.lines ++ [Line.read o.next raw] := rfl
    calc
      (o.pushAll t (raw :: raws)).snippet.lines
          = (o.push t raw).snippet.lines ++ numberLines (o.push t raw).next raws :=
        ih (o.push t raw)
      _ = o.snippet.lines ++ numberLines o.next (raw :: raws) := by
        rw [hpush, next_push, numberLines, List.append_assoc, List.singleton_append]

theorem snippet_pushAll_start (s : Section) :
    ((start s.header).pushAll t s.body).snippet = s.snippet t := by
  let o := (start s.header).pushAll t s.body
  have hheader : o.snippet.header = s.header := header_pushAll _ s.body
  have hlines : o.snippet.lines = s.lines := lines_pushAll _ s.body
  have hstart : (start s.header).IsPointed t := rfl
  have hpointer : o.snippet.pointer = o.snippet.lines.findIdx? (·.hasNumber t) :=
    hstart.pushAll s.body
  calc
    o.snippet = ⟨o.snippet.header, o.snippet.lines, o.snippet.pointer⟩ := rfl
    _ = s.snippet t := by rw [hpointer, hheader, hlines, Section.snippet]

end OpenHunk

theorem closed?_pushAll_start (s : Section) :
    closed? (some ((OpenHunk.start s.header).pushAll t s.body)) =
      if s.covers t then some (s.snippet t) else none := by
  rw [closed?, OpenHunk.snippet_pushAll_start, s.isSome_pointer_snippet]

/-! ## The scan of a diff -/

/-- An open hunk takes the lines up to the end of its section. -/
theorem scan_some (o : OpenHunk) (raws : List (List Char)) :
    scan t (some o) raws =
      (closed? (some (o.pushAll t (raws.takeWhile isBody)))).or (scan t none raws) := by
  induction raws generalizing o with
  | nil => exact Option.or_none.symm
  | cons raw raws ih =>
    cases hheader : isHeader raw with
    | true => simp [scan, hheader, isBody, closed?, OpenHunk.pushAll]
    | false =>
      cases hstart : isFileStart raw with
      | true => simp [scan, hheader, hstart, isBody, closed?, OpenHunk.pushAll]
      | false =>
        have hbody : isBody raw = true := by rw [isBody, hheader, hstart]; rfl
        rw [List.takeWhile_cons_of_pos hbody]
        simp only [scan, hheader, hstart, Bool.false_eq_true, if_false, Option.map_some,
          Option.map_none]
        exact ih (o.push t raw)

theorem scan_none (raws : List (List Char)) :
    scan t none raws = ((sections raws).find? (·.covers t)).map (·.snippet t) := by
  induction raws with
  | nil => rfl
  | cons raw raws ih =>
    cases hheader : isHeader raw with
    | true =>
      let s : Section := ⟨raw, raws.takeWhile isBody⟩
      have hsections : sections (raw :: raws) = s :: sections raws :=
        sections_cons_of_isHeader hheader raws
      calc scan t none (raw :: raws)
          = scan t (some (.start raw)) raws := by simp [scan, hheader, closed?]
        _ = (if s.covers t then some (s.snippet t) else none).or (scan t none raws) := by
          rw [scan_some, ← closed?_pushAll_start s]
        _ = ((sections (raw :: raws)).find? (·.covers t)).map (·.snippet t) := by
          rw [hsections, List.find?_cons, ih]
          cases s.covers t <;> simp
    | false =>
      rw [sections_cons_of_not_isHeader hheader, ← ih]
      simp [scan, hheader, closed?]

/-- The snippet for a line is the first section that covers it. -/
theorem extract_eq_find? (ht : 1 ≤ t) (diff : List Char) :
    extract diff t =
      .ok (((sections (Text.lines diff)).find? (·.covers t)).map (·.snippet t)) := by
  rw [extract, if_neg (by omega), scan_none]

/-! ## Headers without a start -/

/-- A header says where its lines start: one of its words is a plus sign with a number, perhaps
followed by a comma. -/
def DeclaresStart (header : List Char) : Prop :=
  ∃ range, '+' :: range ∈ words header ∧ (number? (range.takeWhile (· != ','))).isSome

theorem newStart_of_not_declaresStart {header : List Char} (h : ¬ DeclaresStart header) :
    newStart header = 0 := by
  cases hstart : declaredStart? header with
  | none => rw [newStart, hstart, Option.getD_none]
  | some n =>
    obtain ⟨range, hrange, hn⟩ := Option.bind_eq_some_iff.mp hstart
    obtain ⟨word, hword, hstrip⟩ := List.exists_of_findSome?_eq_some hrange
    refine absurd ⟨range, ?_, by rw [hn]; rfl⟩ h
    rwa [← List.singleton_append, ← eq_append_of_stripStart? hstrip]

/-- **When snippets only come from headers that say where their lines start.** A header that does
not say so starts at zero. This goes unnoticed just when each line from 1 on that its section covers
is covered by a section before it whose header does. -/
theorem headers_declare_start_iff (diff : List Char) :
    (∀ t s, 1 ≤ t → extract diff t = .ok (some s) → DeclaresStart s.header) ↔
      ∀ before s after, sections (Text.lines diff) = before ++ s :: after →
        ¬ DeclaresStart s.header → ∀ t, 1 ≤ t → t < s.newCount → t < wordSize →
          ∃ s' ∈ before, DeclaresStart s'.header ∧ s'.covers t := by
  constructor
  · intro hall before s after hsections hs t ht hcount hword
    have hcovers : s.covers t = true :=
      (Section.covers_iff_of_newStart_eq_zero (newStart_of_not_declaresStart hs)).mpr
        ⟨hcount, hword⟩
    obtain ⟨first, hfirst⟩ :
        ∃ first, (sections (Text.lines diff)).find? (·.covers t) = some first :=
      Option.isSome_iff_exists.mp (List.find?_isSome.mpr ⟨s, by simp [hsections], hcovers⟩)
    have hdeclares : DeclaresStart first.header := by
      refine hall t (first.snippet t) ht ?_
      rw [extract_eq_find? ht, hfirst, Option.map_some]
    have hbefore : before.find? (·.covers t) = some first := by
      rw [hsections, List.find?_append, List.find?_cons_of_pos hcovers] at hfirst
      cases hfind : before.find? (·.covers t) with
      | some found => simpa [hfind] using hfirst
      | none =>
        obtain rfl : s = first := by simpa [hfind] using hfirst
        exact absurd hdeclares hs
    have hfirstCovers : first.covers t = true := List.find?_some hbefore
    exact ⟨first, List.mem_of_find?_eq_some hbefore, hdeclares, hfirstCovers⟩
  · intro hall t s ht hextract
    rw [extract_eq_find? ht, Except.ok.injEq, Option.map_eq_some_iff] at hextract
    obtain ⟨first, hfirst, rfl⟩ := hextract
    by_contra hs
    obtain ⟨hcovers, before, after, hsections, hnone⟩ := List.find?_eq_some_iff_append.mp hfirst
    obtain ⟨hcount, hword⟩ :=
      (Section.covers_iff_of_newStart_eq_zero (newStart_of_not_declaresStart hs)).mp hcovers
    obtain ⟨s', hs', -, hcovers'⟩ := hall before first after hsections hs t ht hcount hword
    simpa [hcovers'] using hnone s' hs'

/-- A header without a start is numbered from zero, and so its second line is line 1. -/
theorem undeclared_start_matches :
    ¬ DeclaresStart "@@ garbage @@".toList ∧
    ∃ s, extract "@@ garbage @@\n a\n b\n".toList 1 = .ok (some s) ∧
      s.header = "@@ garbage @@".toList ∧ s.pointed.map (·.content) = some ['b'] := by
  have hwords : words "@@ garbage @@".toList = ["@@".toList, "garbage".toList, "@@".toList] := by
    decide +kernel
  refine ⟨?_, _, rfl, ?_⟩
  · rintro ⟨range, hrange, -⟩
    rw [hwords] at hrange
    simp at hrange
  · decide +kernel

end RootCause.Diff
