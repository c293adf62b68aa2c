import RootCause.Proofs.Source.Rows
import RootCause.Proofs.TabStops.Ranges
import RootCause.Report.Build
import RootCause.Scope.Model
import RootCause.Source.Parser

/-!
# Carets and offsets

A report cuts a file into lines and counts the characters of one; a project counts octets from the
start of the file. Both mean the same character by a line and a visual column: the line that a
report shows is the row of the project (`exists_row?_of_sourceLine?`), and its caret starts at the
character at which the project's offset is (`start_of_caretFor`).
-/

namespace RootCause.Report

theorem exists_row?_of_sourceLine? {source line : List Char} {number : Nat} (hnumber : 0 < number)
    (h : sourceLine? source number = some line) :
    ∃ row, Source.row? source number = some row ∧ row.text = line := by
  obtain ⟨i, rfl⟩ := Nat.exists_eq_add_one.mpr hnumber
  obtain ⟨raw, hraw, rfl⟩ := Option.map_eq_some_iff.mp h
  exact Source.exists_row?_of_getElem?_lines hraw

theorem start_of_caretFor {t : TabStops} {d : Diagnostic} {line : List Char} {range : CharRange}
    (h : caretFor t d line = some range) : range.start = t.indexAt line (d.column - 1) := by
  unfold caretFor at h
  generalize (if d.location.endLine = some d.line then d.location.endColumn else none) = stop at h
  cases hrange : t.range line d.column stop with
  | error _ => simp [hrange, Except.toOption] at h
  | ok span =>
    obtain rfl : span = range := by simpa [hrange, Except.toOption] using h
    exact TabStops.start_of_range hrange

section

variable (c : Context) (file : Path) (rank : Nat) (d : Diagnostic)

theorem diagnostic_entry : (c.entry file rank d).diagnostic = d := rfl

theorem sourceLine_entry : (c.entry file rank d).sourceLine = c.lineOf file d.line := by
  simp only [Context.entry]

theorem caret_entry :
    (c.entry file rank d).caret = (c.lineOf file d.line).bind (caretFor c.tabs d) := by
  simp only [Context.entry]

variable {c} {ds : List Diagnostic} {e : Entry}

theorem exists_eq_entry_of_mem_build (h : e ∈ build c ds) :
    ∃ rank d, e = c.entry (representative (ds.map Diagnostic.file) d.file) rank d := by
  obtain ⟨rank, hrank, rfl⟩ := List.mem_mapIdx.mp h
  exact ⟨rank, ds[rank], rfl⟩

theorem sourceLine_of_mem_build (h : e ∈ build c ds) : e.sourceLine =
    c.lineOf (representative (ds.map Diagnostic.file) e.diagnostic.file) e.diagnostic.line := by
  obtain ⟨rank, d, rfl⟩ := exists_eq_entry_of_mem_build h
  rw [sourceLine_entry, diagnostic_entry]

theorem caret_of_mem_build (h : e ∈ build c ds) :
    e.caret = e.sourceLine.bind (caretFor c.tabs e.diagnostic) := by
  obtain ⟨rank, d, rfl⟩ := exists_eq_entry_of_mem_build h
  rw [caret_entry, sourceLine_entry, diagnostic_entry]

end

/-- **The caret that is drawn and the offset that edges depend on denote the same character.** If an
entry has a source line and a caret, and a project with the same tab stops holds the text that the
line is taken from, then the source line is the project's line with the diagnostic's number, without
the carriage returns at its end; the project's offset of the diagnostic is as far behind the line's
start as the octets before the caret say; and at this offset of the text is the character of the
line at which the caret starts, if it starts at one. -/
theorem caret_denotes_offset {c : Context} {p : Scope.Project} {ds : List Diagnostic} {e : Entry}
    {f : Scope.PlacedFile} {shown : List Char} {range : CharRange}
    (htabs : p.tabs = c.tabs) (he : e ∈ build c ds)
    (hfile : p.file? e.diagnostic.file = some f)
    (htext : c.disk.read? (c.worktree.root.join
      (representative (ds.map Diagnostic.file) e.diagnostic.file).text) = some f.source)
    (hnumber : 0 < e.diagnostic.line) (hline : e.sourceLine = some shown)
    (hcaret : e.caret = some range) :
    ∃ l : Source.LineIn f.source e.diagnostic.line, l.text = shown ∧
      Source.row? f.source e.diagnostic.line = some ⟨Text.byteLength l.before, shown⟩ ∧
      p.offsetAt e.diagnostic.file e.diagnostic.line e.diagnostic.column =
        some (Text.byteLength l.before + byteOffset shown range.start) ∧
      ∀ ch, shown[range.start]? = some ch →
        (Text.dropBytes (Text.byteLength l.before + byteOffset shown range.start) f.source).head? =
          some ch := by
  have hspan : caretFor c.tabs e.diagnostic shown = some range := by
    rwa [caret_of_mem_build he, hline, Option.bind_some] at hcaret
  have hsource : sourceLine? f.source e.diagnostic.line = some shown := by
    rwa [sourceLine_of_mem_build he, Context.lineOf, htext, Option.bind_some] at hline
  obtain ⟨row, hrow, rfl⟩ := exists_row?_of_sourceLine? hnumber hsource
  obtain ⟨l, rfl⟩ := Source.exists_lineIn_of_row? hrow
  have hoffset : p.offsetAt e.diagnostic.file e.diagnostic.line e.diagnostic.column =
      some (Text.byteLength l.before + byteOffset l.text range.start) := by
    rw [Scope.Project.offsetAt, hfile, Option.bind_some, Source.offsetAt, hrow, Option.map_some,
      Source.Row.offsetAt, htabs, start_of_caretFor hspan]
  refine ⟨l, rfl, hrow, hoffset, fun ch hch => ?_⟩
  rw [l.dropBytes_eq, List.head?_append, List.head?_drop, hch]
  rfl

/-! ## A line with a tab -/

/-- A file whose second line begins with a tab. -/
def tabbedText : List Char := "a\r\r\n\té = x\r\n".toList

/-- The file on a disk, outside git. -/
def tabbedContext : Context where
  disk := ⟨[([['a']], .file (some tabbedText))], []⟩
  worktree := ⟨⟨"/"⟩, fun _ => .notStarted ""⟩
  tabs := ⟨4, by decide⟩
  lookups := none

/-- A problem with the sign in the second line. -/
def tabbedDiagnostic : Diagnostic where
  tool := .tsc
  message := ""
  severity := .error
  location := { file := ⟨"/a"⟩, line := 2, column := 7 }

/-- The project of the file. -/
def tabbedProject : Scope.Project :=
  .ofSources Source.parse ⟨4, by decide⟩ [(⟨"/a"⟩, tabbedText)]

theorem tabbed_caret_denotes_offset :
    tabbedContext.entry ⟨"/a"⟩ 0 tabbedDiagnostic ∈ build tabbedContext [tabbedDiagnostic] ∧
    (tabbedContext.entry ⟨"/a"⟩ 0 tabbedDiagnostic).sourceLine = some "\té = x".toList ∧
    (tabbedContext.entry ⟨"/a"⟩ 0 tabbedDiagnostic).caret = some ⟨3, 4⟩ ∧
    ∃ l : Source.LineIn tabbedText 2, l.text = "\té = x".toList ∧
      Source.row? tabbedText 2 = some ⟨Text.byteLength l.before, "\té = x".toList⟩ ∧
      tabbedProject.offsetAt ⟨"/a"⟩ 2 7 =
        some (Text.byteLength l.before + byteOffset "\té = x".toList 3) ∧
      ∀ ch, "\té = x".toList[3]? = some ch →
        (Text.dropBytes (Text.byteLength l.before + byteOffset "\té = x".toList 3)
          tabbedText).head? = some ch := by
  have he : tabbedContext.entry ⟨"/a"⟩ 0 tabbedDiagnostic ∈
      build tabbedContext [tabbedDiagnostic] := by decide
  have hline : (tabbedContext.entry ⟨"/a"⟩ 0 tabbedDiagnostic).sourceLine =
      some "\té = x".toList := by decide
  have hcaret : (tabbedContext.entry ⟨"/a"⟩ 0 tabbedDiagnostic).caret = some ⟨3, 4⟩ := by decide
  have htext : tabbedContext.disk.read? (tabbedContext.worktree.root.join
      (representative ([tabbedDiagnostic].map Diagnostic.file) tabbedDiagnostic.file).text) =
        some tabbedText := by decide
  have hfile : tabbedProject.file? tabbedDiagnostic.file =
      some ⟨.ofText Source.parse ⟨"/a"⟩ tabbedText, 0⟩ := rfl
  exact ⟨he, hline, hcaret,
    caret_denotes_offset (p := tabbedProject) rfl he hfile htext (by decide) hline hcaret⟩

end RootCause.Report
