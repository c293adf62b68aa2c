import RootCause.Proofs.Output.Stripping
import RootCause.Proofs.Report.Controls

/-!
# Colours and content

Colours do not change what a report says. Without its control sequences, what is written of an entry
in colours is what is written of it without them (`unstyled_prettyText`), as long as no text in the
entry has control sequences of its own (`Entry.texts`). A report is cut off at its last character
that is not blank, which in colours may be the end of a control sequence with blanks in front of it;
these have to be cut off once the sequences are removed.
-/

namespace RootCause.Report

open Output

/-- The texts that an entry shows, apart from names, numbers and signs. -/
def Entry.texts (e : Entry) : List (List Char) :=
  let d := e.diagnostic
  [d.file.text.toList, (d.rule.getD "").toList, d.message.toList] ++ e.sourceLine.toList ++
    (match e.view with
      | some v => v.snippet.header :: v.snippet.lines.map (·.content)
      | none => []) ++
    (match e.blame with
      | some b => [b.commit, b.author, b.summary]
      | none => []) ++
    e.history.flatMap fun c => [c.date, c.hash, c.author, c.message]

theorem isControl_escape : isControl Style.escape = true := by decide

/-- A text of the program's own has no control sequences. -/
theorem shows_of_noControls {s : List Char} (h : s.any isControl = false) : Shows s s :=
  .of_notMem (notMem_of_noControls isControl_escape h)

theorem shows_newline : Shows ['\n'] ['\n'] := .of_notMem (by decide)

/-! ## Rows -/

section

variable (t : TabStops) (gutter : Nat) (colours : Bool)

theorem shows_number (number : Option Nat) :
    Shows (numberStyle.paint colours (gutterText gutter number)) (gutterText gutter number) :=
  .paint _ _ (control_notMem_gutterText isControl_escape _ _)

theorem shows_caretLine (style : Style) (content : List Char) (r : CharRange) :
    Shows (caretLine t gutter style colours content r)
      (caretLine t gutter style false content r) := by
  have hgutter : Shows (gutterText gutter none) (gutterText gutter none) :=
    .of_notMem (control_notMem_gutterText isControl_escape _ _)
  have hblank : Style.escape ∉ List.replicate (caretColumn t content r) ' ' := by
    simp [Style.escape]
  have hcarets : Style.escape ∉ List.replicate (caretWidth t content r) '^' := by
    simp [Style.escape]
  exact (((hgutter.append (shows_of_noControls (by decide))).append (.of_notMem hblank)).append
    (.paint _ _ hcarets)).append shows_newline

theorem shows_diffLine {l : Diff.Line} (h : Style.escape ∉ l.content) :
    Shows (diffLine t gutter colours l) (diffLine t gutter false l) := by
  have htext : Style.escape ∉ (l.sign.map Diff.Sign.char).getD ' ' :: t.expand l.content :=
    List.not_mem_cons_of_ne_of_not_mem (control_ne_marker isControl_escape l.sign)
      (control_notMem_expand isControl_escape t h)
  exact (((shows_number gutter colours _).append (shows_of_noControls (by decide))).append
    (.paint _ _ htext)).append shows_newline

theorem shows_numberedLine (number : Nat) {line : List Char} (h : Style.escape ∉ line) :
    Shows (numberedLine t gutter colours number line)
      (numberedLine t gutter false number line) := by
  have hline : Shows (t.expand line) (t.expand line) :=
    .of_notMem (control_notMem_expand isControl_escape t h)
  exact (((shows_number gutter colours _).append (shows_of_noControls (by decide))).append
    hline).append shows_newline

end

/-! ## Entries -/

namespace Entry

variable (e : Entry) (t : TabStops) (colours : Bool)

theorem shows_carets (content : List Char) :
    Shows (e.carets t colours content) (e.carets t false content) := by
  rw [carets, carets]
  cases e.caretRange t content with
  | none => exact .nil
  | some r => exact shows_caretLine t e.gutter colours _ content r

variable (h : ∀ s ∈ e.texts, Style.escape ∉ s)
include h

theorem shows_heading : Shows (e.heading colours) (e.heading false) := by
  have hplace : Style.escape ∉ (place e.diagnostic).toList :=
    control_notMem_place isControl_escape (h _ (by simp [texts]))
  have hrule : ∀ r ∈ e.diagnostic.rule, Style.escape ∉ r.toList := by
    intro r hr
    refine h _ ?_
    simp [texts, Option.mem_def.mp hr]
  have hreporter : Style.escape ∉ s!"[{reporter e.diagnostic}] ".toList := by
    have := control_notMem_reporter isControl_escape hrule
    simpa [toString, Style.escape] using this
  exact (((Shows.paint _ colours (control_notMem_severity isControl_escape _)).append
    (.of_notMem hreporter)).append (.paint _ colours hplace)).append shows_newline

theorem shows_messageLines : Shows e.messageLines e.messageLines := by
  have hmessage : Style.escape ∉ e.diagnostic.message.toList := h _ (by simp [texts])
  have hindent : Shows [' ', ' '] [' ', ' '] := shows_of_noControls (by decide)
  refine .flatMap fun l hl => (hindent.append (.of_notMem ?_)).append shows_newline
  exact fun hc => hmessage (Text.mem_of_mem_lines hl hc)

theorem shows_viewLines {v : View} (hv : e.view = some v) :
    Shows (e.viewLines t colours v) (e.viewLines t false v) := by
  have hheader : Style.escape ∉ v.snippet.header := h _ (by simp [texts, hv])
  have hcontent : ∀ l ∈ v.snippet.lines, Style.escape ∉ l.content := fun l hl => by
    refine h _ ?_
    simp only [texts, hv, List.mem_append, List.mem_cons, List.mem_map]
    exact .inl (.inl (.inr (.inr ⟨l, hl, rfl⟩)))
  have horigin : Style.escape ∉ s!" {v.origin.name} diff ".toList := by
    have := control_notMem_origin isControl_escape v.origin
    simpa [toString, Style.escape] using this
  have hindent : Shows [' ', ' '] [' ', ' '] := shows_of_noControls (by decide)
  have harrow : Shows (numberStyle.paint colours "-->".toList) "-->".toList :=
    .paint _ _ (by decide)
  have hlines : Shows
      (v.snippet.lines.mapIdx fun i l => diffLine t e.gutter colours l ++
        (if v.snippet.pointer = some i then e.carets t colours l.content else [])).flatten
      (v.snippet.lines.mapIdx fun i l => diffLine t e.gutter false l ++
        (if v.snippet.pointer = some i then e.carets t false l.content else [])).flatten := by
    rw [List.mapIdx_eq_zipIdx_map, List.mapIdx_eq_zipIdx_map, ← List.flatMap_def,
      ← List.flatMap_def]
    refine .flatMap fun ⟨l, i⟩ hl => ?_
    refine (shows_diffLine t e.gutter colours (hcontent l (List.fst_mem_of_mem_zipIdx hl))).append ?_
    split
    · exact e.shows_carets t colours l.content
    · exact .nil
  exact (((hindent.append harrow).append (.of_notMem horigin)).append (.of_notMem hheader)).append
    (shows_newline.append hlines)

theorem shows_sourceLines {line : List Char} (hline : e.sourceLine = some line) :
    Shows (e.sourceLines t colours line) (e.sourceLines t false line) := by
  have hcontent : Style.escape ∉ line := h _ (by simp [texts, hline])
  exact (shows_numberedLine t e.gutter colours _ hcontent).append (e.shows_carets t colours line)

theorem shows_shownLines : Shows (e.shownLines t colours) (e.shownLines t false) := by
  rw [shownLines, shownLines]
  cases hview : e.view with
  | some v => exact e.shows_viewLines t colours h hview
  | none =>
    cases hline : e.sourceLine with
    | some line => exact e.shows_sourceLines t colours h hline
    | none => exact .nil

theorem shows_commitLines : Shows e.commitLines e.commitLines := by
  have hshort : ∀ s ∈ e.texts, Style.escape ∉ shortHash s := fun s hs hc =>
    h s hs ((shortHash_prefix_self s).subset hc)
  refine .append ?_ (.flatMap fun c hc => ?_)
  -- both kinds of lines are put together piece by piece, in the order of the definition
  · cases hblame : e.blame with
    | none => exact .nil
    | some b =>
      have hcommit : b.commit ∈ e.texts := by simp [texts, hblame]
      have hauthor : b.author ∈ e.texts := by simp [texts, hblame]
      have hsummary : b.summary ∈ e.texts := by simp [texts, hblame]
      exact (((((shows_of_noControls (by decide)).append (.of_notMem (hshort _ hcommit))).append
        (.cons (by decide) (.of_notMem (h _ hauthor)))).append
        (shows_of_noControls (by decide))).append (.of_notMem (h _ hsummary))).append shows_newline
  · have hmem : ∀ s ∈ [c.date, c.hash, c.author, c.message], s ∈ e.texts := fun s hs =>
      List.mem_append_right _ (List.mem_flatMap.mpr ⟨c, hc, hs⟩)
    obtain ⟨hdate, hhash, hauthor, hmessage⟩ : c.date ∈ e.texts ∧ c.hash ∈ e.texts ∧
        c.author ∈ e.texts ∧ c.message ∈ e.texts := by simpa using hmem
    exact ((((((shows_of_noControls (by decide)).append (.of_notMem (h _ hdate))).append
      (.cons (by decide) (.of_notMem (hshort _ hhash)))).append
      (.cons (by decide) (.of_notMem (h _ hauthor)))).append
      (shows_of_noControls (by decide))).append (.of_notMem (h _ hmessage))).append shows_newline

theorem shows_prettyText : Shows (e.prettyText t colours) (e.prettyText t false) :=
  (((e.shows_heading colours h).append (e.shows_messageLines h)).append
    (e.shows_shownLines t colours h)).append (e.shows_commitLines h)

end Entry

/-! ## Reports -/

/-- **Colours do not change the content.** For entries in whose texts no escape stands, what is
written of one in colours is, without its control sequences, what is written of it without colours;
and the report in colours is, without its control sequences and then without the blanks at its end,
the report without colours. -/
theorem unstyled_prettyText (t : TabStops) {entries : List Entry}
    (h : ∀ e ∈ entries, ∀ s ∈ e.texts, Style.escape ∉ s) :
    (∀ e ∈ entries, unstyled (e.prettyText t true) = e.prettyText t false) ∧
    Text.trimEnd (unstyled (prettyText t true entries)) = prettyText t false entries := by
  have hshows : ∀ e ∈ entries, Shows (e.prettyText t true) (e.prettyText t false) := fun e he =>
    e.shows_prettyText t true (h e he)
  refine ⟨fun e he => (hshows e he).unstyled_eq, ?_⟩
  have hjoined : Shows (Text.joinWith ['\n'] (entries.map fun e => e.prettyText t true))
      (Text.joinWith ['\n'] (entries.map fun e => e.prettyText t false)) :=
    .joinWith (by decide) hshows
  exact hjoined.trimEnd_unstyled

/-- An entry whose last line is one that a diff adds, with blanks at its end. -/
def trailingEntry : Entry where
  rank := 0
  diagnostic :=
    { tool := .oxlint
      rule := some "r"
      message := "m"
      severity := .warning
      location := ⟨⟨"a"⟩, 2, 1, none, none⟩ }
  view := some ⟨.staged, "@@ -1 +1,3 @@".toList,
    [.read 2 "+b".toList, .read 3 "+\t".toList], some 0⟩

theorem trailingEntry_unstyled_prettyText :
    (∀ e ∈ [trailingEntry], ∀ s ∈ e.texts, Style.escape ∉ s) ∧
    unstyled (prettyText .standard true [trailingEntry]) ≠
      prettyText .standard false [trailingEntry] ∧
    unstyled (trailingEntry.prettyText .standard true) = trailingEntry.prettyText .standard false ∧
    Text.trimEnd (unstyled (prettyText .standard true [trailingEntry])) =
      prettyText .standard false [trailingEntry] := by
  have htexts : ∀ e ∈ [trailingEntry], ∀ s ∈ e.texts, Style.escape ∉ s := by decide
  obtain ⟨hentry, hreport⟩ := unstyled_prettyText .standard htexts
  exact ⟨htexts, by decide, hentry _ (.head _), hreport⟩

end RootCause.Report
