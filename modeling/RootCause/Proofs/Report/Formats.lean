import RootCause.Proofs.Diagnostic.ReadBack
import RootCause.Proofs.Json.Lines
import RootCause.Proofs.Report.Controls
import RootCause.Proofs.Text.Splitting
import RootCause.Report.Json

/-!
# One report in all formats

The compact form, JSON and JSON Lines list the same entries in the same order (`formats_agree`). The
compact form has a line for each entry, whatever line breaks are in its message; JSON has an object,
in which what the entry lacks is not named (`Entry.IsDescribedBy`); and JSON Lines has a line with
the same object, but for the order of its members.
-/

namespace RootCause.Report

/-! ## Lines of the compact form -/

namespace Entry

/-- The place and the severity of an entry. -/
def label (e : Entry) : List Char :=
  let d := e.diagnostic
  d.file.text.toList ++ ':' :: Text.decimal d.line ++ ':' :: Text.decimal d.column ++ ": ".toList ++
    d.severity.name.toList

theorem compactText_eq (e : Entry) : e.compactText =
    e.label ++ (" [".toList ++ (reporter e.diagnostic).toList ++ "] ".toList ++
      Text.joinWith [' '] (Text.lines e.diagnostic.message.toList)) := by
  simp [compactText, label, toList_place, toString]

theorem label_prefix_compactText (e : Entry) : e.label <+: e.compactText := by
  rw [compactText_eq]
  exact List.prefix_append _ _

theorem newline_notMem_compactText {e : Entry} (hfile : '\n' ∉ e.diagnostic.file.text.toList)
    (hrule : ∀ r ∈ e.diagnostic.rule, '\n' ∉ r.toList) : '\n' ∉ e.compactText := by
  have hnewline : isControl '\n' = true := by decide
  have hnumber := Text.notMem_decimal (isDigit_of_isControl hnewline)
  have hseverity := control_notMem_severity hnewline e.diagnostic.severity
  have hreporter := control_notMem_reporter hnewline hrule
  have hmessage : '\n' ∉ Text.joinWith [' '] (Text.lines e.diagnostic.message.toList) := fun h => by
    rcases Text.mem_joinWith h with h | ⟨l, hl, h⟩
    · exact absurd h (by decide)
    · exact Text.newline_notMem_of_mem_lines hl h
  rw [compactText_eq, label]
  simp [hfile, hnumber, hseverity, hreporter, hmessage]

end Entry

/-! ## Objects -/

/-- An object that names the rank and the diagnostic of an entry and those of its other parts that
the entry has, and nothing twice. -/
structure Entry.IsDescribedBy (e : Entry) (members : List (String × Json)) : Prop where
  names : (members.map Prod.fst).Sublist
    ["rank", "diagnostic", "source_line", "caret", "snippet", "blame", "history"]
  rank : members.lookup "rank" = some (.ofNat e.rank)
  diagnostic : members.lookup "diagnostic" = some e.diagnostic.toJson
  sourceLine : members.lookup "source_line" = e.sourceLine.map jsonText
  caret : members.lookup "caret" = e.caret.map rangeToJson
  view : members.lookup "snippet" = e.view.map viewToJson
  blame : members.lookup "blame" = e.blame.map blameToJson
  history : members.lookup "history" =
    if e.history = [] then none else some (.arr (e.history.map commitToJson))

theorem lookup_member? (name key : String) (v : Option Json) :
    (Json.member? name v).lookup key = if key = name then v else none := by
  cases v with
  | none => simp [Json.member?]
  | some v =>
    by_cases h : key = name
    · simp [Json.member?, h]
    · simp [Json.member?, List.lookup_cons, h, beq_false_of_ne h]

theorem names_member?_sublist (name : String) (v : Option Json) :
    ((Json.member? name v).map Prod.fst).Sublist [name] := by
  cases v with
  | none => exact List.nil_sublist _
  | some v => exact List.Sublist.refl _

theorem exists_toJson_eq (e : Entry) :
    ∃ members, e.toJson = .ofMembers members ∧ e.IsDescribedBy members := by
  have hhistory : historyToJson? e.history =
      if e.history = [] then none else some (.arr (e.history.map commitToJson)) := by
    simp [historyToJson?]
  refine ⟨_, rfl, ?_, ?_, ?_, ?_, ?_, ?_, ?_, ?_⟩
  · simp only [List.map_append]
    exact ((((List.Sublist.refl ["rank", "diagnostic"]).append (names_member?_sublist _ _)).append
      (names_member?_sublist _ _)).append (names_member?_sublist _ _)).append
      (names_member?_sublist _ _) |>.append (names_member?_sublist _ _)
  all_goals simp [List.lookup_append, List.lookup_cons, lookup_member?, hhistory]

/-! ## Numbers -/

theorem hasNaturals_jsonText (s : List Char) : (jsonText s).HasNaturals := trivial

theorem hasNaturals_orNull {v : Option Json} (h : ∀ w ∈ v, w.HasNaturals) :
    (Json.orNull v).HasNaturals := by
  cases v with
  | none => trivial
  | some w => exact h w rfl

theorem hasNaturals_rangeToJson (r : CharRange) : (rangeToJson r).HasNaturals := by
  simp [rangeToJson, Json.hasNaturals_ofMembers, Json.hasNaturals_ofNat]

theorem hasNaturals_lineToJson (l : Diff.Line) : (lineToJson l).HasNaturals := by
  have hsign : (Json.orNull (l.sign.map fun s => .ofString s.name)).HasNaturals :=
    hasNaturals_orNull (by simp [Json.ofString, Json.HasNaturals])
  have hnumber : (Json.orNull (l.newLine.map .ofNat)).HasNaturals :=
    hasNaturals_orNull (by simp [Json.hasNaturals_ofNat])
  simp [lineToJson, Json.hasNaturals_ofMembers, hasNaturals_jsonText, hsign, hnumber]

theorem hasNaturals_viewToJson (v : View) : (viewToJson v).HasNaturals := by
  have hlines : (Json.arr (v.snippet.lines.map lineToJson)).HasNaturals := by
    rw [Json.HasNaturals, Json.itemsHaveNaturals_iff, List.forall_mem_map]
    exact fun l _ => hasNaturals_lineToJson l
  have hpointer : (Json.orNull (v.snippet.pointer.map .ofNat)).HasNaturals :=
    hasNaturals_orNull (by simp [Json.hasNaturals_ofNat])
  have horigin : (Json.ofString v.origin.name).HasNaturals := trivial
  simp [viewToJson, Json.hasNaturals_ofMembers, hasNaturals_jsonText, hlines, hpointer, horigin]

theorem hasNaturals_blameToJson (b : Git.Blame) : (blameToJson b).HasNaturals := by
  simp [blameToJson, Json.hasNaturals_ofMembers, hasNaturals_jsonText]

theorem hasNaturals_commitToJson (c : Git.Commit) : (commitToJson c).HasNaturals := by
  simp [commitToJson, Json.hasNaturals_ofMembers, hasNaturals_jsonText]

theorem hasNaturals_historyToJson? (commits : List Git.Commit) :
    ∀ v ∈ historyToJson? commits, v.HasNaturals := by
  intro v hv
  rw [historyToJson?] at hv
  split at hv
  · cases hv
  · cases hv
    rw [Json.HasNaturals, Json.itemsHaveNaturals_iff, List.forall_mem_map]
    exact fun c _ => hasNaturals_commitToJson c

theorem Entry.hasNaturals_toJson (e : Entry) : e.toJson.HasNaturals := by
  rw [toJson, Json.hasNaturals_ofMembers]
  intro m hm
  simp only [List.mem_append, List.mem_cons, List.not_mem_nil, or_false, Json.mem_member?,
    Option.map_eq_some_iff] at hm
  rcases hm with (((((rfl | rfl) | ⟨-, s, -, h⟩) | ⟨-, r, -, h⟩) | ⟨-, v, -, h⟩) | ⟨-, b, -, h⟩) |
    ⟨-, h⟩
  · exact Json.hasNaturals_ofNat _
  · exact e.diagnostic.hasNaturals_toJson
  · exact h ▸ hasNaturals_jsonText s
  · exact h ▸ hasNaturals_rangeToJson r
  · exact h ▸ hasNaturals_viewToJson v
  · exact h ▸ hasNaturals_blameToJson b
  · exact hasNaturals_historyToJson? e.history _ h

/-! ## Reports -/

/-- **Every format lists the same entries in the same order.** If a report has entries, and neither
their paths nor their rules have newlines in them, its compact form cut at newlines has a line for
each entry, which begins with its place and severity; its JSON is an array with an object for each
entry; and its JSON Lines cut at newlines have a line for each of these objects, which is read as
the same value but for the order of members. -/
theorem formats_agree (t : TabStops) {entries : List Entry} (hne : entries ≠ [])
    (hfile : ∀ e ∈ entries, '\n' ∉ e.diagnostic.file.text.toList)
    (hrule : ∀ e ∈ entries, ∀ r ∈ e.diagnostic.rule, '\n' ∉ r.toList) :
    List.Forall₂ (fun e line => e.label <+: line) entries
      (((document t entries).render .compact).splitOn '\n') ∧
    ∃ objects : List (List (String × Json)),
      List.Forall₂ Entry.IsDescribedBy entries objects ∧
      Json.parse? ((document t entries).render .json) = some (.arr (objects.map .ofMembers)) ∧
      List.Forall₂ (fun members line =>
          ∃ v, Json.parse? line = some v ∧ Json.Alike (.ofMembers members) v) objects
        (((document t entries).render .jsonLines).splitOn '\n') := by
  choose members hmembers hdescribed using exists_toJson_eq
  have hitems : entries.map Entry.toJson = (entries.map members).map .ofMembers := by
    rw [List.map_map]
    exact List.map_congr_left fun e _ => hmembers e
  have hnaturals : ∀ v ∈ (entries.map members).map Json.ofMembers, v.HasNaturals := by
    rw [← hitems, List.forall_mem_map]
    exact fun e _ => e.hasNaturals_toJson
  have hcompact : ((document t entries).render .compact).splitOn '\n' =
      entries.map Entry.compactText := by
    refine List.splitOn_intercalate '\n' ?_ (by simpa using hne)
    rw [List.forall_mem_map]
    exact fun e he => Entry.newline_notMem_compactText (hfile e he) (hrule e he)
  refine ⟨?_, entries.map members, ?_, ?_, ?_⟩
  · rw [hcompact, List.forall₂_map_right_iff, List.forall₂_same]
    exact fun e _ => e.label_prefix_compactText
  · rw [List.forall₂_map_right_iff, List.forall₂_same]
    exact fun e _ => hdescribed e
  · have harray : (Json.arr ((entries.map members).map .ofMembers)).HasNaturals := by
      rwa [Json.HasNaturals, Json.itemsHaveNaturals_iff]
    rw [Output.Document.render, document, hitems]
    exact Json.parse?_render harray
  · have hlines := Json.forall₂_splitOn_jsonLines (by simpa using hne) hnaturals
    rw [List.forall₂_map_left_iff] at hlines
    rw [Output.Document.render, document, hitems]
    exact hlines

/-- A report with a message of several lines, a rule and a history of one commit in its first entry,
and a blame of which a line break is a part in its second. -/
def brokenReport : List Entry :=
  [{  rank := 0
      diagnostic :=
        { tool := .eslint
          rule := some "r"
          message := "a\r\n\nb"
          severity := .error
          location := ⟨⟨"/a"⟩, 10, 2, none, none⟩ }
      sourceLine := some "\tx\r".toList
      caret := some ⟨1, 2⟩
      history := [⟨"h".toList, "é".toList, "d".toList, "m".toList⟩] },
    { rank := 1
      diagnostic :=
        { tool := .tsc
          message := ""
          severity := .hint
          location := ⟨⟨""⟩, 0, 0, some 1, none⟩ }
      view := some ⟨.base, "@@ +1".toList, [.read 1 "+\n".toList], some 0⟩
      blame := some ⟨[], "x\ny".toList, ['\x00']⟩ }]

theorem brokenReport_formats_agree :
    brokenReport ≠ [] ∧
    (∀ e ∈ brokenReport, '\n' ∉ e.diagnostic.file.text.toList) ∧
    (∀ e ∈ brokenReport, ∀ r ∈ e.diagnostic.rule, '\n' ∉ r.toList) ∧
    List.Forall₂ (fun e line => e.label <+: line) brokenReport
      (((document .standard brokenReport).render .compact).splitOn '\n') ∧
    ∃ objects : List (List (String × Json)),
      List.Forall₂ Entry.IsDescribedBy brokenReport objects ∧
      Json.parse? ((document .standard brokenReport).render .json) =
        some (.arr (objects.map .ofMembers)) ∧
      List.Forall₂ (fun members line =>
          ∃ v, Json.parse? line = some v ∧ Json.Alike (.ofMembers members) v) objects
        (((document .standard brokenReport).render .jsonLines).splitOn '\n') := by
  have hne : brokenReport ≠ [] := List.cons_ne_nil _ _
  have hfile : ∀ e ∈ brokenReport, '\n' ∉ e.diagnostic.file.text.toList := by decide
  have hrule : ∀ e ∈ brokenReport, ∀ r ∈ e.diagnostic.rule, '\n' ∉ r.toList := by decide
  exact ⟨hne, hfile, hrule, formats_agree .standard hne hfile hrule⟩

end RootCause.Report
