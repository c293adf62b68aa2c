import RootCause.Intake.Input
import RootCause.Proofs.Diagnostic.ReadBack
import RootCause.Proofs.Json.QuotedWords

/-!
# Diagnostics recognised

An array of diagnostics, as it is written here, is recognised as such by its text, unless the quoted
word by which a linter's report is recognised is found in it. Of the texts in a diagnostic, only
message, rule and file can be ones in which it is found (`occurs_filePath_iff`), and where it is,
what is taken for a linter's report is refused, since no diagnostic has the field of that name
(`ofLint?_toJson`). So diagnostics are read as what they are or not at all
(`readOutput_render_diagnostics`).
-/

namespace RootCause

/-! ## Texts of a diagnostic -/

theorem Location.of_mem_texts_toJson {l : Location} {s : String} (h : some s ∈ l.toJson.texts) :
    s ∈ fieldNames ∨ s = l.file.text := by
  obtain ⟨m, hm, h⟩ := Json.some_mem_texts_ofMembers.mp h
  simp only [List.mem_append, List.mem_cons, List.not_mem_nil, or_false, Json.mem_member?,
    Option.map_eq_some_iff] at hm
  have hnumber : ∀ n, some s ∉ (Json.ofNat n).texts := fun _ => List.not_mem_nil
  rcases h with rfl | h
  · left
    rcases hm with ((rfl | rfl | rfl) | ⟨hm, -⟩) | ⟨hm, -⟩ <;> simp [fieldNames, *]
  rcases hm with ((rfl | rfl | rfl) | ⟨-, n, -, hn⟩) | ⟨-, n, -, hn⟩
  · exact .inr (Option.some.inj (List.mem_singleton.mp h))
  · exact absurd h (hnumber _)
  · exact absurd h (hnumber _)
  · exact absurd (hn ▸ h) (hnumber n)
  · exact absurd (hn ▸ h) (hnumber n)

theorem Location.mem_texts_toJson (l : Location) : some l.file.text ∈ l.toJson.texts := by
  rw [toJson, Json.some_mem_texts_ofMembers]
  exact ⟨("file", .ofString l.file.text), by simp, .inr (by simp [Json.ofString, Json.texts])⟩

namespace Diagnostic

/-- The texts of a diagnostic that may be any. -/
def freeTexts (d : Diagnostic) : List String := d.message :: d.file.text :: d.rule.toList

/-- The other texts that diagnostics are written with: names of fields, tools and severities. -/
def fixedTexts : List String :=
  fieldNames ++ Location.fieldNames ++ [Tool.eslint, .oxlint, .tsc].map Tool.name ++
    [Severity.hint, .info, .warning, .error].map Severity.name

theorem mem_fixedTexts_of_mem_fieldNames {s : String} (h : s ∈ fieldNames) : s ∈ fixedTexts := by
  simp [fixedTexts, h]

theorem of_mem_texts_toJson {d : Diagnostic} {s : String} (h : some s ∈ d.toJson.texts) :
    s ∈ fixedTexts ∨ s ∈ d.freeTexts := by
  obtain ⟨m, hm, h⟩ := Json.some_mem_texts_ofMembers.mp h
  simp only [List.mem_append, List.mem_cons, List.not_mem_nil, or_false, Json.mem_member?,
    Option.map_eq_some_iff] at hm
  have hname : m.1 ∈ fieldNames := by
    rcases hm with (rfl | ⟨hm, -⟩) | rfl | rfl | rfl <;> simp [fieldNames, *]
  have hstring : ∀ {t : String}, some s ∈ (Json.ofString t).texts → s = t := fun h =>
    Option.some.inj (List.mem_singleton.mp h)
  rcases h with rfl | h
  · exact .inl (mem_fixedTexts_of_mem_fieldNames hname)
  rcases hm with (rfl | ⟨-, r, hr, hm⟩) | rfl | rfl | rfl
  · obtain rfl := hstring h
    exact .inl (by cases d.tool <;> decide)
  · obtain rfl := hstring (hm ▸ h)
    exact .inr (by simp [freeTexts, hr])
  · obtain rfl := hstring h
    exact .inr (by simp [freeTexts])
  · obtain rfl := hstring h
    exact .inl (by cases d.severity <;> decide)
  · rcases Location.of_mem_texts_toJson h with h | rfl
    · exact .inl (by simp [fixedTexts, h])
    · exact .inr (by simp [freeTexts])

theorem mem_texts_toJson {d : Diagnostic} {s : String} (h : s ∈ d.freeTexts) :
    some s ∈ d.toJson.texts := by
  rw [toJson, Json.some_mem_texts_ofMembers]
  simp only [freeTexts, List.mem_cons, Option.mem_toList] at h
  rcases h with rfl | rfl | hrule
  · exact ⟨("message", .ofString d.message), by simp, .inr List.mem_cons_self⟩
  · exact ⟨("location", d.location.toJson), by simp, .inr d.location.mem_texts_toJson⟩
  · exact ⟨("rule_id", .ofString s), by simp [Json.mem_member?, hrule], .inr List.mem_cons_self⟩

/-- A text is the name by which a linter's report is recognised, or ends with a quote and this
name. -/
def EndsInFilePath (s : String) : Prop := s = "filePath" ∨ "\"filePath".toList <:+ s.toList

instance (s : String) : Decidable (EndsInFilePath s) := inferInstanceAs (Decidable (_ ∨ _))

/-- Message, file or rule of a diagnostic end in that name. -/
def MentionsFilePath (d : Diagnostic) : Prop := ∃ s ∈ d.freeTexts, EndsInFilePath s

instance (d : Diagnostic) : Decidable d.MentionsFilePath :=
  inferInstanceAs (Decidable (∃ s ∈ d.freeTexts, EndsInFilePath s))

theorem exists_mem_texts_toJson_iff (d : Diagnostic) :
    (∃ s, some s ∈ d.toJson.texts ∧ EndsInFilePath s) ↔ d.MentionsFilePath := by
  have hfixed : ∀ s ∈ fixedTexts, ¬ EndsInFilePath s := by decide
  constructor
  · rintro ⟨s, hs, h⟩
    exact ⟨s, (of_mem_texts_toJson hs).resolve_left fun hs => hfixed s hs h, h⟩
  · rintro ⟨s, hs, h⟩
    exact ⟨s, mem_texts_toJson hs, h⟩

end Diagnostic

namespace Intake

/-! ## An array of diagnostics -/

/-- Diagnostics as they are written. -/
def written (ds : List Diagnostic) : List Char := (Json.arr (ds.map Diagnostic.toJson)).render

theorem hasNaturals_arr (ds : List Diagnostic) :
    (Json.arr (ds.map Diagnostic.toJson)).HasNaturals := by
  rw [Json.HasNaturals, Json.itemsHaveNaturals_iff, List.forall_mem_map]
  exact fun d _ => d.hasNaturals_toJson

theorem parse?_written (ds : List Diagnostic) :
    Json.parse? (written ds) = some (.arr (ds.map Diagnostic.toJson)) :=
  Json.parse?_render (hasNaturals_arr ds)

/-- A search for the quoted word finds it if and only if some diagnostic mentions it. -/
theorem occurs_filePath_iff (ds : List Diagnostic) :
    Text.occurs "\"filePath\"".toList (written ds) = true ↔ ∃ d ∈ ds, d.MentionsFilePath := by
  have hletters : ∀ c ∈ "filePath".toList, c.isAlpha = true := List.all_eq_true.mp (by decide)
  have hquoted : "\"filePath\"".toList = Json.quoted "filePath".toList := by decide
  have hends : ∀ s : String,
      s.toList = "filePath".toList ∨ '\x22' :: "filePath".toList <:+ s.toList ↔
        Diagnostic.EndsInFilePath s := fun s => or_congr_left String.toList_inj
  rw [Text.occurs, Text.isSome_splitOnce?_iff, hquoted, written,
    Json.quoted_infix_render_iff hletters (hasNaturals_arr ds)]
  simp only [hends, Json.texts, Json.mem_textsOfItems, List.mem_map, exists_exists_and_eq_and]
  constructor
  · rintro ⟨s, ⟨d, hd, hs⟩, h⟩
    exact ⟨d, hd, d.exists_mem_texts_toJson_iff.mp ⟨s, hs, h⟩⟩
  · rintro ⟨d, hd, h⟩
    obtain ⟨s, hs, h⟩ := d.exists_mem_texts_toJson_iff.mpr h
    exact ⟨s, ⟨d, hd, hs⟩, h⟩

/-! ## Reading in a format -/

theorem LintFile.ofJson?_toJson (d : Diagnostic) : LintFile.ofJson? d.toJson = none := by
  have hfields : Json.fields? ["filePath", "messages"] d.toJson = some [none, none] := by
    rw [Diagnostic.toJson, Json.fields?_ofMembers]
    · cases d.rule <;> rfl
    · cases d.rule <;> simp [Json.member?]
  simp only [LintFile.ofJson?, hfields, Option.bind_eq_bind, Option.bind_some]
  rfl

/-- A diagnostic is no file of a linter's report: it has no field with the file's name. -/
theorem ofLint?_toJson (tool : Tool) {ds : List Diagnostic} (h : ds ≠ []) :
    ofLint? tool (.arr (ds.map Diagnostic.toJson)) = none := by
  cases ds with
  | nil => exact absurd rfl h
  | cons d ds =>
    rw [ofLint?, Json.Reader.list, List.map_cons, List.mapM_cons, LintFile.ofJson?_toJson]
    rfl

namespace Format

theorem readDocument_ofLint?_written (tool : Tool) {ds : List Diagnostic} (h : ds ≠ []) :
    readDocument (ofLint? tool) (written ds) = .error .json := by
  rw [readDocument, parse?_written, Option.bind_some, ofLint?_toJson tool h]

theorem read_json_written {ds : List Diagnostic} (h : ∀ d ∈ ds, d.location.FitsWord) :
    read .json (written ds) = .ok ds := by
  rw [read, readDocument, parse?_written, Option.bind_some,
    Json.list_arr fun d hd => Diagnostic.ofJson?_toJson (h d hd)]

/-! ## Recognition -/

/-- What is written starts with a bracket, so it is an array of some kind: a linter's report if the
quoted word is found, and else diagnostics. -/
theorem detect?_written {path : Path} {name : List Char} (hname : path.fileName? = some name)
    (hsarif : isSarifName name = false) (ds : List Diagnostic) :
    detect? path (written ds) =
      if ∃ d ∈ ds, d.MentionsFilePath then
        if Text.occurs "oxlint".toList name then some .oxlint else some .eslint
      else some .json := by
  obtain ⟨rest, hrest⟩ : ∃ rest, written ds = '[' :: rest := by
    cases ds with
    | nil => exact ⟨_, rfl⟩
    | cons d ds => exact ⟨_, rfl⟩
  have hhead : (written ds).head? = some '[' := by rw [hrest, List.head?_cons]
  have hobject : ¬ ((written ds).head? = some '{' ∧
      Text.occurs "\"runs\"".toList (written ds) = true) := by
    rw [hhead]
    exact fun h => absurd h.1 (by decide)
  rw [detect?_of_isSarifName_eq_false hname hsarif, Text.trimStart_of_head? hhead (by decide)]
  simp only [sniff, if_neg hobject, if_pos hhead, occurs_filePath_iff]

end Format

/-- **Diagnostics are read as what they are or not at all**: without a given format, from a file
that is not named like a SARIF log, written diagnostics are read back, unless some text in them ends
in the quoted word by which a linter's report is recognised, and then they are refused. -/
theorem readOutput_render_diagnostics {path : Path} {name : List Char} {ds : List Diagnostic}
    (hname : path.fileName? = some name) (hsarif : ¬ ".sarif".toList <:+ name)
    (hsarifJson : ¬ ".sarif.json".toList <:+ name) (hne : ds ≠ [])
    (hfits : ∀ d ∈ ds, d.location.FitsWord) :
    readOutput path (Json.arr (ds.map Diagnostic.toJson)).render none =
      if ∃ d ∈ ds, d.MentionsFilePath then .error (.malformed path .json) else .ok ds := by
  have hnot : Format.isSarifName name = false := by
    rw [← List.isSuffixOf_iff_suffix, Bool.not_eq_true] at hsarif hsarifJson
    rw [Format.isSarifName, Text.endsWith, Text.endsWith, hsarif, hsarifJson, Bool.or_false]
  change readOutput path (written ds) none = _
  rw [readOutput, Option.none_or, Format.detect?_written hname hnot]
  by_cases hmentions : ∃ d ∈ ds, d.MentionsFilePath
  · rw [if_pos hmentions, if_pos hmentions]
    cases Text.occurs "oxlint".toList name with
    | true =>
      simp only [if_true, Format.read, Format.readDocument_ofLint?_written .oxlint hne]
    | false =>
      simp only [Bool.false_eq_true, if_false, Format.read,
        Format.readDocument_ofLint?_written .eslint hne]
  · rw [if_neg hmentions, if_neg hmentions]
    simp only [Format.read_json_written hfits]

/-- Problems of which the second is about the word itself. -/
def filePathDiagnostics : List Diagnostic :=
  [⟨.tsc, some "TS2339", "no property \"filePath\"", .error, ⟨⟨"src/a.ts"⟩, 3, 4, none, none⟩⟩,
    ⟨.eslint, none, "did you mean \"filePath", .hint, ⟨⟨"b.ts"⟩, 1, 1, some 1, some 9⟩⟩]

/-- The first problem alone is read back, since its text goes on after the word; both together are
refused. -/
theorem readOutput_filePathDiagnostics :
    readOutput ⟨"out/oxlint.json"⟩
        (Json.arr ((filePathDiagnostics.take 1).map Diagnostic.toJson)).render none =
      .ok (filePathDiagnostics.take 1) ∧
    readOutput ⟨"out/oxlint.json"⟩
        (Json.arr (filePathDiagnostics.map Diagnostic.toJson)).render none =
      .error (.malformed ⟨"out/oxlint.json"⟩ .json) := by
  have hname : (⟨"out/oxlint.json"⟩ : Path).fileName? = some "oxlint.json".toList := by
    decide +kernel
  have hfits : ∀ d ∈ filePathDiagnostics, d.location.FitsWord := by decide
  constructor
  · rw [readOutput_render_diagnostics hname (by decide) (by decide) (by decide)
      fun d hd => hfits d (List.mem_of_mem_take hd)]
    exact if_neg (by decide)
  · rw [readOutput_render_diagnostics hname (by decide) (by decide) (by decide) hfits]
    exact if_pos (by decide)

end Intake

end RootCause
