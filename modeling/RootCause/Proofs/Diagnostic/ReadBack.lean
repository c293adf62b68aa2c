import RootCause.Diagnostic.Json
import RootCause.Intake.Format
import RootCause.Proofs.Json.ReadBack
import RootCause.Proofs.Json.Records

/-!
# Diagnostics read back

The form in which diagnostics are written is a format in which they are read, and loses nothing
(`Intake.Format.read_render_diagnostics`): the fields are found by their names, those without a
value are left out and read as such, and names of tools and severities are read as what they name.
Lines and columns have to fit into machine words, which is what they are read as.
-/

namespace RootCause

open Json (ofNat ofString)

/-! ## Locations -/

/-- Lines and columns fit into machine words. -/
structure Location.FitsWord (l : Location) : Prop where
  line : l.line < Text.wordSize
  column : l.column < Text.wordSize
  endLine : ∀ n ∈ l.endLine, n < Text.wordSize
  endColumn : ∀ n ∈ l.endColumn, n < Text.wordSize

instance (l : Location) : Decidable l.FitsWord :=
  decidable_of_iff
    (l.line < Text.wordSize ∧ l.column < Text.wordSize ∧ (∀ n ∈ l.endLine, n < Text.wordSize) ∧
      ∀ n ∈ l.endColumn, n < Text.wordSize)
    ⟨fun ⟨h₁, h₂, h₃, h₄⟩ => ⟨h₁, h₂, h₃, h₄⟩, fun ⟨h₁, h₂, h₃, h₄⟩ => ⟨h₁, h₂, h₃, h₄⟩⟩

namespace Location

theorem hasNaturals_toJson (l : Location) : l.toJson.HasNaturals := by
  rw [toJson, Json.hasNaturals_ofMembers]
  intro m hm
  simp only [List.mem_append, List.mem_cons, List.not_mem_nil, or_false, Json.mem_member?,
    Option.map_eq_some_iff] at hm
  rcases hm with ((rfl | rfl | rfl) | ⟨-, n, -, hn⟩) | ⟨-, n, -, hn⟩
  · trivial
  · exact Json.hasNaturals_ofNat _
  · exact Json.hasNaturals_ofNat _
  · exact hn ▸ Json.hasNaturals_ofNat n
  · exact hn ▸ Json.hasNaturals_ofNat n

theorem fields?_toJson (l : Location) :
    Json.fields? fieldNames l.toJson =
      some [some (ofString l.file.text), some (ofNat l.line), some (ofNat l.column),
        l.endLine.map ofNat, l.endColumn.map ofNat] := by
  rw [toJson, Json.fields?_ofMembers]
  · cases l.endLine <;> cases l.endColumn <;> rfl
  · cases l.endLine <;> cases l.endColumn <;> simp [Json.member?]

theorem ofJson?_toJson {l : Location} (h : l.FitsWord) : ofJson? l.toJson = some l := by
  have hendLine : Json.optionalField Json.Reader.nat (l.endLine.map ofNat) = some l.endLine :=
    Json.optionalField_map (fun _ => nofun) fun n hn => Json.nat_ofNat (h.endLine n hn)
  have hendColumn : Json.optionalField Json.Reader.nat (l.endColumn.map ofNat) = some l.endColumn :=
    Json.optionalField_map (fun _ => nofun) fun n hn => Json.nat_ofNat (h.endColumn n hn)
  simp only [ofJson?, fields?_toJson, Json.required_some, Json.string_ofString,
    Json.nat_ofNat h.line, Json.nat_ofNat h.column, hendLine, hendColumn, Option.bind_eq_bind,
    Option.bind_some]
  rfl

end Location

/-! ## Diagnostics -/

namespace Diagnostic

theorem hasNaturals_toJson (d : Diagnostic) : d.toJson.HasNaturals := by
  rw [toJson, Json.hasNaturals_ofMembers]
  intro m hm
  simp only [List.mem_append, List.mem_cons, List.not_mem_nil, or_false, Json.mem_member?,
    Option.map_eq_some_iff] at hm
  rcases hm with (rfl | ⟨-, s, -, hs⟩) | rfl | rfl | rfl
  · trivial
  · rw [← hs]
    trivial
  · trivial
  · trivial
  · exact d.location.hasNaturals_toJson

theorem fields?_toJson (d : Diagnostic) :
    Json.fields? fieldNames d.toJson =
      some [some (ofString d.tool.name), d.rule.map ofString, some (ofString d.message),
        some (ofString d.severity.name), some d.location.toJson] := by
  rw [toJson, Json.fields?_ofMembers]
  · cases d.rule <;> rfl
  · cases d.rule <;> simp [Json.member?]

theorem ofJson?_toJson {d : Diagnostic} (h : d.location.FitsWord) : ofJson? d.toJson = some d := by
  have hrule : Json.optionalField Json.Reader.string (d.rule.map ofString) = some d.rule :=
    Json.optionalField_map (fun _ => nofun) fun s _ => Json.string_ofString s
  simp only [ofJson?, fields?_toJson, Json.required_some, Json.string_ofString, Json.named_ofString,
    Tool.ofName?_name, Severity.ofName?_name, Location.ofJson?_toJson h, hrule, Option.bind_eq_bind,
    Option.bind_some]
  rfl

end Diagnostic

namespace Intake.Format

/-- **Diagnostics are read back as they were written**, whatever their texts are and whichever of
their fields are missing. -/
theorem read_render_diagnostics {ds : List Diagnostic} (h : ∀ d ∈ ds, d.location.FitsWord) :
    read .json (Json.arr (ds.map Diagnostic.toJson)).render = .ok ds := by
  have hnaturals : (Json.arr (ds.map Diagnostic.toJson)).HasNaturals := by
    rw [Json.HasNaturals, Json.itemsHaveNaturals_iff, List.forall_mem_map]
    exact fun d _ => d.hasNaturals_toJson
  have hlist : Json.Reader.list Diagnostic.ofJson? (.arr (ds.map Diagnostic.toJson)) = some ds :=
    Json.list_arr fun d hd => Diagnostic.ofJson?_toJson (h d hd)
  rw [read, readDocument, Json.parse?_render hnaturals, Option.bind_some, hlist]

/-- Diagnostics with a control character, quotes, a backslash and characters of several octets in
their texts, the largest number, and an end of which one half is missing. -/
def awkwardDiagnostics : List Diagnostic :=
  [⟨.tsc, none, "\x00 \x22é\x22\n", .hint, ⟨⟨"C:\\a\t.ts"⟩, 18446744073709551615, 0, none, some 7⟩⟩,
    ⟨.oxlint, some "", "𝒳\x7f", .error, ⟨⟨""⟩, 1, 2, some 3, some 4⟩⟩]

theorem read_render_awkwardDiagnostics :
    (∀ d ∈ awkwardDiagnostics, d.location.FitsWord) ∧
    read .json (Json.arr (awkwardDiagnostics.map Diagnostic.toJson)).render =
      .ok awkwardDiagnostics := by
  have h : ∀ d ∈ awkwardDiagnostics, d.location.FitsWord := by decide
  exact ⟨h, read_render_diagnostics h⟩

end Intake.Format

end RootCause
