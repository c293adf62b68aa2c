import RootCause.Proofs.Order.Presentation
import RootCause.Proofs.Text.Splitting

/-!
# Identities and sites

The identity of a diagnostic is one text, in which colons separate what it is made of and nothing is
escaped. Numbers and names of tools have no colon. So where rules have none either, the text is cut
from its end, and where files have none it is cut from its start: in both cases the identity says at
which site the problem is and who reports it for which rule, and diagnostics of different sites are
different nodes of every ranking (`id_eq_iff_isSameSite`).
-/

namespace RootCause

/-- Two diagnostics are of one site: the same tool reports them at the same place for the same rule.
To have no rule counts as having the one with the name that stands for none. -/
structure IsSameSite (d d' : Diagnostic) : Prop where
  file : d.file.text = d'.file.text
  line : d.line = d'.line
  column : d.column = d'.column
  tool : d.tool = d'.tool
  rule : d.rule.getD Id.noRule = d'.rule.getD Id.noRule

/-! ## The text of an identity -/

theorem Tool.name_injective : Function.Injective Tool.name := fun t u h =>
  Option.some.inj ((ofName?_name t).symm.trans (h ▸ ofName?_name u))

theorem colon_notMem_toolName (t : Tool) : ':' ∉ t.name.toList := by
  cases t <;> decide

theorem colon_notMem_decimal (n : Nat) : ':' ∉ Text.decimal n := Text.notMem_decimal (by decide) n

theorem Diagnostic.toList_text_id (d : Diagnostic) : d.id.text.toList =
    d.file.text.toList ++ ':' :: (Text.decimal d.line ++ ':' :: (Text.decimal d.column ++
      ':' :: (d.tool.name.toList ++ ':' :: (d.rule.getD Id.noRule).toList))) := by
  simp [Diagnostic.id, toString, Text.decimal]

/-- A missing rule is called by a name without a colon. -/
theorem colon_notMem_rule {d : Diagnostic} (h : ∀ rule ∈ d.rule, ':' ∉ rule.toList) :
    ':' ∉ (d.rule.getD Id.noRule).toList := by
  cases hrule : d.rule with
  | none => decide
  | some rule => exact h rule hrule

variable {d d' : Diagnostic}

theorem IsSameSite.id_eq (h : IsSameSite d d') : d.id = d'.id := by
  rw [Diagnostic.id, Diagnostic.id, h.file, h.line, h.column, h.tool, h.rule]

/-- Cut from the start, identities of files without colons tell all that they are made of. -/
theorem isSameSite_of_file (hfile : ':' ∉ d.file.text.toList) (hfile' : ':' ∉ d'.file.text.toList)
    (h : d.id = d'.id) : IsSameSite d d' := by
  have htext := congrArg (fun id => id.text.toList) h
  simp only [Diagnostic.toList_text_id] at htext
  obtain ⟨hfiles, htext⟩ := (Text.append_cons_inj_left hfile hfile').mp htext
  obtain ⟨hlines, htext⟩ :=
    (Text.append_cons_inj_left (colon_notMem_decimal _) (colon_notMem_decimal _)).mp htext
  obtain ⟨hcolumns, htext⟩ :=
    (Text.append_cons_inj_left (colon_notMem_decimal _) (colon_notMem_decimal _)).mp htext
  obtain ⟨htools, hrules⟩ :=
    (Text.append_cons_inj_left (colon_notMem_toolName _) (colon_notMem_toolName _)).mp htext
  exact ⟨String.toList_injective hfiles, Text.decimal_injective hlines,
    Text.decimal_injective hcolumns, Tool.name_injective (String.toList_injective htools),
    String.toList_injective hrules⟩

/-- Cut from the end, identities of rules without colons tell all that they are made of. -/
theorem isSameSite_of_rule (hrule : ∀ rule ∈ d.rule, ':' ∉ rule.toList)
    (hrule' : ∀ rule ∈ d'.rule, ':' ∉ rule.toList) (h : d.id = d'.id) : IsSameSite d d' := by
  have htext := congrArg (fun id => id.text.toList) h
  -- all that stands before the last colon is one piece, and so on from the end
  simp only [Diagnostic.toList_text_id, ← List.cons_append, ← List.append_assoc] at htext
  obtain ⟨htext, hrules⟩ :=
    (Text.append_cons_inj_right (colon_notMem_rule hrule) (colon_notMem_rule hrule')).mp htext
  obtain ⟨htext, htools⟩ :=
    (Text.append_cons_inj_right (colon_notMem_toolName _) (colon_notMem_toolName _)).mp htext
  obtain ⟨htext, hcolumns⟩ :=
    (Text.append_cons_inj_right (colon_notMem_decimal _) (colon_notMem_decimal _)).mp htext
  obtain ⟨hfiles, hlines⟩ :=
    (Text.append_cons_inj_right (colon_notMem_decimal _) (colon_notMem_decimal _)).mp htext
  exact ⟨String.toList_injective hfiles, Text.decimal_injective hlines,
    Text.decimal_injective hcolumns, Tool.name_injective (String.toList_injective htools),
    String.toList_injective hrules⟩

/-- **Identities are faithful.** Where no rule has a colon, or no file has one, two diagnostics have
the same identity exactly if they are of the same site, and only then are they the same node of a
ranking, whatever the model says about them. -/
theorem id_eq_iff_isSameSite
    (h : (∀ rule ∈ d.rule, ':' ∉ rule.toList) ∧ (∀ rule ∈ d'.rule, ':' ∉ rule.toList) ∨
      ':' ∉ d.file.text.toList ∧ ':' ∉ d'.file.text.toList) :
    (d.id = d'.id ↔ IsSameSite d d') ∧
    ∀ {σ : Type} [DecidableEq σ] (m : Order.SemanticModel σ) (ds : List Diagnostic), d ∈ ds →
      ((Order.rankingOf m ds).rankOf d.id = (Order.rankingOf m ds).rankOf d'.id ↔
        IsSameSite d d') := by
  have hid : d.id = d'.id ↔ IsSameSite d d' := by
    refine ⟨fun heq => ?_, IsSameSite.id_eq⟩
    rcases h with ⟨hrule, hrule'⟩ | ⟨hfile, hfile'⟩
    · exact isSameSite_of_rule hrule hrule' heq
    · exact isSameSite_of_file hfile hfile' heq
  refine ⟨hid, fun m ds hd => ?_⟩
  rw [← Order.sortRank_some, Order.rankOf_rankingOf_eq_iff m ds hd, hid]

/-- A problem in a file with colons in its name, for a rule without any. -/
def colonedFile : Diagnostic where
  tool := .eslint
  rule := some "no-undef"
  message := "'x' is not defined."
  severity := .error
  location := { file := ⟨"C:/p/a:1:2.ts"⟩, line := 3, column := 7 }

/-- The same problem one column further. -/
def colonedFileNext : Diagnostic :=
  { colonedFile with location := { colonedFile.location with column := 8 } }

theorem colonedFile_isOtherNode :
    (∀ rule ∈ colonedFile.rule, ':' ∉ rule.toList) ∧
    (∀ rule ∈ colonedFileNext.rule, ':' ∉ rule.toList) ∧
    colonedFile.id ≠ colonedFileNext.id ∧
    let ranking := Order.rankingOf ({} : Order.TableModel).toModel [colonedFileNext, colonedFile]
    ranking.rankOf colonedFile.id ≠ ranking.rankOf colonedFileNext.id := by
  have hrule : ∀ rule ∈ colonedFile.rule, ':' ∉ rule.toList := by decide
  have hnext : ∀ rule ∈ colonedFileNext.rule, ':' ∉ rule.toList := by decide
  have hsite : ¬ IsSameSite colonedFile colonedFileNext := fun h => absurd h.column (by decide)
  obtain ⟨hid, hnode⟩ := id_eq_iff_isSameSite (.inl ⟨hrule, hnext⟩)
  refine ⟨hrule, hnext, fun heq => hsite (hid.mp heq), fun heq => hsite ?_⟩
  exact (hnode _ [colonedFileNext, colonedFile] (by simp)).mp heq

/-- With colons in the file of one problem and in the rule of the other, two sites may have one
identity. -/
example :
    let place (file : String) : Location := { file := ⟨file⟩, line := 1, column := 1 }
    let d : Diagnostic := ⟨.tsc, some "b:1:1:tsc:c", "", .error, place "a"⟩
    let d' : Diagnostic := ⟨.tsc, some "c", "", .error, place "a:1:1:tsc:b"⟩
    d.id = d'.id ∧ d.file ≠ d'.file := by
  decide +kernel

end RootCause
