import RootCause.Proofs.Report.Rows

/-!
# Control characters

What a report adds to the texts that it shows are names, numbers, signs and blanks, and no control
character is among them. So no line of a report ends early and no control sequence begins in one,
unless this is so in one of the texts.
-/

namespace RootCause.Report

/-- Whether a character is one of the control characters in front of the blank. -/
def isControl (c : Char) : Bool := c.toNat < 0x20

section

variable {c : Char} (hc : isControl c = true)
include hc

theorem notMem_of_noControls {s : List Char} (h : s.any isControl = false) : c ∉ s := fun hs =>
  List.any_eq_false.mp h c hs hc

theorem isDigit_of_isControl : c.isDigit = false := by
  simp only [isControl, decide_eq_true_eq] at hc
  simp only [Char.isDigit, Bool.and_eq_false_iff, decide_eq_false_iff_not, ge_iff_le,
    UInt32.le_iff_toNat_le]
  left
  have hzero : '0'.val.toNat = 48 := rfl
  have hval : c.val.toNat = c.toNat := rfl
  omega

theorem ne_of_isControl {d : Char} (hd : isControl d = false) : c ≠ d := by
  rintro rfl
  exact Bool.false_ne_true (hd.symm.trans hc)

/-! ## Names and numbers -/

theorem control_notMem_severity (s : Severity) : c ∉ s.name.toList :=
  notMem_of_noControls hc (by cases s <;> decide)

theorem control_notMem_tool (t : Tool) : c ∉ t.name.toList :=
  notMem_of_noControls hc (by cases t <;> decide)

theorem control_notMem_origin (o : Origin) : c ∉ o.name.toList :=
  notMem_of_noControls hc (by cases o <;> decide)

theorem control_ne_marker (sign : Option Diff.Sign) : c ≠ (sign.map Diff.Sign.char).getD ' ' :=
  ne_of_isControl hc (by rcases sign with _ | (_ | _ | _ | _ | _) <;> decide)

theorem control_notMem_gutterText (width : Nat) (number : Option Nat) :
    c ∉ gutterText width number :=
  notMem_gutterText (ne_of_isControl hc (by decide)) (by simp [isDigit_of_isControl hc])

theorem control_notMem_expand (t : TabStops) {line : List Char} (h : c ∉ line) :
    c ∉ t.expand line :=
  notMem_expandFrom (ne_of_isControl hc (by decide)) h 0

end

/-! ## Places and reporters -/

theorem toList_place (d : Diagnostic) : (place d).toList =
    d.file.text.toList ++ ':' :: (Text.decimal d.line ++ ':' :: Text.decimal d.column) := by
  simp [place, toString, Text.decimal]

theorem toList_reporter (d : Diagnostic) : (reporter d).toList =
    d.tool.name.toList ++ (d.rule.map fun rule => '/' :: rule.toList).getD [] := by
  rw [reporter]
  cases d.rule with
  | none => simp
  | some rule => simp [toString]

variable {c : Char} {d : Diagnostic}

theorem control_notMem_place (hc : isControl c = true) (hfile : c ∉ d.file.text.toList) :
    c ∉ (place d).toList := by
  have hcolon : c ≠ ':' := ne_of_isControl hc (by decide)
  simp [toList_place, hfile, hcolon, Text.notMem_decimal (isDigit_of_isControl hc)]

theorem control_notMem_reporter (hc : isControl c = true) (hrule : ∀ r ∈ d.rule, c ∉ r.toList) :
    c ∉ (reporter d).toList := by
  have hslash : c ≠ '/' := ne_of_isControl hc (by decide)
  rw [toList_reporter, List.mem_append, not_or]
  refine ⟨control_notMem_tool hc _, ?_⟩
  cases hd : d.rule with
  | none => simp
  | some rule => simp [hslash, hrule rule hd]

/-! ## Hashes -/

theorem takeBytes_prefix_self (n : Nat) (s : List Char) : Text.takeBytes n s <+: s := by
  induction s generalizing n with
  | nil => simp [Text.takeBytes]
  | cons d s ih =>
    rw [Text.takeBytes]
    split
    · exact (List.prefix_cons_inj d).mpr (ih _)
    · exact List.nil_prefix

theorem shortHash_prefix_self (hash : List Char) : shortHash hash <+: hash := by
  rw [shortHash, Text.takeBytes?]
  split
  · exact takeBytes_prefix_self 8 hash
  · exact List.prefix_rfl

end RootCause.Report
