import RootCause.Diagnostic.Basic
import Mathlib.Data.String.Basic

/-!
# The order of identities

Identities are ordered as their texts are, and so linearly.
-/

namespace RootCause

theorem Id.lt_iff_text_lt {a b : Id} : a < b ↔ a.text < b.text := Iff.rfl

theorem Id.ext_text {a b : Id} (h : a.text = b.text) : a = b := by
  cases a
  cases b
  exact congrArg Id.mk h

theorem Id.lt_irrefl (a : Id) : ¬ a < a := fun h => (Id.lt_iff_text_lt.mp h).ne rfl

theorem Id.lt_trans {a b c : Id} (hab : a < b) (hbc : b < c) : a < c :=
  Id.lt_iff_text_lt.mpr ((Id.lt_iff_text_lt.mp hab).trans (Id.lt_iff_text_lt.mp hbc))

theorem Id.ne_of_lt {a b : Id} (hab : a < b) : a ≠ b := by
  rintro rfl
  exact Id.lt_irrefl a hab

theorem Id.eq_of_not_lt {a b : Id} (hab : ¬ a < b) (hba : ¬ b < a) : a = b :=
  Id.ext_text (le_antisymm (not_lt.mp hba) (not_lt.mp hab))

theorem Id.lt_or_gt_of_ne {a b : Id} (h : a ≠ b) : a < b ∨ b < a := by
  by_contra hlt
  obtain ⟨hab, hba⟩ := not_or.mp hlt
  exact h (Id.eq_of_not_lt hab hba)

end RootCause
