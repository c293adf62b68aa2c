import Mathlib.Data.List.Basic
import Mathlib.Data.String.Basic

/-!
# Texts as octets

Texts are ordered character by character, and as the lists of their UTF-8 octets they are in the
same order (`lt_iff_octets_lt`): two characters differ in an octet of both, and the first such octet
of the smaller character is the smaller one (`utf8EncodeChar_append_lt`).
-/

namespace RootCause.Text

/-- The octets of a text in UTF-8. -/
def octets (s : String) : List UInt8 := s.toUTF8.data.toList

theorem octets_eq_flatMap (s : String) : octets s = s.toList.flatMap String.utf8EncodeChar := by
  rw [octets, String.toUTF8_eq_toByteArray, ← String.utf8Encode_toList, List.utf8Encode]
  simp

theorem cons_ofNat_lt_cons_ofNat {m n : Nat} (hm : m < 256) (hn : n < 256) (s t : List UInt8) :
    UInt8.ofNat m :: s < UInt8.ofNat n :: t ↔ m < n ∨ m = n ∧ s < t := by
  rw [List.cons_lt_cons_iff, UInt8.lt_iff_toNat_lt, ← UInt8.toNat_inj,
    UInt8.toNat_ofNat_of_lt' hm, UInt8.toNat_ofNat_of_lt' hn]

/-- The octets of a smaller character come first, whatever follows the two. -/
theorem utf8EncodeChar_append_lt {c d : Char} (h : c < d) (s t : List UInt8) :
    String.utf8EncodeChar c ++ s < String.utf8EncodeChar d ++ t := by
  have hlt : c.val.toNat < d.val.toNat := h
  have hmax : d.val.toNat < 0x110000 := by
    have hvalid := d.valid
    simp only [UInt32.isValidChar, Nat.isValidChar] at hvalid
    omega
  -- the higher digits in base 64, one after the other
  have hsecond : ∀ n : Nat, n / 4096 = n / 64 / 64 := fun n => by omega
  have hthird : ∀ n : Nat, n / 262144 = n / 64 / 64 / 64 := fun n => by omega
  simp only [String.utf8EncodeChar, hsecond, hthird]
  generalize c.val.toNat = m at *
  generalize d.val.toNat = n at *
  split_ifs <;> simp (disch := omega) only [List.cons_append, List.nil_append,
    cons_ofNat_lt_cons_ofNat] <;> omega

theorem flatMap_utf8EncodeChar_lt {s t : List Char} (h : s < t) :
    s.flatMap String.utf8EncodeChar < t.flatMap String.utf8EncodeChar := by
  induction h with
  | nil =>
    rename_i c l
    have hne : (c :: l).flatMap String.utf8EncodeChar ≠ [] := by simp
    obtain ⟨b, bs, hcons⟩ := List.exists_cons_of_ne_nil hne
    rw [hcons]
    exact List.nil_lt_cons b bs
  | rel hcd => exact utf8EncodeChar_append_lt hcd _ _
  | cons _ ih => exact List.append_left_lt ih

/-- **Texts are in the order of their octets.** -/
theorem lt_iff_octets_lt {s t : String} : s < t ↔ octets s < octets t := by
  have hmono : ∀ {s t : String}, s < t → octets s < octets t := fun {s t} h => by
    rw [octets_eq_flatMap, octets_eq_flatMap]
    exact flatMap_utf8EncodeChar_lt (String.lt_iff_toList_lt.mp h)
  refine ⟨hmono, fun h => ?_⟩
  rcases lt_trichotomy s t with hlt | rfl | hgt
  · exact hlt
  · exact absurd h (List.lt_irrefl _)
  · exact absurd h (List.lt_asymm (hmono hgt))

end RootCause.Text
