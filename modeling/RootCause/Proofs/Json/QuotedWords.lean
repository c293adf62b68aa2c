import RootCause.Proofs.Json.Tokens
import RootCause.Proofs.Text.Splitting

/-!
# Quoted words in a written value

Where a word of letters can stand between two quotes in the compact form of a value. Such a word has
no character that stands outside of strings, so it does not go beyond one string
(`quoted_infix_render`). Its second quote is no escaped one, since a letter stands before it, and so
ends the string; the first one is the quote that starts the string or one of its own, which is
escaped (`quoted_infix_quote_some`). Hence a search for the quoted word finds the strings that are
the word or end with a quote and the word (`quoted_infix_render_iff`).
-/

namespace RootCause.Json

/-- A word between quotes. -/
def quoted (w : List Char) : List Char := '\x22' :: (w ++ ['\x22'])

/-! ## Characters of a string -/

theorem ne_of_isAlpha {c d : Char} (hc : c.isAlpha = true) (hd : d.isAlpha = false) : c ≠ d := by
  rintro rfl
  exact Bool.false_ne_true (hd.symm.trans hc)

theorem isAlpha_of_lt {c : Char} (h : c.toNat < 0x20) : c.isAlpha = false := by
  have hcontrols : ∀ n < 0x20, (Char.ofNat n).isAlpha = false := by decide
  rw [← Char.ofNat_toNat c]
  exact hcontrols _ h

/-- A character that is no quote stands as it is, or it is no letter and is written with a backslash
in front. -/
theorem escape_eq (c : Char) :
    (escape c = [c] ∧ c ≠ '\x22') ∨ (c.isAlpha = false ∧ ∃ s, escape c = '\\' :: s) := by
  rcases escape_cases c with ⟨e, hescape, he⟩ | ⟨hescape, hcontrol⟩ | ⟨hescape, hquote, -⟩
  · exact .inr ⟨(shortEscape?_eq_some he).2, _, hescape⟩
  · exact .inr ⟨isAlpha_of_lt hcontrol, _, hescape⟩
  · exact .inl ⟨hescape, hquote⟩

/-- Only a quote is written with a quote. -/
theorem quote_notMem_escape {c : Char} (h : c ≠ '\x22') : '\x22' ∉ escape c := fun hmem => by
  rcases eq_of_mem_escape hmem with heq | halphanum | heq
  · exact absurd heq (by decide)
  · exact absurd halphanum (by decide)
  · exact h heq.symm

/-! ## Quoted words in a string -/

section

variable {w : List Char} (hw : ∀ c ∈ w, c.isAlpha = true)

theorem not_quoted_infix_singleton (c : Char) : ¬ quoted w <:+: [c] := fun h => by
  have hlength := h.length_le
  simp [quoted] at hlength

theorem not_quoted_infix_of_notMem {s : List Char} (h : '\x22' ∉ s) : ¬ quoted w <:+: s :=
  fun hquoted => h (hquoted.subset List.mem_cons_self)

include hw

/-- What is written with its closing quote starts with a word and a quote only if it is the word. -/
theorem prefix_escape_iff (s : List Char) :
    w ++ ['\x22'] <+: s.flatMap escape ++ ['\x22'] ↔ s = w := by
  induction s generalizing w with
  | nil => cases w <;> simp [List.cons_prefix_cons]
  | cons d s ih =>
    rw [List.flatMap_cons, List.append_assoc]
    cases w with
    | nil =>
      rcases escape_eq d with ⟨hd, hquote⟩ | ⟨-, t, ht⟩
      · simp [hd, hquote.symm]
      · simp [ht]
    | cons c w =>
      obtain ⟨hc, hw⟩ := List.forall_mem_cons.mp hw
      rcases escape_eq d with ⟨hd, -⟩ | ⟨hd, t, ht⟩
      · rw [hd, List.singleton_append, List.cons_append, List.cons_prefix_cons, ih hw,
          List.cons.injEq, eq_comm (a := c)]
      · have hbackslash : c ≠ '\\' := ne_of_isAlpha hc (by decide)
        have hne : d ≠ c := (ne_of_isAlpha hc hd).symm
        simp [ht, hbackslash, hne]

/-- What is written with its closing quote has a quoted word in it only if it ends with a quote of
its own and the word. -/
theorem quoted_infix_escape_iff (s : List Char) :
    quoted w <:+: s.flatMap escape ++ ['\x22'] ↔ '\x22' :: w <:+ s := by
  induction s with
  | nil => simp [not_quoted_infix_singleton]
  | cons c s ih =>
    rw [List.flatMap_cons, List.append_assoc, List.suffix_cons_iff]
    by_cases hc : c = '\x22'
    · subst hc
      have hescape : escape '\x22' = ['\\', '\x22'] := rfl
      have hbackslash : ¬ quoted w <+: '\\' :: '\x22' :: (s.flatMap escape ++ ['\x22']) := by
        simp [quoted]
      have hquote : quoted w <+: '\x22' :: (s.flatMap escape ++ ['\x22']) ↔ s = w := by
        rw [quoted, List.cons_prefix_cons, prefix_escape_iff hw]
        simp
      rw [hescape, List.cons_append, List.singleton_append, List.infix_cons_iff,
        List.infix_cons_iff, hquote, ih, or_iff_right hbackslash]
      simp [eq_comm]
    · have hne : '\x22' :: w ≠ c :: s := fun h => hc (List.cons.inj h).1.symm
      rw [or_iff_right hne, ← ih]
      exact Text.cons_infix_append_iff (quote_notMem_escape hc)

/-- A string has a quoted word in it if it is the word, or ends with a quote and the word. -/
theorem quoted_infix_quote_some (s : String) :
    quoted w <:+: quote (some s) ↔ s.toList = w ∨ '\x22' :: w <:+ s.toList := by
  have hquote : quote (some s) = '\x22' :: (s.toList.flatMap escape ++ ['\x22']) := rfl
  rw [hquote, List.infix_cons_iff, quoted_infix_escape_iff hw, quoted, List.cons_prefix_cons,
    prefix_escape_iff hw]
  simp

/-- A string without a text has no quoted word in it. -/
theorem not_quoted_infix_quote_none : ¬ quoted w <:+: quote none := by
  have hescape : '\x22' ∉ ['\\', 'u', 'd', '8', '0', '0'] := by decide
  have hafter : ¬ quoted w <:+: ['\\', 'u', 'd', '8', '0', '0'] ++ ['\x22'] := fun h =>
    not_quoted_infix_singleton _ ((Text.cons_infix_append_iff hescape).mp h)
  rw [quote_none, List.infix_cons_iff, not_or]
  refine ⟨?_, hafter⟩
  cases w with
  | nil => simp [quoted]
  | cons c w =>
    have hbackslash : c ≠ '\\' := ne_of_isAlpha (hw c List.mem_cons_self) (by decide)
    simp [quoted, hbackslash]

end

/-! ## Quoted words in a value -/

mutual

/-- The strings in a value, names of members included. -/
def texts : Json → List Text
  | .str text => [text]
  | .arr items => textsOfItems items
  | .obj members => textsOfMembers members
  | _ => []

/-- The strings in some items. -/
def textsOfItems : List Json → List Text
  | [] => []
  | v :: vs => v.texts ++ textsOfItems vs

/-- The strings in some members. -/
def textsOfMembers : List (Text × Json) → List Text
  | [] => []
  | (name, v) :: members => name :: (v.texts ++ textsOfMembers members)

end

theorem mem_textsOfItems {text : Text} {vs : List Json} :
    text ∈ textsOfItems vs ↔ ∃ v ∈ vs, text ∈ v.texts := by
  induction vs with
  | nil => simp [textsOfItems]
  | cons v vs ih => simp [textsOfItems, ih]

theorem mem_textsOfMembers {text : Text} {members : List (Text × Json)} :
    text ∈ textsOfMembers members ↔ ∃ m ∈ members, text = m.1 ∨ text ∈ m.2.texts := by
  induction members with
  | nil => simp [textsOfMembers]
  | cons m members ih => simp [textsOfMembers, ih, or_assoc]

section

variable {p : Text → Prop} {v : Json} {vs : List Json} {name : Text}
  {members : List (Text × Json)}

theorem exists_mem_textsOfItems_cons :
    (∃ t ∈ textsOfItems (v :: vs), p t) ↔ (∃ t ∈ v.texts, p t) ∨ ∃ t ∈ textsOfItems vs, p t := by
  simp only [textsOfItems, List.mem_append, or_and_right, exists_or]

theorem exists_mem_textsOfMembers_cons :
    (∃ t ∈ textsOfMembers ((name, v) :: members), p t) ↔
      p name ∨ (∃ t ∈ v.texts, p t) ∨ ∃ t ∈ textsOfMembers members, p t := by
  simp only [textsOfMembers, List.mem_cons, List.mem_append, or_and_right, exists_or,
    exists_eq_left]

end

theorem some_mem_texts_ofMembers {s : String} {members : List (String × Json)} :
    some s ∈ (ofMembers members).texts ↔ ∃ m ∈ members, s = m.1 ∨ some s ∈ m.2.texts := by
  rw [ofMembers, texts, mem_textsOfMembers]
  simp only [List.mem_map, exists_exists_and_eq_and, Option.some.injEq]

section

variable {w : List Char} (hw : ∀ c ∈ w, c.isAlpha = true)
include hw

theorem notMem_quoted {c : Char} (hc : c.isAlpha = false) (hquote : c ≠ '\x22') :
    c ∉ quoted w := by
  have hnot : c ∉ w := fun h => Bool.false_ne_true (hc.symm.trans (hw c h))
  simp [quoted, hquote, hnot]

/-- A quoted word lies on one side of a sign between tokens. -/
theorem quoted_infix_append_sign {t : Token} {c : Char} (h : t.sign? = some c)
    (s rest : List Char) :
    quoted w <:+: s ++ c :: rest ↔ quoted w <:+: s ∨ quoted w <:+: rest := by
  refine Text.infix_append_cons_iff ?_
  cases t <;> cases h <;> exact notMem_quoted hw (by decide) (by decide)

theorem quoted_infix_sign_cons {t : Token} {c : Char} (h : t.sign? = some c) (rest : List Char) :
    quoted w <:+: c :: rest ↔ quoted w <:+: rest := by
  have hnil : ¬ quoted w <:+: [] := by simp [quoted]
  have happend := quoted_infix_append_sign hw h [] rest
  rwa [List.nil_append, or_iff_right hnil] at happend

mutual

/-- A quoted word in the compact form of a value is in one of its strings. -/
theorem quoted_infix_render : ∀ {v : Json}, v.HasNaturals →
    (quoted w <:+: v.render ↔ ∃ t ∈ v.texts, quoted w <:+: quote t)
  | .null, _ | .bool true, _ | .bool false, _ | .arr [], _ | .obj [], _ =>
    iff_of_false (not_quoted_infix_of_notMem (by decide))
      (by simp [texts, textsOfItems, textsOfMembers])
  | .num literal, hn => by
    obtain ⟨n, rfl⟩ : ∃ n : Nat, literal = toString n := hn
    have hdigits : (toString n).toList = Text.decimal n := Nat.toList_repr
    have hquote : '\x22' ∉ (Json.num (toString n)).render := by
      rw [render, hdigits]
      exact Text.notMem_decimal (by decide) n
    exact iff_of_false (not_quoted_infix_of_notMem hquote) (by simp [texts])
  | .str text, _ => by simp [render, texts]
  | .arr (v :: vs), h => by
    obtain ⟨hv, hvs⟩ : v.HasNaturals ∧ ItemsHaveNaturals vs := h
    rw [render, List.cons_append, quoted_infix_sign_cons hw (t := .openArray) rfl,
      quoted_infix_append_renderItems _ hvs, quoted_infix_render hv, texts,
      exists_mem_textsOfItems_cons]
  | .obj ((name, v) :: members), h => by
    obtain ⟨hv, hmembers⟩ : v.HasNaturals ∧ MembersHaveNaturals members := h
    simp only [render, List.cons_append, List.append_assoc]
    rw [quoted_infix_sign_cons hw (t := .openObject) rfl,
      quoted_infix_append_sign hw (t := .colon) rfl,
      quoted_infix_append_renderMembers _ hmembers, quoted_infix_render hv, texts,
      exists_mem_textsOfMembers_cons]

theorem quoted_infix_append_renderItems : ∀ {vs : List Json} (s : List Char),
    ItemsHaveNaturals vs → (quoted w <:+: s ++ renderItems vs ↔
      quoted w <:+: s ∨ ∃ t ∈ textsOfItems vs, quoted w <:+: quote t)
  | [], s, _ => by
    rw [renderItems, quoted_infix_append_sign hw (t := .closeArray) rfl]
    simp [textsOfItems, quoted]
  | v :: vs, s, h => by
    obtain ⟨hv, hvs⟩ : v.HasNaturals ∧ ItemsHaveNaturals vs := h
    rw [renderItems, List.cons_append, quoted_infix_append_sign hw (t := .comma) rfl,
      quoted_infix_append_renderItems _ hvs, quoted_infix_render hv, exists_mem_textsOfItems_cons]

theorem quoted_infix_append_renderMembers : ∀ {members : List (Text × Json)} (s : List Char),
    MembersHaveNaturals members → (quoted w <:+: s ++ renderMembers members ↔
      quoted w <:+: s ∨ ∃ t ∈ textsOfMembers members, quoted w <:+: quote t)
  | [], s, _ => by
    rw [renderMembers, quoted_infix_append_sign hw (t := .closeObject) rfl]
    simp [textsOfMembers, quoted]
  | (name, v) :: members, s, h => by
    obtain ⟨hv, hmembers⟩ : v.HasNaturals ∧ MembersHaveNaturals members := h
    simp only [renderMembers, List.cons_append, List.append_assoc]
    rw [quoted_infix_append_sign hw (t := .comma) rfl,
      quoted_infix_append_sign hw (t := .colon) rfl,
      quoted_infix_append_renderMembers _ hmembers, quoted_infix_render hv,
      exists_mem_textsOfMembers_cons]

end

/-- **A quoted word is found in the compact form of a value if and only if some string in it is the
word, or ends with a quote and the word.** -/
theorem quoted_infix_render_iff {v : Json} (hv : v.HasNaturals) :
    quoted w <:+: v.render ↔
      ∃ s, some s ∈ v.texts ∧ (s.toList = w ∨ '\x22' :: w <:+ s.toList) := by
  rw [quoted_infix_render hw hv]
  constructor
  · rintro ⟨_ | s, hs, hquoted⟩
    · exact absurd hquoted (not_quoted_infix_quote_none hw)
    · exact ⟨s, hs, (quoted_infix_quote_some hw s).mp hquoted⟩
  · rintro ⟨s, hs, h⟩
    exact ⟨some s, hs, (quoted_infix_quote_some hw s).mpr h⟩

end

end RootCause.Json
