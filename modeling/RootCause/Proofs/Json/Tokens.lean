import Mathlib.Data.List.TakeWhile
import RootCause.Json.Printer
import RootCause.Json.Token
import RootCause.Proofs.Text.ReadBack

/-!
# Tokens of a written value

The tokens that the compact form of a value is made of (`tokens`). A character of a string is
written in one of three ways (`escape_cases`). A string is cut at its closing quote whatever is in
it, because every character that could end it or may not stand in it is escaped
(`stringUnits?_escape`). A natural number is cut where its digits end, so that something has
to follow it that does not go on with it (`token?_decimal`). Put together, the compact form of a
value whose numbers are natural is cut into its tokens (`tokens?_render`).
-/

namespace RootCause.Json

/-! ## Strings -/

theorem hexValue?_hexDigit {n : Nat} (h : n < 16) : hexValue? (hexDigit n) = some n := by
  interval_cases n <;> decide

theorem Unit16.ofNat_toNat {c : Char} (h : c.toNat < 0x20) : Unit16.ofNat c.toNat = .char c := by
  rw [Unit16.ofNat, if_neg (by omega), Char.ofNat_toNat]

theorem hexValue4?_hexDigit {n : Nat} (h : n < 0x20) :
    hexValue4? '0' '0' (hexDigit (n / 16)) (hexDigit (n % 16)) = some n := by
  have hzero : hexValue? '0' = some 0 := by decide
  have hhigh := hexValue?_hexDigit (n := n / 16) (by omega)
  have hlow := hexValue?_hexDigit (n := n % 16) (by omega)
  simp only [hexValue4?, hzero, hhigh, hlow, Option.bind_eq_bind, Option.bind_some, Option.pure_def,
    Option.some.injEq]
  omega

theorem isAlphanum_hexDigit {n : Nat} (h : n < 16) : (hexDigit n).isAlphanum = true := by
  interval_cases n <;> decide

/-- What a backslash and one more character stand for is that character, or is named by a letter. It
is no letter itself. -/
theorem shortEscape?_eq_some {e c : Char} (h : shortEscape? e = some c) :
    (e = c ∨ e.isAlphanum = true) ∧ c.isAlpha = false := by
  unfold shortEscape? at h
  split at h
  next hself =>
    cases h
    exact ⟨.inl rfl, by rcases hself with rfl | rfl | rfl <;> decide⟩
  next =>
    repeat
      split at h
      next he =>
        subst he
        cases h
        exact ⟨.inr (by decide), by decide⟩
    cases h

/-- The three ways in which a character is written: with a backslash and one more character, by its
number, and as it is. -/
theorem escape_cases (c : Char) :
    (∃ e, escape c = ['\\', e] ∧ shortEscape? e = some c) ∨
      (escape c = ['\\', 'u', '0', '0', hexDigit (c.toNat / 16), hexDigit (c.toNat % 16)] ∧
        c.toNat < 0x20) ∨
      (escape c = [c] ∧ c ≠ '\x22' ∧ c ≠ '\\' ∧ ¬ c.toNat < 0x20) := by
  by_cases hshort : c ∈ ['\x22', '\\', '\x08', '\t', '\n', '\x0c', '\r']
  · simp only [List.mem_cons, List.not_mem_nil, or_false] at hshort
    rcases hshort with rfl | rfl | rfl | rfl | rfl | rfl | rfl <;> exact .inl ⟨_, rfl, rfl⟩
  · simp only [List.mem_cons, List.not_mem_nil, or_false, not_or] at hshort
    obtain ⟨hquote, hbackslash, hb, ht, hn, hf, hr⟩ := hshort
    have hescape : escape c = if c.toNat < 0x20 then
        ['\\', 'u', '0', '0', hexDigit (c.toNat / 16), hexDigit (c.toNat % 16)] else [c] := by
      rw [escape, if_neg hquote, if_neg hbackslash, if_neg hb, if_neg ht, if_neg hn, if_neg hf,
        if_neg hr]
    by_cases hcontrol : c.toNat < 0x20
    · exact .inr (.inl ⟨hescape.trans (if_pos hcontrol), hcontrol⟩)
    · exact .inr (.inr ⟨hescape.trans (if_neg hcontrol), hquote, hbackslash, hcontrol⟩)

/-- A character is written as itself, or with letters and digits after a backslash. -/
theorem eq_of_mem_escape {c d : Char} (h : d ∈ escape c) :
    d = '\\' ∨ d.isAlphanum = true ∨ d = c := by
  rcases escape_cases c with ⟨e, hescape, he⟩ | ⟨hescape, hcontrol⟩ | ⟨hescape, -⟩
  · rw [hescape, List.mem_pair] at h
    rcases h with rfl | rfl
    · exact .inl rfl
    · exact .inr (shortEscape?_eq_some he).1.symm
  · have hhigh := isAlphanum_hexDigit (n := c.toNat / 16) (by omega)
    have hlow := isAlphanum_hexDigit (n := c.toNat % 16) (by omega)
    simp only [hescape, List.mem_cons, List.not_mem_nil, or_false] at h
    rcases h with rfl | rfl | rfl | rfl | rfl | rfl
    · exact .inl rfl
    iterate 3
      exact .inr (.inl (by decide))
    · exact .inr (.inl hhigh)
    · exact .inr (.inl hlow)
  · rw [hescape, List.mem_singleton] at h
    exact .inr (.inr h)

/-- A character is read back from the way it is written. -/
theorem stringUnits?_escape_append (c : Char) (s : List Char) :
    stringUnits? (escape c ++ s) =
      (stringUnits? s).map fun (units, rest) => (.char c :: units, rest) := by
  rcases escape_cases c with ⟨e, hescape, he⟩ | ⟨hescape, hcontrol⟩ |
    ⟨hescape, hquote, hbackslash, hcontrol⟩ <;> rw [hescape]
  · have hu : e ≠ 'u' := by
      rintro rfl
      cases he
    rw [List.cons_append, List.singleton_append, stringUnits?, he]
    · cases stringUnits? s <;> rfl
    · exact fun _ _ _ _ _ h => absurd h hu
  · simp only [List.cons_append, List.nil_append, stringUnits?, hexValue4?_hexDigit hcontrol,
      Option.bind_eq_bind, Option.bind_some, Unit16.ofNat_toNat hcontrol]
    cases stringUnits? s <;> rfl
  · rw [List.singleton_append, stringUnits?]
    · simp only [hbackslash, hcontrol, or_self, if_false]
      cases stringUnits? s <;> rfl
    · exact hquote
    · exact fun _ _ _ _ _ h => absurd h hbackslash
    · exact fun _ _ h => absurd h hbackslash

theorem stringUnits?_escape (s rest : List Char) :
    stringUnits? (s.flatMap escape ++ '\x22' :: rest) = some (s.map .char, rest) := by
  induction s with
  | nil => simp [stringUnits?]
  | cons c s ih =>
    rw [List.flatMap_cons, List.append_assoc, stringUnits?_escape_append, ih]
    rfl

theorem joinUnits?_map_char (s : List Char) : joinUnits? (s.map .char) = some s := by
  induction s with
  | nil => rfl
  | cons c s ih => simp [joinUnits?, ih]

theorem quote_some (s : String) :
    quote (some s) = '\x22' :: s.toList.flatMap escape ++ ['\x22'] := rfl

theorem quote_none : quote none = ['\x22', '\\', 'u', 'd', '8', '0', '0', '\x22'] := rfl

theorem stringUnits?_loneHalf (rest : List Char) :
    stringUnits? ('\\' :: 'u' :: 'd' :: '8' :: '0' :: '0' :: '\x22' :: rest) =
      some ([.half 0xD800], rest) := by
  simp [stringUnits?, hexValue4?, hexValue?, Unit16.ofNat]

theorem token?_string {s rest : List Char} {units : List Unit16}
    (h : stringUnits? s = some (units, rest)) :
    token? ('\x22' :: s) = some (.scalar (.str ((joinUnits? units).map String.ofList)), rest) := by
  have htoken : token? ('\x22' :: s) = (stringUnits? s).map fun (units, rest) =>
      (.scalar (.str ((joinUnits? units).map String.ofList)), rest) := rfl
  rw [htoken, h]
  rfl

/-- A string is cut where it was closed. -/
theorem token?_quote (text : Text) (rest : List Char) :
    token? (quote text ++ rest) = some (.scalar (.str text), rest) := by
  cases text with
  | none => exact token?_string (stringUnits?_loneHalf rest)
  | some s =>
    have hsplit : quote (some s) ++ rest =
        '\x22' :: (s.toList.flatMap escape ++ '\x22' :: rest) := by
      simp [quote_some]
    rw [hsplit, token?_string (stringUnits?_escape s.toList rest), joinUnits?_map_char,
      Option.map_some, String.ofList_toList]

/-! ## Numbers -/

/-- What may follow a value in an array or an object, or nothing. -/
def IsDelimited (rest : List Char) : Prop := ∀ c ∈ rest.head?, c = ',' ∨ c = ']' ∨ c = '}'

theorem isDelimited_cons {c : Char} {rest : List Char} :
    IsDelimited (c :: rest) ↔ c = ',' ∨ c = ']' ∨ c = '}' := by
  simp [IsDelimited]

/-- Only zero starts with a zero. -/
theorem eq_zero_of_head?_decimal {n : Nat} (h : (Text.decimal n).head? = some '0') : n = 0 := by
  induction n using Nat.strongRecOn with
  | ind n ih =>
    rw [Text.decimal, Nat.toDigits_eq_if (by decide)] at h
    by_cases hn : n < 10
    · rw [if_pos hn] at h
      interval_cases n <;> simp_all
    · rw [if_neg hn, List.head?_append_of_ne_nil _ Nat.toDigits_ne_nil] at h
      have hdiv : n / 10 = 0 := ih (n / 10) (by omega) h
      omega

theorem digitRun?_decimal (n : Nat) {rest : List Char} (h : IsDelimited rest) :
    digitRun? (Text.decimal n ++ rest) = some (Text.decimal n, rest) := by
  have hdigits : ∀ c ∈ Text.decimal n, isDigit c = true := fun c hc =>
    Text.isDigit_of_mem_decimal hc
  have hrest : ∀ c ∈ rest.head?, isDigit c = false := by
    intro c hc
    rcases h c hc with rfl | rfl | rfl <;> decide
  have htake : rest.takeWhile isDigit = [] := by
    cases rest with
    | nil => rfl
    | cons c rest => rw [List.takeWhile_cons_of_neg (by simpa using hrest c rfl)]
  have hdrop : rest.dropWhile isDigit = rest := by
    cases rest with
    | nil => rfl
    | cons c rest => rw [List.dropWhile_cons_of_neg (by simpa using hrest c rfl)]
  have hne : Text.decimal n ≠ [] := Nat.toDigits_ne_nil
  rw [digitRun?, List.takeWhile_append_of_pos hdigits, List.dropWhile_append_of_pos hdigits, htake,
    hdrop, List.append_nil]
  simp [hne]

theorem wholePart?_decimal (n : Nat) {rest : List Char} (h : IsDelimited rest) :
    wholePart? (Text.decimal n ++ rest) = some (Text.decimal n, rest) := by
  have hzero : ¬ ((Text.decimal n).head? = some '0' ∧ (Text.decimal n).length ≠ 1) := by
    rintro ⟨hhead, hlength⟩
    rw [eq_zero_of_head?_decimal hhead] at hlength
    exact hlength rfl
  simp only [wholePart?, digitRun?_decimal n h, Option.bind_eq_bind, Option.bind_some,
    if_neg hzero]

theorem fraction?_of_isDelimited {rest : List Char} (h : IsDelimited rest) :
    fraction? rest = some ([], rest) := by
  unfold fraction?
  split
  · exact absurd (isDelimited_cons.mp h) (by decide)
  · rfl

theorem exponent?_of_isDelimited {rest : List Char} (h : IsDelimited rest) :
    exponent? rest = some ([], rest) := by
  cases rest with
  | nil => rfl
  | cons c rest => rcases isDelimited_cons.mp h with rfl | rfl | rfl <;> rfl

theorem exists_decimal_eq_cons (n : Nat) : ∃ c s, Text.decimal n = c :: s ∧ c.isDigit := by
  obtain ⟨c, s, hcons⟩ : ∃ c s, Text.decimal n = c :: s :=
    List.exists_cons_of_ne_nil Nat.toDigits_ne_nil
  exact ⟨c, s, hcons, Text.isDigit_of_mem_decimal (hcons ▸ List.mem_cons_self)⟩

theorem token?_of_isDigit {c : Char} (hc : c.isDigit) (s : List Char) :
    token? (c :: s) = (number? (c :: s)).map fun (literal, rest) =>
      (.scalar (.num (String.ofList literal)), rest) := by
  rw [token?]
  all_goals
    rintro _ heq
    cases heq
    exact absurd hc (by decide)

/-- A number is cut where its digits end. -/
theorem token?_decimal (n : Nat) {rest : List Char} (h : IsDelimited rest) :
    token? (Text.decimal n ++ rest) = some (.scalar (ofNat n), rest) := by
  obtain ⟨c, s, hcons, hdigit⟩ := exists_decimal_eq_cons n
  have hminus : c ≠ '-' := by
    rintro rfl
    exact absurd hdigit (by decide)
  have hwhole := wholePart?_decimal n h
  have hliteral : String.ofList (Text.decimal n) = toString n := by
    rw [Text.decimal, ← Nat.toList_repr, String.ofList_toList]
    rfl
  rw [hcons, List.cons_append] at hwhole ⊢
  have hnumber : number? (c :: (s ++ rest)) = some (c :: s, rest) := by
    simp [number?, hminus, hwhole, fraction?_of_isDelimited h, exponent?_of_isDelimited h]
  simp only [token?_of_isDigit hdigit, hnumber, Option.map_some, ← hcons, hliteral, ofNat]

/-! ## Values -/

mutual

/-- The tokens of a value. -/
def tokens : Json → List Token
  | .arr [] => [.openArray, .closeArray]
  | .arr (v :: vs) => .openArray :: v.tokens ++ tokensOfItems vs
  | .obj [] => [.openObject, .closeObject]
  | .obj ((name, v) :: members) =>
    .openObject :: .scalar (.str name) :: .colon :: v.tokens ++ tokensOfMembers members
  | v => [.scalar v]

/-- The tokens of the rest of an array after an item. -/
def tokensOfItems : List Json → List Token
  | [] => [.closeArray]
  | v :: vs => .comma :: v.tokens ++ tokensOfItems vs

/-- The tokens of the rest of an object after a member. -/
def tokensOfMembers : List (Text × Json) → List Token
  | [] => [.closeObject]
  | (name, v) :: members =>
    .comma :: .scalar (.str name) :: .colon :: v.tokens ++ tokensOfMembers members

end

mutual

/-- All numbers in a value are natural. -/
def HasNaturals : Json → Prop
  | .num literal => ∃ n : Nat, literal = toString n
  | .arr items => ItemsHaveNaturals items
  | .obj members => MembersHaveNaturals members
  | _ => True

/-- All numbers in some items are natural. -/
def ItemsHaveNaturals : List Json → Prop
  | [] => True
  | v :: vs => v.HasNaturals ∧ ItemsHaveNaturals vs

/-- All numbers in some members are natural. -/
def MembersHaveNaturals : List (Text × Json) → Prop
  | [] => True
  | (_, v) :: members => v.HasNaturals ∧ MembersHaveNaturals members

end

theorem tokens?_of_token? {c : Char} {s rest : List Char} {t : Token} (hc : isSpace c = false)
    (h : token? (c :: s) = some (t, rest)) :
    tokens? (c :: s) = (tokens? rest).map (t :: ·) := by
  rw [tokens?, hc, if_neg Bool.false_ne_true]
  split
  next hnone => simp [hnone] at h
  next t' rest' hsome =>
    rw [h] at hsome
    cases hsome
    rfl

theorem tokens?_quote (text : Text) (rest : List Char) :
    tokens? (quote text ++ rest) = (tokens? rest).map (.scalar (.str text) :: ·) := by
  obtain ⟨s, hs⟩ : ∃ s, quote text = '\x22' :: s := by
    cases text with
    | none => exact ⟨_, quote_none⟩
    | some s => exact ⟨_, quote_some s⟩
  have htoken := token?_quote text rest
  rw [hs, List.cons_append] at htoken ⊢
  exact tokens?_of_token? (by decide) htoken

theorem isSpace_of_isDigit {c : Char} (h : c.isDigit) : isSpace c = false := by
  simp only [isSpace, Bool.or_eq_false_iff, decide_eq_false_iff_not]
  refine ⟨⟨⟨?_, ?_⟩, ?_⟩, ?_⟩ <;>
  · rintro rfl
    exact absurd h (by decide)

theorem tokens?_decimal (n : Nat) {rest : List Char} (h : IsDelimited rest) :
    tokens? (Text.decimal n ++ rest) = (tokens? rest).map (.scalar (ofNat n) :: ·) := by
  obtain ⟨c, s, hcons, hdigit⟩ := exists_decimal_eq_cons n
  have htoken := token?_decimal n h
  rw [hcons, List.cons_append] at htoken ⊢
  exact tokens?_of_token? (isSpace_of_isDigit hdigit) htoken

theorem isDelimited_renderItems (vs : List Json) (rest : List Char) :
    IsDelimited (renderItems vs ++ rest) := by
  cases vs <;> exact isDelimited_cons.mpr (by decide)

theorem isDelimited_renderMembers (members : List (Text × Json)) (rest : List Char) :
    IsDelimited (renderMembers members ++ rest) := by
  cases members <;> exact isDelimited_cons.mpr (by decide)

/-- The character of a token that is no value. -/
def Token.sign? : Token → Option Char
  | .openArray => some '['
  | .closeArray => some ']'
  | .openObject => some '{'
  | .closeObject => some '}'
  | .comma => some ','
  | .colon => some ':'
  | .scalar _ => none

theorem tokens?_sign {t : Token} {c : Char} (h : t.sign? = some c) (s : List Char) :
    tokens? (c :: s) = (tokens? s).map (t :: ·) := by
  cases t <;> cases h <;> exact tokens?_of_token? (by decide) rfl

theorem tokens?_member (name : Text) (s : List Char) :
    tokens? (quote name ++ ':' :: s) = (tokens? s).map (.scalar (.str name) :: .colon :: ·) := by
  rw [tokens?_quote, tokens?_sign (t := .colon) rfl, Option.map_map]
  rfl

mutual

/-- The compact form of a value is cut into its tokens. -/
theorem tokens?_render : ∀ {v : Json} {rest : List Char}, v.HasNaturals → IsDelimited rest →
    tokens? (v.render ++ rest) = (tokens? rest).map (v.tokens ++ ·)
  | .null, rest, _, _ => tokens?_of_token? (by decide) rfl
  | .bool true, rest, _, _ => tokens?_of_token? (by decide) rfl
  | .bool false, rest, _, _ => tokens?_of_token? (by decide) rfl
  | .num literal, rest, hn, hrest => by
    obtain ⟨n, rfl⟩ : ∃ n : Nat, literal = toString n := hn
    have hdigits : (toString n).toList = Text.decimal n := Nat.toList_repr
    rw [render, hdigits, tokens?_decimal n hrest]
    rfl
  | .str text, rest, _, _ => tokens?_quote text rest
  | .arr [], rest, _, _ => by
    rw [render, tokens, List.cons_append, List.singleton_append, tokens?_sign (t := .openArray) rfl,
      tokens?_sign (t := .closeArray) rfl, Option.map_map]
    rfl
  | .arr (v :: vs), rest, h, _ => by
    obtain ⟨hv, hvs⟩ : v.HasNaturals ∧ ItemsHaveNaturals vs := h
    simp only [render, tokens, List.cons_append, List.append_assoc]
    rw [tokens?_sign (t := .openArray) rfl, tokens?_render hv (isDelimited_renderItems vs rest),
      tokens?_renderItems hvs, Option.map_map, Option.map_map]
    rfl
  | .obj [], rest, _, _ => by
    rw [render, tokens, List.cons_append, List.singleton_append,
      tokens?_sign (t := .openObject) rfl, tokens?_sign (t := .closeObject) rfl, Option.map_map]
    rfl
  | .obj ((name, v) :: members), rest, h, _ => by
    obtain ⟨hv, hmembers⟩ : v.HasNaturals ∧ MembersHaveNaturals members := h
    simp only [render, tokens, List.cons_append, List.append_assoc]
    rw [tokens?_sign (t := .openObject) rfl, tokens?_member,
      tokens?_render hv (isDelimited_renderMembers members rest), tokens?_renderMembers hmembers,
      Option.map_map, Option.map_map, Option.map_map]
    rfl

theorem tokens?_renderItems : ∀ {vs : List Json} {rest : List Char}, ItemsHaveNaturals vs →
    tokens? (renderItems vs ++ rest) = (tokens? rest).map (tokensOfItems vs ++ ·)
  | [], rest, _ => tokens?_sign (t := .closeArray) rfl rest
  | v :: vs, rest, h => by
    obtain ⟨hv, hvs⟩ : v.HasNaturals ∧ ItemsHaveNaturals vs := h
    simp only [renderItems, tokensOfItems, List.cons_append, List.append_assoc]
    rw [tokens?_sign (t := .comma) rfl, tokens?_render hv (isDelimited_renderItems vs rest),
      tokens?_renderItems hvs, Option.map_map, Option.map_map]
    rfl

theorem tokens?_renderMembers : ∀ {members : List (Text × Json)} {rest : List Char},
    MembersHaveNaturals members →
    tokens? (renderMembers members ++ rest) = (tokens? rest).map (tokensOfMembers members ++ ·)
  | [], rest, _ => tokens?_sign (t := .closeObject) rfl rest
  | (name, v) :: members, rest, h => by
    obtain ⟨hv, hmembers⟩ : v.HasNaturals ∧ MembersHaveNaturals members := h
    simp only [renderMembers, tokensOfMembers, List.cons_append, List.append_assoc]
    rw [tokens?_sign (t := .comma) rfl, tokens?_member,
      tokens?_render hv (isDelimited_renderMembers members rest), tokens?_renderMembers hmembers,
      Option.map_map, Option.map_map, Option.map_map]
    rfl

end

end RootCause.Json
