import Mathlib.Data.List.DropRight
import Mathlib.Data.List.Infix
import Mathlib.Data.List.TakeWhile
import RootCause.Proofs.Text.ReadBack

/-!
# Texts cut at a piece

Where a text is cut that was put together around a piece. The first occurrence of a piece is where
it was put unless it occurs in what is before it and its own start (`splitOnce?_append`); a piece
whose first character does not stand before it is found at once (`splitOnce?_append_of_notMem`), and
the last occurrence of a character is found from the other end (`splitLast?_append`), so that what
was put together around such a character is known from the text (`append_cons_inj_left`,
`append_cons_inj_right`). The other way round, a text that was cut is what was put together
(`eq_append_of_splitOnce?`), so that a cut is said by what is put together and what does not occur
(`splitOnce?_eq_some_iff`, `splitLast?_eq_some_iff`). A piece without a certain character lies on
one side of it (`infix_append_cons_iff`), and so a piece without line ends on one line
(`exists_line_infix`). What is said of all pieces between separators is proved for one piece after
the other (`piece_induction`), such as that the lines after a newline are lines of their own
(`lines_newline_append`); where the number of pieces is bounded it is known from the separators
(`length_splitAtMost`). Blanks are cut off the end of a text without a look at what stands before
its last character that is not blank (`trimEnd_append_cons`).
-/

namespace RootCause.Text

variable {piece s t rest : List Char} {c : Char}

/-! ## Occurrences of a piece -/

theorem isSome_splitOnce?_iff : (splitOnce? piece s).isSome ↔ piece <:+: s := by
  induction s with
  | nil => simp [splitOnce?]
  | cons c s ih =>
    rw [splitOnce?, List.infix_cons_iff, ← isSome_stripStart?_iff, ← ih]
    cases stripStart? piece (c :: s) with
    | none => simp
    | some rest => simp

theorem splitOnce?_eq_none_iff : splitOnce? piece s = none ↔ ¬ piece <:+: s := by
  rw [← isSome_splitOnce?_iff, Option.not_isSome_iff_eq_none]

theorem stripStart?_eq_none_iff : stripStart? piece s = none ↔ ¬ piece <+: s := by
  rw [← isSome_stripStart?_iff, Option.not_isSome_iff_eq_none]

theorem prefix_of_prefix_append_cons (hc : c ∉ piece) (h : piece <+: s ++ c :: t) :
    piece <+: s := by
  by_cases hlength : piece.length ≤ s.length
  · exact List.prefix_of_prefix_length_le h (List.prefix_append s _) hlength
  · have hlonger : s ++ [c] <+: piece := by
      have hs : s ++ [c] <+: s ++ c :: t := ⟨t, by simp⟩
      refine List.prefix_of_prefix_length_le hs h ?_
      rw [List.length_append, List.length_singleton]
      omega
    exact absurd (hlonger.subset (by simp)) hc

/-- A piece without a character lies on one side of it. -/
theorem infix_append_cons_iff (hc : c ∉ piece) :
    piece <:+: s ++ c :: t ↔ piece <:+: s ∨ piece <:+: t := by
  constructor
  · intro h
    induction s with
    | nil =>
      rcases List.infix_cons_iff.mp h with hpre | hinfix
      · have hnil : piece <+: [] := prefix_of_prefix_append_cons hc hpre
        exact .inl hnil.isInfix
      · exact .inr hinfix
    | cons d s ih =>
      rcases List.infix_cons_iff.mp h with hpre | hinfix
      · have hs : piece <+: d :: s := prefix_of_prefix_append_cons hc hpre
        exact .inl hs.isInfix
      · exact (ih hinfix).imp_left fun hs => hs.trans (List.suffix_cons d s).isInfix
  · rintro (h | h)
    · exact h.trans (List.prefix_append s _).isInfix
    · exact h.trans ⟨s ++ [c], [], by simp⟩

/-- A piece does not start among characters of which none is its first one. -/
theorem cons_infix_append_iff (hc : c ∉ s) : c :: piece <:+: s ++ t ↔ c :: piece <:+: t := by
  induction s with
  | nil => rfl
  | cons d s ih =>
    obtain ⟨hd, hs⟩ := not_or.mp (mt List.mem_cons.mpr hc)
    have hstart : ¬ c :: piece <+: d :: (s ++ t) := fun h => hd (List.cons_prefix_cons.mp h).1
    rw [List.cons_append, List.infix_cons_iff, or_iff_right hstart, ih hs]

/-! ## Cutting at an occurrence -/

/-- The first occurrence of a piece is where it was put, unless one starts before it. -/
theorem splitOnce?_append (hne : piece ≠ []) (h : ¬ piece <:+: s ++ piece.dropLast) :
    splitOnce? piece (s ++ piece ++ t) = some (s, t) := by
  induction s with
  | nil =>
    obtain ⟨c, piece, rfl⟩ := List.exists_cons_of_ne_nil hne
    have hstrip : stripStart? (c :: piece) (c :: (piece ++ t)) = some t :=
      stripStart?_append (c :: piece) t
    simp only [List.nil_append, List.cons_append, splitOnce?, hstrip]
  | cons d s ih =>
    have hlater : ¬ piece <:+: s ++ piece.dropLast := fun hs =>
      h (hs.trans (List.suffix_cons d _).isInfix)
    have hstart : ¬ piece <+: d :: (s ++ piece ++ t) := by
      intro hpre
      have hcut : d :: (s ++ piece.dropLast) <+: d :: (s ++ piece ++ t) := by
        rw [List.append_assoc]
        exact (List.cons_prefix_cons.mpr ⟨rfl, (List.prefix_append_right_inj s).mpr
          (piece.dropLast_prefix.trans (List.prefix_append piece t))⟩)
      refine h (List.prefix_of_prefix_length_le hpre hcut ?_).isInfix
      rw [List.length_cons, List.length_append, List.length_dropLast]
      omega
    rw [List.cons_append, List.cons_append, splitOnce?, stripStart?_eq_none_iff.mpr hstart,
      ih hlater]
    rfl

theorem splitOnce?_append_of_notMem (piece : List Char) (h : c ∉ s) :
    splitOnce? (c :: piece) (s ++ c :: (piece ++ t)) = some (s, t) := by
  induction s with
  | nil =>
    have hstrip : stripStart? (c :: piece) (c :: (piece ++ t)) = some t :=
      stripStart?_append (c :: piece) t
    simp only [List.nil_append, splitOnce?, hstrip]
  | cons d s ih =>
    obtain ⟨hd, hs⟩ := not_or.mp (mt List.mem_cons.mpr h)
    have hstart : stripStart? (c :: piece) (d :: (s ++ c :: (piece ++ t))) = none := by
      rw [stripStart?, if_neg hd]
    rw [List.cons_append, splitOnce?, hstart, ih hs]
    rfl

theorem splitLast?_append (h : c ∉ t) : splitLast? c (s ++ c :: t) = some (s, t) := by
  have hreverse : (s ++ c :: t).reverse = t.reverse ++ c :: ([] ++ s.reverse) := by simp
  rw [splitLast?, hreverse, splitOnce?_append_of_notMem [] (mt List.mem_reverse.mp h)]
  simp

/-- A text is put together in one way around a character that does not stand before it. -/
theorem append_cons_inj_left {s' t' : List Char} (h : c ∉ s) (h' : c ∉ s') :
    s ++ c :: t = s' ++ c :: t' ↔ s = s' ∧ t = t' := by
  constructor
  · intro heq
    have hcut : splitOnce? [c] (s ++ c :: t) = some (s, t) := splitOnce?_append_of_notMem [] h
    have hcut' : splitOnce? [c] (s' ++ c :: t') = some (s', t') := splitOnce?_append_of_notMem [] h'
    rw [← heq, hcut] at hcut'
    simpa using hcut'
  · rintro ⟨rfl, rfl⟩
    rfl

/-- A text is put together in one way around a character that does not stand after it. -/
theorem append_cons_inj_right {s' t' : List Char} (h : c ∉ t) (h' : c ∉ t') :
    s ++ c :: t = s' ++ c :: t' ↔ s = s' ∧ t = t' := by
  constructor
  · intro heq
    have hcut : splitLast? c (s ++ c :: t) = some (s, t) := splitLast?_append h
    have hcut' : splitLast? c (s' ++ c :: t') = some (s', t') := splitLast?_append h'
    rw [← heq, hcut] at hcut'
    simpa using hcut'
  · rintro ⟨rfl, rfl⟩
    rfl

theorem eq_append_of_splitOnce? (h : splitOnce? piece s = some (t, rest)) :
    s = t ++ piece ++ rest := by
  induction s generalizing t with
  | nil =>
    obtain ⟨rfl, rfl, rfl⟩ : piece = [] ∧ t = [] ∧ rest = [] := by simpa [splitOnce?] using h
    rfl
  | cons c s ih =>
    rw [splitOnce?] at h
    split at h
    · next heq =>
      obtain ⟨rfl, rfl⟩ : [] = t ∧ _ = rest := by simpa using h
      exact eq_append_of_stripStart? heq
    · obtain ⟨⟨before, after⟩, hsplit, heq⟩ := Option.map_eq_some_iff.mp h
      obtain ⟨rfl, rfl⟩ : c :: before = t ∧ after = rest := by simpa using heq
      rw [ih hsplit, List.cons_append, List.cons_append]

theorem eq_append_of_splitLast? (h : splitLast? c s = some (t, rest)) : s = t ++ c :: rest := by
  obtain ⟨⟨after, before⟩, hsplit, heq⟩ := Option.map_eq_some_iff.mp h
  obtain ⟨rfl, rfl⟩ : before.reverse = t ∧ after.reverse = rest := by simpa using heq
  rw [← List.reverse_reverse s, eq_append_of_splitOnce? hsplit]
  simp

/-- No occurrence starts before the one at which a text is cut. -/
theorem not_infix_of_splitOnce? (hne : piece ≠ []) (h : splitOnce? piece s = some (t, rest)) :
    ¬ piece <:+: t ++ piece.dropLast := by
  induction s generalizing t with
  | nil => simp [splitOnce?, hne] at h
  | cons c s ih =>
    rw [splitOnce?] at h
    split at h
    · obtain ⟨rfl, -⟩ : [] = t ∧ _ = rest := by simpa using h
      intro hinfix
      have hle := hinfix.length_le
      have hpos := List.length_pos_of_ne_nil hne
      rw [List.nil_append, List.length_dropLast] at hle
      omega
    · next hstrip =>
      obtain ⟨⟨before, after⟩, hsplit, heq⟩ := Option.map_eq_some_iff.mp h
      obtain ⟨rfl, rfl⟩ : c :: before = t ∧ after = rest := by simpa using heq
      have hcut : c :: (before ++ piece.dropLast) <+: c :: s := by
        rw [eq_append_of_splitOnce? hsplit, List.append_assoc]
        exact List.cons_prefix_cons.mpr ⟨rfl, (List.prefix_append_right_inj before).mpr
          (piece.dropLast_prefix.trans (List.prefix_append piece after))⟩
      rw [List.cons_append, List.infix_cons_iff]
      rintro (hpre | hinfix)
      · exact stripStart?_eq_none_iff.mp hstrip (hpre.trans hcut)
      · exact ih hsplit hinfix

theorem splitOnce?_eq_some_iff (hne : piece ≠ []) :
    splitOnce? piece s = some (t, rest) ↔
      s = t ++ piece ++ rest ∧ ¬ piece <:+: t ++ piece.dropLast := by
  constructor
  · exact fun h => ⟨eq_append_of_splitOnce? h, not_infix_of_splitOnce? hne h⟩
  · rintro ⟨rfl, h⟩
    exact splitOnce?_append hne h

theorem splitLast?_eq_some_iff :
    splitLast? c s = some (t, rest) ↔ s = t ++ c :: rest ∧ c ∉ rest := by
  constructor
  · intro h
    refine ⟨eq_append_of_splitLast? h, ?_⟩
    obtain ⟨⟨after, before⟩, hsplit, heq⟩ := Option.map_eq_some_iff.mp h
    obtain ⟨-, rfl⟩ : before.reverse = t ∧ after.reverse = rest := by simpa using heq
    simpa [List.singleton_infix_iff] using not_infix_of_splitOnce? (List.cons_ne_nil c []) hsplit
  · rintro ⟨rfl, h⟩
    exact splitLast?_append h

/-! ## Pieces between separators -/

/-- A text is a piece without a separator, or such a piece, a separator and a shorter text. -/
theorem piece_induction (sep : Char) {motive : List Char → Prop}
    (last : ∀ piece, sep ∉ piece → motive piece)
    (more : ∀ piece s, sep ∉ piece → motive s → motive (piece ++ sep :: s)) (s : List Char) :
    motive s := by
  induction hlength : s.length using Nat.strongRecOn generalizing s with
  | ind n ih =>
    by_cases h : sep ∈ s
    · obtain ⟨piece, t, rfl, hpiece⟩ := List.eq_append_cons_of_mem h
      refine more piece t hpiece (ih t.length ?_ t rfl)
      rw [← hlength, List.length_append, List.length_cons]
      omega
    · exact last s h

theorem splitOn_append_cons (h : c ∉ s) (t : List Char) :
    (s ++ c :: t).splitOn c = s :: t.splitOn c := by
  rw [List.splitOn_append_cons_self, List.splitOn_eq_singleton h, List.singleton_append]

theorem notMem_of_mem_splitOn (h : piece ∈ s.splitOn c) : c ∉ piece := by
  induction s using piece_induction c with
  | last s hs =>
    rw [List.splitOn_eq_singleton hs] at h
    exact List.mem_singleton.mp h ▸ hs
  | more s t hs ih =>
    rw [splitOn_append_cons hs] at h
    rcases List.mem_cons.mp h with rfl | h
    · exact hs
    · exact ih h

theorem lines_newline_append (s t : List Char) :
    lines (s ++ '\n' :: t) = lines (s ++ ['\n']) ++ lines t := by
  induction s using piece_induction '\n' with
  | last piece hpiece =>
    rw [lines_append_newline hpiece, lines_append_newline hpiece, lines_nil, List.singleton_append]
  | more piece s hpiece ih =>
    rw [List.append_assoc, List.append_assoc, List.cons_append, List.cons_append,
      lines_append_newline hpiece, lines_append_newline hpiece, ih, List.cons_append]

/-! ## A bounded number of pieces -/

theorem splitAtMost_of_notMem (h : c ∉ s) (n : Nat) : splitAtMost c (n + 1) s = [s] := by
  have hnone : splitOnce? [c] s = none := by
    rwa [splitOnce?_eq_none_iff, List.singleton_infix_iff]
  cases n with
  | zero => rfl
  | succ n => simp only [splitAtMost, hnone]

theorem splitAtMost_append_cons (h : c ∉ s) (n : Nat) (t : List Char) :
    splitAtMost c (n + 2) (s ++ c :: t) = s :: splitAtMost c (n + 1) t := by
  have hcut : splitOnce? [c] (s ++ c :: t) = some (s, t) := splitOnce?_append_of_notMem [] h
  simp only [splitAtMost, hcut]

/-- There is one piece more than separators, up to the limit. -/
theorem length_splitAtMost (c : Char) (n : Nat) (s : List Char) :
    (splitAtMost c (n + 1) s).length = min n (s.count c) + 1 := by
  induction n generalizing s with
  | zero => rw [splitAtMost, List.length_singleton, Nat.zero_min]
  | succ n ih =>
    by_cases h : c ∈ s
    · obtain ⟨piece, t, rfl, hpiece⟩ := List.eq_append_cons_of_mem h
      rw [splitAtMost_append_cons hpiece, List.length_cons, ih, List.count_append,
        List.count_eq_zero_of_not_mem hpiece, List.count_cons_self]
      omega
    · rw [splitAtMost_of_notMem h, List.count_eq_zero_of_not_mem h, List.length_singleton,
        Nat.min_zero]

/-! ## Lines in which a piece occurs -/

theorem infix_dropReturn {l : List Char} (hreturn : '\r' ∉ piece) (h : piece <:+: l) :
    piece <:+: dropReturn l := by
  unfold dropReturn
  split
  next hlast =>
    have hl : l = l.dropLast ++ ['\r'] := (List.dropLast_append_getLast? _ hlast).symm
    rw [hl, infix_append_cons_iff hreturn] at h
    rcases h with h | h
    · exact h
    · exact List.infix_nil.mp h ▸ List.nil_infix
  next => exact h

/-- A piece without line ends that occurs in a text occurs on one of its lines. -/
theorem exists_line_infix (hne : piece ≠ []) (hnewline : '\n' ∉ piece) (hreturn : '\r' ∉ piece)
    (h : piece <:+: s) : ∃ l ∈ lines s, piece <:+: l := by
  induction s using piece_induction '\n' with
  | last s hs =>
    have hs' : s ≠ [] := by
      rintro rfl
      exact hne (List.infix_nil.mp h)
    exact ⟨s, by simp [lines_of_notMem hs, hs'], h⟩
  | more l s hl ih =>
    rw [lines_append_newline hl]
    rcases (infix_append_cons_iff hnewline).mp h with h | h
    · exact ⟨_, List.mem_cons_self, infix_dropReturn hreturn h⟩
    · obtain ⟨l', hl', hpiece⟩ := ih h
      exact ⟨l', List.mem_cons_of_mem _ hl', hpiece⟩

/-! ## Blanks at either end -/

theorem isBlank_of_head?_trim (h : (trim s).head? = some c) : isBlank c = false := by
  obtain ⟨t, ht⟩ : trim s <+: trimStart s := List.rdropWhile_prefix isBlank (trimStart s)
  have hhead : (trimStart s).head? = some c := by
    rw [← ht, List.head?_append, h, Option.some_or]
  have hstart := List.head?_dropWhile_not isBlank s
  rw [← trimStart, hhead] at hstart
  exact hstart

theorem trimStart_of_head? (h : s.head? = some c) (hc : isBlank c = false) : trimStart s = s := by
  obtain ⟨t, rfl⟩ := List.head?_eq_some_iff.mp h
  exact List.dropWhile_cons_of_neg (by simp [hc])

theorem trim_of_forall_mem (h : ∀ c ∈ s, isBlank c = false) : trim s = s := by
  have hstart : s.dropWhile isBlank = s :=
    List.dropWhile_eq_self_iff.mpr fun hs => by simpa using h _ (List.getElem_mem hs)
  have hend : s.reverse.dropWhile isBlank = s.reverse :=
    List.dropWhile_eq_self_iff.mpr fun hs => by
      simpa using h _ (List.mem_reverse.mp (List.getElem_mem hs))
  rw [trim, trimStart, hstart, trimEnd, dropEndWhile, hend, List.reverse_reverse]

theorem trim_cons_of_isBlank (h : isBlank c = true) (s : List Char) : trim (c :: s) = trim s := by
  rw [trim, trimStart, List.dropWhile_cons_of_pos h, ← trimStart, ← trim]

theorem trimEnd_append_cons (h : isBlank c = false) (s t : List Char) :
    trimEnd (s ++ c :: t) = s ++ c :: trimEnd t := by
  simp only [trimEnd, dropEndWhile, List.reverse_append, List.reverse_cons, List.append_assoc,
    List.dropWhile_append]
  split
  next hall => simp [List.isEmpty_iff.mp hall, h]
  next => simp

theorem trimEnd_cons (c : Char) (s : List Char) :
    trimEnd (c :: s) = if trimEnd s = [] ∧ isBlank c = true then [] else c :: trimEnd s := by
  simp only [trimEnd, dropEndWhile, List.reverse_cons, List.dropWhile_append,
    List.reverse_eq_nil_iff]
  split
  next hall =>
    rw [List.isEmpty_iff] at hall
    cases hc : isBlank c <;> simp [hall, hc]
  next hall =>
    rw [List.isEmpty_iff] at hall
    simp [hall]

theorem isBlank_of_mem_of_trim_eq_nil (h : trim s = []) (hc : c ∈ s) : isBlank c = true := by
  induction s with
  | nil => cases hc
  | cons d s ih =>
    cases hd : isBlank d with
    | true =>
      rcases List.mem_cons.mp hc with rfl | hc
      · exact hd
      · exact ih (trim_cons_of_isBlank hd s ▸ h) hc
    | false =>
      have hstart : (d :: s).dropWhile isBlank = d :: s :=
        List.dropWhile_cons_of_neg (by simp [hd])
      have hend : trimEnd (d :: s) = d :: trimEnd s := trimEnd_append_cons hd [] s
      rw [trim, trimStart, hstart, hend] at h
      cases h

/-! ## Joined texts -/

theorem mem_joinWith {sep : List Char} {ls : List (List Char)} (h : c ∈ joinWith sep ls) :
    c ∈ sep ∨ ∃ l ∈ ls, c ∈ l := by
  induction ls with
  | nil => exact absurd h List.not_mem_nil
  | cons l ls ih =>
    cases ls with
    | nil => exact .inr ⟨l, List.mem_cons_self, by simpa [joinWith] using h⟩
    | cons l' ls =>
      rw [joinWith, List.intercalate_cons_cons, List.append_assoc, List.mem_append,
        List.mem_append] at h
      rcases h with h | h | h
      · exact .inr ⟨l, List.mem_cons_self, h⟩
      · exact .inl h
      · exact (ih h).imp id fun ⟨l, hl, hc⟩ => ⟨l, List.mem_cons_of_mem _ hl, hc⟩

theorem joinWith_concat (sep l : List Char) (ls : List (List Char)) (last : List Char) :
    joinWith sep (l :: ls ++ [last]) = joinWith sep (l :: ls) ++ sep ++ last := by
  induction ls generalizing l with
  | nil => simp [joinWith]
  | cons l' ls ih =>
    have ih := ih l'
    rw [joinWith, joinWith] at ih ⊢
    simp only [List.cons_append, List.intercalate_cons_cons] at ih ⊢
    rw [ih]
    simp only [List.append_assoc]

end RootCause.Text
