import RootCause.Text.Blank
import RootCause.Text.Decimal
import RootCause.Text.Lines
import RootCause.Text.Search
import Mathlib.Data.List.Basic
import Mathlib.Tactic.IntervalCases

/-!
# Reading text back

What reading gives on text that was put together from known pieces: the number of its decimal digits
(`number?_decimal`), the words between blanks (`words_append_blank`), and the lines that were ended
by newlines (`lines_unlines`), of which a carriage return at the end is lost. `stripStart?` finds
exactly the prefixes of a text (`isSome_stripStart?_iff`).
-/

namespace RootCause.Text

/-! ## Numbers -/

theorem digit?_digitChar {n : Nat} (h : n < 10) : digit? n.digitChar = some n := by
  interval_cases n <;> decide

theorem digitsFrom?_append (acc : Nat) (s t : List Char) :
    digitsFrom? acc (s ++ t) = (digitsFrom? acc s).bind fun n => digitsFrom? n t := by
  induction s generalizing acc with
  | nil => rfl
  | cons c s ih =>
    cases hd : digit? c with
    | none => simp [digitsFrom?, hd]
    | some d => simp [digitsFrom?, hd, ih]

theorem digitsFrom?_decimal (n : Nat) : digitsFrom? 0 (decimal n) = some n := by
  induction n using Nat.strongRecOn with
  | ind n ih =>
    rw [decimal, Nat.toDigits_eq_if (by decide)]
    by_cases h : n < 10
    · simp [h, digitsFrom?, digit?_digitChar h]
    · have hdiv : digitsFrom? 0 (Nat.toDigits 10 (n / 10)) = some (n / 10) := ih (n / 10) (by omega)
      have hmod : n % 10 < 10 := Nat.mod_lt _ (by decide)
      rw [if_neg h, digitsFrom?_append, hdiv]
      simp only [Option.bind_some, digitsFrom?, digit?_digitChar hmod, Option.some.injEq]
      omega

theorem decimal_injective : Function.Injective decimal := fun m n h =>
  Option.some.inj ((digitsFrom?_decimal m).symm.trans (h ▸ digitsFrom?_decimal n))

theorem isDigit_of_mem_decimal {n : Nat} {c : Char} (h : c ∈ decimal n) : c.isDigit :=
  Nat.isDigit_of_mem_toDigits (by decide) (by decide) h

theorem notMem_decimal {c : Char} (h : c.isDigit = false) (n : Nat) : c ∉ decimal n := fun hc => by
  rw [isDigit_of_mem_decimal hc] at h
  cases h

theorem isBlank_of_isDigit {c : Char} (h : c.isDigit) : isBlank c = false := by
  simp only [Char.isDigit, Bool.and_eq_true, decide_eq_true_eq, ge_iff_le,
    UInt32.le_iff_toNat_le] at h
  have hlow : 48 ≤ c.toNat := h.1
  have hhigh : c.toNat ≤ 57 := h.2
  simp only [isBlank, Bool.or_eq_false_iff, Bool.and_eq_false_iff, beq_eq_false_iff_ne,
    decide_eq_false_iff_not]
  omega

theorem number?_decimal {n : Nat} (h : n < wordSize) : number? (decimal n) = some n := by
  have hdigits := digitsFrom?_decimal n
  have hdigit : ∀ c ∈ decimal n, c.isDigit := fun c => isDigit_of_mem_decimal
  have hne : decimal n ≠ [] := Nat.toDigits_ne_nil
  cases hs : decimal n with
  | nil => exact absurd hs hne
  | cons c s =>
    have hplus : c ≠ '+' := by
      rintro rfl
      have := hdigit '+' (by simp [hs])
      simp at this
    rw [hs] at hdigits
    have hbody : digits? (c :: s) = some n := by simpa [digits?] using hdigits
    simp [number?, hplus, hbody, h]

/-! ## Prefixes and words -/

theorem isSome_stripStart?_iff {p s : List Char} : (stripStart? p s).isSome ↔ p <+: s := by
  constructor
  · intro h
    obtain ⟨r, hr⟩ := Option.isSome_iff_exists.mp h
    rw [eq_append_of_stripStart? hr]
    exact List.prefix_append p r
  · rintro ⟨r, rfl⟩
    rw [stripStart?_append]
    rfl

theorem words_append_blank {w : List Char} (hw : ∀ c ∈ w, isBlank c = false) (hne : w ≠ [])
    {b : Char} (hb : isBlank b = true) (s : List Char) : words (w ++ b :: s) = w :: words s := by
  rw [words, List.splitOnP_append_cons_of_forall_mem hw b hb]
  simp [words, hne]

/-! ## Lines -/

/-- The text in which every line is ended by a newline. -/
def unlines (ls : List (List Char)) : List Char := ls.flatMap (· ++ ['\n'])

/-- The line without a carriage return at its end. -/
def dropReturn (l : List Char) : List Char := if l.getLast? = some '\r' then l.dropLast else l

theorem dropReturn_of_getLast?_ne {l : List Char} (h : l.getLast? ≠ some '\r') :
    dropReturn l = l := if_neg h

theorem dropReturn_prefix_self (l : List Char) : dropReturn l <+: l := by
  unfold dropReturn
  split
  · exact l.dropLast_prefix
  · exact l.prefix_refl

theorem dropReturn_append (l : List Char) {l' : List Char} (h : l' ≠ []) :
    dropReturn (l ++ l') = l ++ dropReturn l' := by
  simp only [dropReturn, List.getLast?_append_of_ne_nil l h, List.dropLast_append_of_ne_nil h,
    apply_ite (l ++ ·)]

theorem dropReturn_cons_cons (c d : Char) (l : List Char) :
    dropReturn (c :: d :: l) = c :: dropReturn (d :: l) :=
  dropReturn_append [c] (List.cons_ne_nil d l)

theorem dropReturn_cons {c : Char} (hc : c ≠ '\r') (l : List Char) :
    dropReturn (c :: l) = c :: dropReturn l := by
  cases l with
  | nil => simp [dropReturn, hc]
  | cons d l => exact dropReturn_cons_cons c d l

theorem lines_of_notMem {l : List Char} (hl : '\n' ∉ l) :
    lines l = if l = [] then [] else [l] := by
  induction l with
  | nil => simp
  | cons c l ih =>
    obtain ⟨hc, hl⟩ := not_or.mp (mt List.mem_cons.mpr hl)
    have hrest := ih hl
    rw [lines]
    · cases l <;> simp [hrest]
    · exact fun h => hc h.symm
    · rintro t - rfl
      exact hl List.mem_cons_self

theorem lines_append_newline {l : List Char} (hl : '\n' ∉ l) (s : List Char) :
    lines (l ++ '\n' :: s) = dropReturn l :: lines s := by
  induction l with
  | nil => simp [dropReturn]
  | cons c l ih =>
    obtain ⟨hne, hl⟩ := not_or.mp (mt List.mem_cons.mpr hl)
    have hc : c ≠ '\n' := Ne.symm hne
    have ih := ih hl
    cases l with
    | nil =>
      by_cases hr : c = '\r'
      · subst hr
        simp [lines, dropReturn]
      · have hkeep : dropReturn [c] = [c] := by simp [dropReturn, hr]
        simp [lines, hr, hkeep]
    | cons d l =>
      have hd : d ≠ '\n' := fun h => hl (h ▸ List.mem_cons_self)
      rw [dropReturn_cons_cons]
      simp only [List.cons_append] at ih ⊢
      rw [lines, ih]
      · exact hc
      · rintro s' - h
        exact hd (List.cons.inj h).1

theorem lines_unlines {ls : List (List Char)} (h : ∀ l ∈ ls, '\n' ∉ l) :
    lines (unlines ls) = ls.map dropReturn := by
  induction ls with
  | nil => simp [unlines]
  | cons l ls ih =>
    have hrest := ih fun l' hl' => h l' (List.mem_cons_of_mem _ hl')
    simp only [unlines, List.flatMap_cons, List.append_assoc, List.singleton_append]
    rw [lines_append_newline (h l List.mem_cons_self), List.map_cons, ← hrest, unlines]

theorem mem_of_mem_lines {s l : List Char} {c : Char} (hl : l ∈ lines s) (hc : c ∈ l) : c ∈ s := by
  fun_induction lines s generalizing l with
  | case1 => simp at hl
  | case2 s ih =>
    rcases List.mem_cons.mp hl with rfl | hl
    · exact absurd hc List.not_mem_nil
    · exact List.mem_cons_of_mem _ (ih hl hc)
  | case3 s ih =>
    rcases List.mem_cons.mp hl with rfl | hl
    · exact absurd hc List.not_mem_nil
    · exact List.mem_cons_of_mem _ (List.mem_cons_of_mem _ (ih hl hc))
  | case4 d s _ _ hnil ih =>
    obtain rfl := List.mem_singleton.mp hl
    exact List.mem_singleton.mp hc ▸ List.mem_cons_self
  | case5 d s _ _ l' ls hlines ih =>
    rw [hlines] at ih
    rcases List.mem_cons.mp hl with rfl | hl
    · rcases List.mem_cons.mp hc with rfl | hc
      · exact List.mem_cons_self
      · exact List.mem_cons_of_mem _ (ih List.mem_cons_self hc)
    · exact List.mem_cons_of_mem _ (ih (List.mem_cons_of_mem _ hl) hc)

theorem length_lines_le (s : List Char) : (lines s).length ≤ s.length := by
  fun_induction lines s with
  | case1 => exact Nat.le_refl 0
  | case2 s ih => exact Nat.succ_le_succ ih
  | case3 s ih =>
    simp only [List.length_cons]
    omega
  | case4 c s _ _ hrest ih => exact Nat.succ_le_succ (Nat.zero_le _)
  | case5 c s _ _ l ls hrest ih =>
    rw [hrest] at ih
    simp only [List.length_cons] at ih ⊢
    omega

theorem newline_notMem_of_mem_lines {s l : List Char} (hl : l ∈ lines s) : '\n' ∉ l := by
  fun_induction lines s generalizing l with
  | case1 => simp at hl
  | case2 s ih =>
    rcases List.mem_cons.mp hl with rfl | hl
    · exact List.not_mem_nil
    · exact ih hl
  | case3 s ih =>
    rcases List.mem_cons.mp hl with rfl | hl
    · exact List.not_mem_nil
    · exact ih hl
  | case4 d s hne _ _ _ =>
    obtain rfl := List.mem_singleton.mp hl
    exact fun h => hne (List.mem_singleton.mp h).symm
  | case5 d s hne _ l' ls hlines ih =>
    rw [hlines] at ih
    rcases List.mem_cons.mp hl with rfl | hl
    · exact List.not_mem_cons_of_ne_of_not_mem (fun h => hne h.symm) (ih List.mem_cons_self)
    · exact ih (List.mem_cons_of_mem _ hl)

end RootCause.Text
