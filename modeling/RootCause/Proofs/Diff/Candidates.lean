import RootCause.Proofs.Diff.Patch
import RootCause.Proofs.Diff.Sections
import RootCause.Proofs.Text.Splitting

/-!
# Candidate diffs

Of a list of diffs the first one that has a snippet for a line is picked. Blank diffs are passed
over unread, which changes nothing since there is no hunk in them (`scan_lines_of_trim_eq_nil`), and
they are counted: what is picked is the first snippet among all of the diffs, with its place in the
whole list (`pick_isFirst`).
-/

namespace RootCause.Diff

variable {t : Nat}

/-! ## Passing over a diff -/

theorem extract_eq_ok (ht : 1 ≤ t) (diff : List Char) :
    extract diff t = .ok (scan t none (Text.lines diff)) := by
  rw [extract, if_neg (by omega)]

theorem extract_zero (diff : List Char) : extract diff 0 = .error (.line 0) := if_pos rfl

/-- There is no hunk in a blank text. -/
theorem scan_lines_of_trim_eq_nil {diff : List Char} (h : Text.trim diff = []) :
    scan t none (Text.lines diff) = none := by
  have hlines : ∀ l ∈ Text.lines diff, isHeader l = false := by
    intro l hl
    rw [Bool.eq_false_iff, Ne, isHeader_iff]
    intro hpre
    have hat : '@' ∈ diff := Text.mem_of_mem_lines hl (hpre.subset List.mem_cons_self)
    exact absurd (Text.isBlank_of_mem_of_trim_eq_nil h hat) (by decide)
  rw [scan_none, sections_of_not_isHeader hlines]
  rfl

theorem pickFrom_cons (ht : 1 ≤ t) (i : Nat) (diff : List Char) (rest : List (List Char)) :
    pickFrom t i (diff :: rest) =
      match scan t none (Text.lines diff) with
      | some s => .ok (some ⟨s, i⟩)
      | none => pickFrom t (i + 1) rest := by
  rw [pickFrom, extract_eq_ok ht]
  by_cases hblank : Text.trim diff = []
  · rw [if_pos (List.isEmpty_iff.mpr hblank), scan_lines_of_trim_eq_nil hblank]
  · rw [if_neg (mt List.isEmpty_iff.mp hblank)]
    cases scan t none (Text.lines diff) <;> rfl

/-! ## The first snippet -/

/-- The diff at a place of a list has a snippet for the line `t`, and no diff before it has one. -/
structure IsFirst (t : Nat) (diffs : List (List Char)) (i : Nat) (s : Snippet) : Prop where
  found : ∃ diff, diffs[i]? = some diff ∧ extract diff t = .ok (some s)
  before : ∀ j < i, ∀ diff, diffs[j]? = some diff → extract diff t = .ok none

variable {diff : List Char} {diffs : List (List Char)} {s : Snippet}

theorem isFirst_cons_zero_iff : IsFirst t (diff :: diffs) 0 s ↔ extract diff t = .ok (some s) := by
  constructor
  · rintro ⟨⟨first, hfirst, hs⟩, -⟩
    obtain rfl : diff = first := Option.some.inj hfirst
    exact hs
  · exact fun hs => ⟨⟨diff, rfl, hs⟩, fun j hj => absurd hj (Nat.not_lt_zero j)⟩

theorem isFirst_cons_succ_iff {i : Nat} :
    IsFirst t (diff :: diffs) (i + 1) s ↔ extract diff t = .ok none ∧ IsFirst t diffs i s := by
  constructor
  · rintro ⟨hfound, hbefore⟩
    exact ⟨hbefore 0 (Nat.succ_pos i) diff rfl,
      hfound, fun j hj => hbefore (j + 1) (Nat.succ_lt_succ hj)⟩
  · rintro ⟨hdiff, hfound, hbefore⟩
    refine ⟨hfound, fun j hj first hfirst => ?_⟩
    cases j with
    | zero =>
      obtain rfl : diff = first := Option.some.inj hfirst
      exact hdiff
    | succ j => exact hbefore j (Nat.lt_of_succ_lt_succ hj) first hfirst

/-- What a search finds is first, and its index counts from that of the first diff. -/
theorem pickFrom_eq_some_iff (ht : 1 ≤ t) {n : Nat} {p : Pick} :
    pickFrom t n diffs = .ok (some p) ↔ ∃ i, p.index = n + i ∧ IsFirst t diffs i p.snippet := by
  induction diffs generalizing n with
  | nil =>
    constructor
    · intro h
      cases h
    · rintro ⟨i, -, ⟨diff, hdiff, -⟩, -⟩
      cases hdiff
  | cons diff diffs ih =>
    have hextract := extract_eq_ok ht diff
    rw [pickFrom_cons ht]
    cases hscan : scan t none (Text.lines diff) with
    | some s =>
      rw [hscan] at hextract
      constructor
      · rintro ⟨⟩
        exact ⟨0, rfl, isFirst_cons_zero_iff.mpr hextract⟩
      · rintro ⟨i, hi, hfirst⟩
        cases i with
        | zero =>
          have hs : extract diff t = .ok (some p.snippet) := isFirst_cons_zero_iff.mp hfirst
          obtain rfl : s = p.snippet := by simpa [hextract] using hs
          have hp : (⟨p.snippet, n⟩ : Pick) = p := by rw [← Nat.add_zero n, ← hi]
          exact congrArg (fun p => Except.ok (some p)) hp
        | succ i =>
          have hnone : extract diff t = .ok none := (isFirst_cons_succ_iff.mp hfirst).1
          exact absurd (hextract.symm.trans hnone) (by simp)
    | none =>
      rw [hscan] at hextract
      refine ih.trans ⟨?_, ?_⟩
      · rintro ⟨i, hi, hfirst⟩
        exact ⟨i + 1, by omega, isFirst_cons_succ_iff.mpr ⟨hextract, hfirst⟩⟩
      · rintro ⟨i, hi, hfirst⟩
        cases i with
        | zero =>
          have hs : extract diff t = .ok (some p.snippet) := isFirst_cons_zero_iff.mp hfirst
          exact absurd (hextract.symm.trans hs) (by simp)
        | succ i => exact ⟨i, by omega, (isFirst_cons_succ_iff.mp hfirst).2⟩

theorem pickFrom_eq_none_iff (ht : 1 ≤ t) {n : Nat} :
    pickFrom t n diffs = .ok none ↔ ∀ diff ∈ diffs, extract diff t = .ok none := by
  induction diffs generalizing n with
  | nil => simp [pickFrom]
  | cons diff diffs ih =>
    rw [pickFrom_cons ht, List.forall_mem_cons, extract_eq_ok ht]
    cases scan t none (Text.lines diff) with
    | some s => simp
    | none => simpa using ih

theorem exists_pickFrom_eq_ok (ht : 1 ≤ t) (n : Nat) (diffs : List (List Char)) :
    ∃ found, pickFrom t n diffs = .ok found := by
  induction diffs generalizing n with
  | nil => exact ⟨none, rfl⟩
  | cons diff diffs ih =>
    rw [pickFrom_cons ht]
    cases scan t none (Text.lines diff) with
    | some s => exact ⟨_, rfl⟩
    | none => exact ih (n + 1)

theorem pick_eq_some_iff (ht : 1 ≤ t) {i : Nat} :
    pick diffs t = .ok (some ⟨s, i⟩) ↔ IsFirst t diffs i s := by
  rw [pick, if_neg (by omega), pickFrom_eq_some_iff ht]
  simp only [Nat.zero_add, exists_eq_left']

theorem pick_eq_none_iff (ht : 1 ≤ t) :
    pick diffs t = .ok none ↔ ∀ diff ∈ diffs, extract diff t = .ok none := by
  rw [pick, if_neg (by omega), pickFrom_eq_none_iff ht]

theorem exists_pick_eq_ok (ht : 1 ≤ t) (diffs : List (List Char)) :
    ∃ found, pick diffs t = .ok found := by
  rw [pick, if_neg (by omega)]
  exact exists_pickFrom_eq_ok ht 0 diffs

/-- **The first candidate with a snippet is picked, blank or not.** There is an error just for the
line 0. Otherwise what is picked is a snippet and its place if and only if the diff at this place
has the snippet and no diff before it has any, and nothing is picked if and only if no diff has
any. -/
theorem pick_isFirst (diffs : List (List Char)) (t : Nat) :
    ((∃ e, pick diffs t = .error e) ↔ t = 0) ∧
    (∀ s i, pick diffs t = .ok (some ⟨s, i⟩) ↔ IsFirst t diffs i s) ∧
    (pick diffs t = .ok none ↔ t ≠ 0 ∧ ∀ diff ∈ diffs, extract diff t = .ok none) := by
  rcases Nat.eq_zero_or_pos t with rfl | ht
  · have hpick : pick diffs 0 = .error (.line 0) := if_pos rfl
    rw [hpick]
    refine ⟨by simp, fun s i => iff_of_false (by simp) ?_, by simp⟩
    rintro ⟨⟨diff, -, hs⟩, -⟩
    rw [extract_zero] at hs
    cases hs
  · obtain ⟨found, hfound⟩ := exists_pick_eq_ok ht diffs
    refine ⟨iff_of_false ?_ ht.ne', fun s i => pick_eq_some_iff ht, ?_⟩
    · rw [hfound]
      simp
    · rw [pick_eq_none_iff ht]
      exact (and_iff_right ht.ne').symm

/-- A blank diff is counted, as is one without the line. -/
example : pick [" \n".toList, "@@ -1 +2 @@\n a".toList, "@@ -1 +1 @@\n+b".toList] 1 =
    .ok (some ⟨⟨"@@ -1 +1 @@".toList, [⟨"+b".toList, some .added, some 1, ['b']⟩], some 0⟩, 2⟩) := by
  rfl

end RootCause.Diff
