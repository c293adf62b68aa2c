import RootCause.Output.Style
import RootCause.Proofs.Text.Splitting

/-!
# Text without control sequences

What a terminal shows of a text is the text without its control sequences (`unstyled`). A painted
text shows what it was painted from, and so do texts that are put together from such (`Shows`).
Blanks may be cut off the end of the text with its sequences first: those that stand in front of a
sequence are kept then, and cut off after the sequences are removed (`Shows.trimEnd_unstyled`).
-/

namespace RootCause.Output

/-! ## Removing control sequences -/

/-- Where in a text a character stands. -/
inductive Place
  | shown
  /-- Behind the escape that starts a control sequence. -/
  | escaped
  /-- Behind the bracket of a control sequence. -/
  | parameter
  deriving DecidableEq, Repr

/-- Whether a character ends a control sequence with a bracket. -/
def isFinal (c : Char) : Bool := 0x40 ≤ c.toNat && c.toNat ≤ 0x7E

/-- A text that begins at a place, without control sequences: an escape, a bracket and what follows
up to the first character that ends it, or an escape and any other character. -/
def unstyledFrom : Place → List Char → List Char
  | _, [] => []
  | .shown, c :: s =>
    if c = Style.escape then unstyledFrom .escaped s else c :: unstyledFrom .shown s
  | .escaped, c :: s => if c = '[' then unstyledFrom .parameter s else unstyledFrom .shown s
  | .parameter, c :: s => if isFinal c then unstyledFrom .shown s else unstyledFrom .parameter s

/-- A text without its control sequences. -/
def unstyled (s : List Char) : List Char := unstyledFrom .shown s

theorem unstyledFrom_parameter {params : List Char} (hparams : ∀ c ∈ params, isFinal c = false)
    {final : Char} (hfinal : isFinal final = true) (s : List Char) :
    unstyledFrom .parameter (params ++ final :: s) = unstyledFrom .shown s := by
  induction params with
  | nil => simp [unstyledFrom, hfinal]
  | cons c params ih =>
    obtain ⟨hc, hparams⟩ := List.forall_mem_cons.mp hparams
    rw [List.cons_append, unstyledFrom, if_neg (by simp [hc]), ih hparams]

/-! ## Texts with control sequences -/

/-- The first text is the second with control sequences in it. -/
inductive Shows : List Char → List Char → Prop
  | nil : Shows [] []
  | cons {c : Char} {x s : List Char} (hc : c ≠ Style.escape) (h : Shows x s) :
      Shows (c :: x) (c :: s)
  | sequence {params x s : List Char} {final : Char} (hparams : ∀ c ∈ params, isFinal c = false)
      (hfinal : isFinal final = true) (h : Shows x s) :
      Shows (Style.escape :: '[' :: (params ++ final :: x)) s

namespace Shows

theorem unstyled_eq {x s : List Char} (h : Shows x s) : unstyled x = s := by
  rw [unstyled]
  induction h with
  | nil => rfl
  | cons hc _ ih => rw [unstyledFrom, if_neg hc, ih]
  | sequence hparams hfinal _ ih =>
    rw [unstyledFrom, if_pos rfl, unstyledFrom, if_pos rfl, unstyledFrom_parameter hparams hfinal, ih]

theorem append {x s y t : List Char} (hx : Shows x s) (hy : Shows y t) : Shows (x ++ y) (s ++ t) := by
  induction hx with
  | nil => exact hy
  | cons hc _ ih => exact .cons hc ih
  | sequence hparams hfinal _ ih =>
    rw [List.cons_append, List.cons_append, List.append_assoc, List.cons_append]
    exact .sequence hparams hfinal ih

theorem of_notMem {s : List Char} (h : Style.escape ∉ s) : Shows s s := by
  induction s with
  | nil => exact .nil
  | cons c s ih =>
    obtain ⟨hc, h⟩ := not_or.mp (mt List.mem_cons.mpr h)
    exact .cons (Ne.symm hc) (ih h)

section

variable {α : Type} {f g : α → List Char}

theorem flatMap {l : List α} (h : ∀ a ∈ l, Shows (f a) (g a)) : Shows (l.flatMap f) (l.flatMap g) := by
  induction l with
  | nil => exact .nil
  | cons a l ih =>
    obtain ⟨ha, hl⟩ := List.forall_mem_cons.mp h
    exact ha.append (ih hl)

theorem joinWith {sep : List Char} (hsep : Style.escape ∉ sep) {l : List α}
    (h : ∀ a ∈ l, Shows (f a) (g a)) :
    Shows (Text.joinWith sep (l.map f)) (Text.joinWith sep (l.map g)) := by
  induction l with
  | nil => exact .nil
  | cons a l ih =>
    obtain ⟨ha, hl⟩ := List.forall_mem_cons.mp h
    cases l with
    | nil => simpa [Text.joinWith] using ha
    | cons b l =>
      have ih := ih hl
      simp only [Text.joinWith, List.map_cons, List.intercalate_cons_cons] at ih ⊢
      exact (ha.append (.of_notMem hsep)).append ih

end

end Shows

/-! ## Painted texts -/

theorem isFinal_of_mem_codes (st : Style) :
    ∀ c ∈ [';'].intercalate st.codes, isFinal c = false := by
  have hcodes : ([';'].intercalate st.codes).any isFinal = false := by
    obtain ⟨bold, colour⟩ := st
    cases bold <;> rcases colour with _ | (_ | _ | _ | _ | _) <;> decide
  simpa using hcodes

theorem Shows.paint (st : Style) (colours : Bool) {s : List Char} (h : Style.escape ∉ s) :
    Shows (st.paint colours s) s := by
  rw [Style.paint]
  split
  · have hzero : ∀ c ∈ ['0'], isFinal c = false := List.forall_mem_singleton.mpr (by decide)
    have hreset : Shows (Style.sequence [['0']]) [] := .sequence hzero (by decide) .nil
    have htext : Shows (s ++ Style.sequence [['0']]) s := by
      simpa using (Shows.of_notMem h).append hreset
    rw [Style.sequence, List.append_assoc, List.cons_append, List.cons_append, List.append_assoc]
    exact .sequence (isFinal_of_mem_codes st) (by decide) htext
  · exact .of_notMem h

/-! ## Blanks at the end -/

theorem isBlank_of_isFinal {c : Char} (h : isFinal c = true) : Text.isBlank c = false := by
  simp only [isFinal, Bool.and_eq_true, decide_eq_true_eq] at h
  simp only [Text.isBlank, Bool.or_eq_false_iff, Bool.and_eq_false_iff, beq_eq_false_iff_ne,
    decide_eq_false_iff_not]
  omega

/-- No blank is a part of a control sequence's end, so what shows a text does so without the blanks
at its end. -/
theorem Shows.exists_trimEnd {x s : List Char} (h : Shows x s) :
    ∃ s', Shows (Text.trimEnd x) s' ∧ Text.trimEnd s' = Text.trimEnd s := by
  induction h with
  | nil => exact ⟨[], .nil, rfl⟩
  | @cons c x s hc _ ih =>
    obtain ⟨s', hx, htrim⟩ := ih
    rw [Text.trimEnd_cons c x]
    split
    next hblank =>
      -- nothing shown is left behind the character, which is cut off with it
      rw [hblank.1] at hx
      cases hx
      refine ⟨[], .nil, ?_⟩
      rw [Text.trimEnd_cons, ← htrim, if_pos ⟨rfl, hblank.2⟩]
      rfl
    next => exact ⟨c :: s', .cons hc hx, by rw [Text.trimEnd_cons, Text.trimEnd_cons, htrim]⟩
  | @sequence params x s final hparams hfinal _ ih =>
    obtain ⟨s', hx, htrim⟩ := ih
    have hkeep : Text.trimEnd (Style.escape :: '[' :: (params ++ final :: x)) =
        Style.escape :: '[' :: (params ++ final :: Text.trimEnd x) :=
      Text.trimEnd_append_cons (isBlank_of_isFinal hfinal) (Style.escape :: '[' :: params) x
    rw [hkeep]
    exact ⟨s', .sequence hparams hfinal hx, htrim⟩

theorem Shows.trimEnd_unstyled {x s : List Char} (h : Shows x s) :
    Text.trimEnd (unstyled (Text.trimEnd x)) = Text.trimEnd s := by
  obtain ⟨s', hx, htrim⟩ := h.exists_trimEnd
  rw [hx.unstyled_eq, htrim]

end RootCause.Output
