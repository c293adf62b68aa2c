import Mathlib.Data.List.ModifyLast
import RootCause.Proofs.Intake.CompilerOutput

/-!
# Indented lines of compiler output

Whether a line starts a problem is settled before anything is asked about how it begins. What
decides is its text: there has to be a comma in the last parenthesis that is opened before the first
`): ` (`HasPlace`, `isSome_read?_iff`), and there are as many problems in an output as lines that
have such a place (`length_readLines`).

Output is read line after line, so what is read of a longer output is found by going on from what
was read of its start (`ofCompiler_append`). An indented line is then added to the last message if
and only if it has no place (`indented_line_continues_iff`); one that has a place, such as a line
that quotes the type of a function, starts a problem (`binaryOverload_starts_problem`).
-/

namespace RootCause.Intake

open Text

/-- What a line needs to start a problem: before the first `): `, a comma in the last parenthesis
that is opened. -/
def HasPlace (line : List Char) : Prop :=
  ∃ file position rest, line = file ++ '(' :: position ++ positionEnd ++ rest ∧
    ¬ positionEnd <:+: file ++ '(' :: position ++ positionEnd.dropLast ∧
    '(' ∉ position ∧ ',' ∈ position

variable {line : List Char}

theorem isSome_read?_iff : (CompilerLine.read? line).isSome ↔ HasPlace line := by
  have hne : positionEnd ≠ [] := by decide
  have hcomma : ∀ position, (splitOnce? [','] position).isSome ↔ ',' ∈ position := fun position =>
    isSome_splitOnce?_iff.trans (List.singleton_infix_iff ',' position)
  constructor
  · intro h
    obtain ⟨l, hl⟩ := Option.isSome_iff_exists.mp h
    simp only [CompilerLine.read?, Option.bind_eq_bind, Option.bind_eq_some_iff, Prod.exists] at hl
    obtain ⟨place, rest, hend, file, position, hplace, before, after, hposition, -⟩ := hl
    obtain ⟨rfl, hfirst⟩ := (splitOnce?_eq_some_iff hne).mp hend
    obtain ⟨rfl, hlast⟩ := splitLast?_eq_some_iff.mp hplace
    exact ⟨file, position, rest, rfl, hfirst, hlast, (hcomma position).mp (by rw [hposition]; rfl)⟩
  · rintro ⟨file, position, rest, rfl, hfirst, hlast, hmem⟩
    have hend : splitOnce? [')', ':', ' '] (file ++ '(' :: position ++ positionEnd ++ rest) =
        some (file ++ '(' :: position, rest) := splitOnce?_append hne hfirst
    have hplace : splitLast? '(' (file ++ '(' :: position) = some (file, position) :=
      splitLast?_append hlast
    obtain ⟨⟨before, after⟩, hposition⟩ := Option.isSome_iff_exists.mp ((hcomma position).mpr hmem)
    simp only [CompilerLine.read?, hend, hplace, hposition, Option.bind_eq_bind, Option.bind_some]
    rfl

theorem read?_eq_none_iff : CompilerLine.read? line = none ↔ ¬ HasPlace line := by
  rw [← isSome_read?_iff, Option.not_isSome_iff_eq_none]

instance : DecidablePred HasPlace := fun _ => decidable_of_iff _ isSome_read?_iff

/-! ## One line more -/

variable {found : List Diagnostic}

theorem exists_readLine_of_hasPlace (h : HasPlace line) (found : List Diagnostic) :
    ∃ d, readLine found line = d :: found := by
  obtain ⟨l, hl⟩ := Option.isSome_iff_exists.mp (isSome_read?_iff.mpr h)
  refine ⟨l.diagnostic, ?_⟩
  unfold readLine
  rw [hl]

theorem readLine_of_indented (h : ¬ HasPlace line) (hindent : line.head? = some ' ')
    (d : Diagnostic) (found : List Diagnostic) :
    readLine (d :: found) line = addToMessage d line :: found := by
  obtain ⟨rest, rfl⟩ := List.head?_eq_some_iff.mp hindent
  unfold readLine
  rw [read?_eq_none_iff.mpr h]
  rfl

theorem length_readLine_of_not_hasPlace (h : ¬ HasPlace line) (found : List Diagnostic) :
    (readLine found line).length = found.length := by
  unfold readLine
  rw [read?_eq_none_iff.mpr h]
  dsimp only
  split <;> rfl

/-! ## More lines -/

/-- The problems after some lines, if those before them were `found`. -/
def readLines (found : List Diagnostic) (lines : List (List Char)) : List Diagnostic :=
  (lines.foldl readLine found.reverse).reverse

theorem readLines_append (found : List Diagnostic) (before after : List (List Char)) :
    readLines found (before ++ after) = readLines (readLines found before) after := by
  rw [readLines, readLines, readLines, List.foldl_append, List.reverse_reverse]

/-- What is read of an output goes on from what is read of the lines it starts with. -/
theorem ofCompiler_append {text : List Char} (hend : text.getLast? = some '\n')
    (more : List Char) : ofCompiler (text ++ more) = readLines (ofCompiler text) (lines more) := by
  obtain ⟨s, rfl⟩ := List.getLast?_eq_some_iff.mp hend
  have hlines : lines (s ++ ['\n'] ++ more) = lines (s ++ ['\n']) ++ lines more := by
    rw [List.append_assoc]
    exact lines_newline_append s more
  calc ofCompiler (s ++ ['\n'] ++ more)
      = readLines [] (lines (s ++ ['\n']) ++ lines more) := by rw [← hlines]; rfl
    _ = readLines (ofCompiler (s ++ ['\n'])) (lines more) := readLines_append _ _ _

/-- Each line with a place starts a problem, and no other one does. -/
theorem length_readLines (found : List Diagnostic) (lines : List (List Char)) :
    (readLines found lines).length = found.length + lines.countP (HasPlace ·) := by
  obtain ⟨latest, rfl⟩ : ∃ latest : List Diagnostic, found = latest.reverse :=
    ⟨_, found.reverse_reverse.symm⟩
  rw [readLines, List.reverse_reverse, List.length_reverse, List.length_reverse]
  induction lines generalizing latest with
  | nil => rfl
  | cons line lines ih =>
    rw [List.foldl_cons, ih]
    by_cases h : HasPlace line
    · obtain ⟨d, hd⟩ := exists_readLine_of_hasPlace h latest
      rw [hd, List.length_cons, List.countP_cons_of_pos (by simpa using h)]
      omega
    · rw [length_readLine_of_not_hasPlace h, List.countP_cons_of_neg (by simpa using h)]

theorem readLines_of_indented (h : ¬ HasPlace line) (hindent : line.head? = some ' ')
    (hfound : found ≠ []) : readLines found [line] = found.modifyLast (addToMessage · line) := by
  obtain ⟨before, d, rfl⟩ := (List.eq_nil_or_concat' found).resolve_left hfound
  have hreverse : (before ++ [d]).reverse = d :: before.reverse := by simp
  rw [List.modifyLast_concat, readLines, hreverse, List.foldl_cons, List.foldl_nil,
    readLine_of_indented h hindent, List.reverse_cons, List.reverse_reverse]

/-- **An indented line belongs to the problem before it if and only if it has no place.** Let an
output with at least one problem go on with an indented line and any lines `after` it. Just when the
line has no place, its text is added to the message of the last problem, and just then there are as
many problems as there would be without the line. -/
theorem indented_line_continues_iff {text more : List Char} {after : List (List Char)}
    (hend : text.getLast? = some '\n') (hfound : ofCompiler text ≠ [])
    (hmore : lines more = line :: after) (hindent : line.head? = some ' ') :
    (ofCompiler (text ++ more) =
        readLines ((ofCompiler text).modifyLast (addToMessage · line)) after ↔
      ¬ HasPlace line) ∧
    ((ofCompiler (text ++ more)).length = (readLines (ofCompiler text) after).length ↔
      ¬ HasPlace line) := by
  have hread : ofCompiler (text ++ more) = readLines (ofCompiler text) ([line] ++ after) := by
    rw [ofCompiler_append hend, hmore, List.singleton_append]
  have hlength : (ofCompiler (text ++ more)).length =
      (ofCompiler text).length + [line].countP (HasPlace ·) + after.countP (HasPlace ·) := by
    rw [hread, length_readLines, List.countP_append, Nat.add_assoc]
  have hstarts : [line].countP (HasPlace ·) = 0 ↔ ¬ HasPlace line := by
    simp
  have hcontinued : ((ofCompiler text).modifyLast (addToMessage · line)).length =
      (ofCompiler text).length := by
    obtain ⟨before, d, heq⟩ := (List.eq_nil_or_concat' _).resolve_left hfound
    rw [heq, List.modifyLast_concat, List.length_append, List.length_append]
    rfl
  refine ⟨⟨fun heq => hstarts.mp ?_, fun h => ?_⟩, ?_⟩
  · rw [heq, length_readLines, hcontinued] at hlength
    omega
  · rw [hread, readLines_append, readLines_of_indented h hindent hfound]
  · rw [hlength, length_readLines, ← hstarts]
    omega

/-- An output with one problem. -/
def overloadOutput : List Char :=
  "a.ts(1,1): error TS2769: No overload matches this call.\n".toList

/-- A further line of it, about an overload with one argument. -/
def unaryOverload : List Char := "  Overload 1 of 2, '(x: A): void'.".toList

/-- A further line of it, about an overload with two arguments. -/
def binaryOverload : List Char := "  Overload 1 of 2, '(x: A, y: B): void'.".toList

theorem unaryOverload_continues :
    overloadOutput.getLast? = some '\n' ∧ ofCompiler overloadOutput ≠ [] ∧
    lines (unaryOverload ++ "\nb.ts(2,3): late".toList) =
      unaryOverload :: ["b.ts(2,3): late".toList] ∧
    unaryOverload.head? = some ' ' ∧ ¬ HasPlace unaryOverload ∧
    (ofCompiler (overloadOutput ++ (unaryOverload ++ "\nb.ts(2,3): late".toList))).map (·.message) =
      ["No overload matches this call.\nOverload 1 of 2, '(x: A): void'.", "late"] := by
  have hend : overloadOutput.getLast? = some '\n' := by decide +kernel
  have hfound : ofCompiler overloadOutput ≠ [] := by decide +kernel
  have hmore : lines (unaryOverload ++ "\nb.ts(2,3): late".toList) =
      unaryOverload :: ["b.ts(2,3): late".toList] := by decide +kernel
  have hindent : unaryOverload.head? = some ' ' := by decide +kernel
  have hplace : ¬ HasPlace unaryOverload := by decide +kernel
  refine ⟨hend, hfound, hmore, hindent, hplace, ?_⟩
  rw [(indented_line_continues_iff hend hfound hmore hindent).1.mpr hplace]
  decide +kernel

/-- The line about two arguments is not added to the message. It starts a problem, in a file that
has the text before the arguments for a name. -/
theorem binaryOverload_starts_problem :
    overloadOutput.getLast? = some '\n' ∧ binaryOverload.head? = some ' ' ∧
    (ofCompiler overloadOutput).map (·.message) = ["No overload matches this call."] ∧
    (ofCompiler (overloadOutput ++ binaryOverload ++ ['\n'])).map
        (fun d => (d.location.file.text, d.message)) =
      [("a.ts", "No overload matches this call."), ("Overload 1 of 2, '", "void'.")] := by
  decide +kernel

end RootCause.Intake
