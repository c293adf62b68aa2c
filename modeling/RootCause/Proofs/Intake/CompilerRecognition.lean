import RootCause.Intake.Input
import RootCause.Proofs.Intake.CompilerOutput

/-!
# Compiler output recognised

Compiler output is recognised by a line on which the end of a position is followed by an error with
a code. Of what a compiler prints, any problem of that kind has such a line
(`IsCodedError.infix_text`), whatever its other parts are. But such a line is only looked for in a
text that does not look like JSON, and a text starts with the name of the first file. So output is
not recognised if this name starts with a bracket, or with a brace where the quoted word by which a
SARIF log is recognised is found in the output. In all other cases it is recognised, and read as
what it is (`detect?_printed_iff`).
-/

namespace RootCause.Intake

open Text

/-- A problem as a compiler prints it. -/
structure PrintedProblem where
  file : List Char
  line : Nat
  column : Nat
  category : Category
  code : List Char
  /-- The first line of the message. -/
  message : List Char
  /-- The further lines, each without the blank that it starts with. -/
  details : List (List Char) := []
  file_ne_nil : file ≠ [] := by decide +kernel
  file_trimmed : trim file = file := by decide +kernel

namespace PrintedProblem

variable (p : PrintedProblem) (ps : List PrintedProblem)

/-- What stands in the first line after the file. -/
def afterFile : List Char :=
  '(' :: (decimal p.line ++ ',' :: (decimal p.column ++
    (positionEnd ++ (p.category.text ++ ' ' :: (p.code ++ ':' :: ' ' :: p.message)))))

/-- The lines of the problem. -/
def lines : List (List Char) := (p.file ++ p.afterFile) :: p.details.map (' ' :: ·)

/-- The output in which some problems are printed. -/
def text (ps : List PrintedProblem) : List Char := unlines (ps.flatMap lines)

/-- The problem is an error with a code of the type checker. -/
structure IsCodedError : Prop where
  category : p.category = .error
  code : "TS".toList <+: p.code

/-! ## What the output starts with -/

theorem head?_text : (text (p :: ps)).head? = p.file.head? := by
  rw [text, List.flatMap_cons, lines, List.cons_append, unlines, List.flatMap_cons]
  simp only [List.append_assoc]
  exact List.head?_append_of_ne_nil _ p.file_ne_nil

theorem trimStart_text : trimStart (text (p :: ps)) = text (p :: ps) := by
  obtain ⟨c, rest, hfile⟩ := List.exists_cons_of_ne_nil p.file_ne_nil
  have hhead : p.file.head? = some c := by rw [hfile, List.head?_cons]
  have hblank : isBlank c = false := isBlank_of_head?_trim (p.file_trimmed.symm ▸ hhead)
  exact trimStart_of_head? ((head?_text p ps).trans hhead) hblank

/-! ## Where an error with a code shows -/

variable {p ps}

theorem IsCodedError.infix_afterFile (h : p.IsCodedError) :
    "): error TS".toList <:+: p.afterFile := by
  obtain ⟨number, hcode⟩ := h.code
  refine ⟨'(' :: (decimal p.line ++ ',' :: decimal p.column),
    number ++ ':' :: ' ' :: p.message, ?_⟩
  have hpiece : "): error TS".toList =
      positionEnd ++ (Category.error.text ++ ' ' :: "TS".toList) := by decide
  rw [hpiece, afterFile, h.category, ← hcode]
  simp only [List.append_assoc, List.cons_append]

theorem IsCodedError.infix_text (h : p.IsCodedError) (hp : p ∈ ps) :
    "): error TS".toList <:+: text ps := by
  have hline : p.file ++ p.afterFile ∈ ps.flatMap lines :=
    List.mem_flatMap.mpr ⟨p, hp, List.mem_cons_self⟩
  obtain ⟨before, after, hsplit⟩ := List.append_of_mem hline
  have htext : p.file ++ p.afterFile <:+: text ps := by
    refine ⟨unlines before, '\n' :: unlines after, ?_⟩
    rw [text, hsplit]
    simp [unlines]
  exact (h.infix_afterFile.trans (List.suffix_append _ _).isInfix).trans htext

theorem IsCodedError.any_lines_text (h : p.IsCodedError) (hp : p ∈ ps) :
    (Text.lines (text ps)).any (occurs "): error TS".toList) = true := by
  obtain ⟨l, hl, hinfix⟩ :=
    exists_line_infix (by decide) (by decide) (by decide) (h.infix_text hp)
  exact List.any_eq_true.mpr ⟨l, hl, isSome_splitOnce?_iff.mpr hinfix⟩

end PrintedProblem

/-! ## Recognition -/

theorem Format.sniff_eq_tsc_iff {name text : List Char}
    (hany : (Text.lines text).any (occurs "): error TS".toList) = true) :
    sniff name text = some .tsc ↔
      text.head? ≠ some '[' ∧ ¬ (text.head? = some '{' ∧ "\"runs\"".toList <:+: text) := by
  have hruns : occurs "\"runs\"".toList text = true ↔ "\"runs\"".toList <:+: text :=
    isSome_splitOnce?_iff
  rw [sniff, ← hruns, hany, Bool.or_true, if_pos rfl]
  by_cases hsarif : text.head? = some '{' ∧ occurs "\"runs\"".toList text = true
  · rw [if_pos hsarif]
    exact iff_of_false (by decide) fun h => h.2 hsarif
  by_cases hbracket : text.head? = some '['
  · rw [if_neg hsarif, if_pos hbracket]
    refine iff_of_false ?_ fun h => h.1 hbracket
    split_ifs <;> decide
  · rw [if_neg hsarif, if_neg hbracket]
    exact iff_of_true rfl ⟨hbracket, hsarif⟩

theorem readOutput_of_detect? {path : Path} {text : List Char}
    (h : Format.detect? path text = some .tsc) :
    readOutput path text none = .ok (ofCompiler text) := by
  rw [readOutput, Option.none_or, h]
  rfl

/-- **What a compiler prints is recognised unless it looks like JSON.** Let there be an error with a
code of the type checker among some problems, and let the output come from a file that is not named
like a SARIF log. Then it is recognised if and only if the first problem's file neither starts with
a bracket, nor starts with a brace while the quoted word of a SARIF log is found in the output.
Output that is recognised is read as compiler output. -/
theorem detect?_printed_iff {path : Path} {name : List Char} {p : PrintedProblem}
    {ps : List PrintedProblem} (hname : path.fileName? = some name)
    (hsarif : ¬ ".sarif".toList <:+ name) (hsarifJson : ¬ ".sarif.json".toList <:+ name)
    (herror : ∃ q ∈ p :: ps, q.IsCodedError) :
    (Format.detect? path (PrintedProblem.text (p :: ps)) = some .tsc ↔
      p.file.head? ≠ some '[' ∧
        ¬ (p.file.head? = some '{' ∧ "\"runs\"".toList <:+: PrintedProblem.text (p :: ps))) ∧
    (Format.detect? path (PrintedProblem.text (p :: ps)) = some .tsc →
      readOutput path (PrintedProblem.text (p :: ps)) none =
        .ok (ofCompiler (PrintedProblem.text (p :: ps)))) := by
  have hnot : Format.isSarifName name = false :=
    Format.isSarifName_eq_false_iff.mpr ⟨hsarif, hsarifJson⟩
  obtain ⟨q, hq, hcoded⟩ := herror
  refine ⟨?_, readOutput_of_detect?⟩
  rw [Format.detect?_of_isSarifName_eq_false hname hnot, PrintedProblem.trimStart_text,
    Format.sniff_eq_tsc_iff (hcoded.any_lines_text hq), PrintedProblem.head?_text]

/-- An error in a file of a dynamic route. -/
def routeError : PrintedProblem where
  file := "[id].tsx".toList
  line := 3
  column := 5
  category := .error
  code := "TS2304".toList
  message := "Cannot find name 'x'.".toList

/-- A warning in a file with a brace, and a further line of its message. -/
def braceWarning : PrintedProblem where
  file := "\x7ba\x7d(1).ts".toList
  line := 1
  column := 2
  category := .warning
  code := "6133".toList
  message := "'runs' is never read.".toList
  details := [" The file is in the program because:".toList]

/-- After the warning, the error is recognised, and so the output is. -/
theorem braceWarning_routeError_recognized :
    let path : Path := ⟨"out/tsc.json"⟩
    let name := "tsc.json".toList
    let ps := [braceWarning, routeError]
    path.fileName? = some name ∧ ¬ ".sarif".toList <:+ name ∧ ¬ ".sarif.json".toList <:+ name ∧
      (∃ q ∈ ps, q.IsCodedError) ∧ Format.detect? path (PrintedProblem.text ps) = some .tsc ∧
      (readOutput path (PrintedProblem.text ps) none).toOption.map (·.map (·.file.text)) =
        some ["\x7ba\x7d(1).ts", "[id].tsx"] := by
  intro path name ps
  have hname : path.fileName? = some name := by decide +kernel
  have herror : ∃ q ∈ ps, q.IsCodedError := ⟨routeError, by simp [ps], rfl, by decide⟩
  have hthm := detect?_printed_iff hname (by decide) (by decide) herror
  have hdetect : Format.detect? path (PrintedProblem.text ps) = some .tsc :=
    hthm.1.mpr (by decide +kernel)
  refine ⟨hname, by decide, by decide, herror, hdetect, ?_⟩
  rw [hthm.2 hdetect]
  decide +kernel

/-- The error alone is taken for diagnostics as they are written here, and refused. -/
theorem routeError_taken_for_json :
    let path : Path := ⟨"out/tsc.txt"⟩
    let text := PrintedProblem.text [routeError]
    path.fileName? = some "tsc.txt".toList ∧
      text = "[id].tsx(3,5): error TS2304: Cannot find name 'x'.\n".toList ∧
      routeError.IsCodedError ∧ Format.detect? path text = some .json ∧
      readOutput path text none = .error (.malformed path .json) := by
  refine ⟨by decide +kernel, by decide +kernel, ⟨rfl, by decide⟩, by decide +kernel, ?_⟩
  decide +kernel

end RootCause.Intake
