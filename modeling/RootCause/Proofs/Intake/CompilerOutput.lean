import RootCause.Intake.Compiler
import RootCause.Proofs.Text.Splitting

/-!
# Compiler output read back

A compiler's problem before it is written down (`CompilerReport`), with what keeps its parts apart:
the file does not contain the `): ` that ends the position, nor does a further line of the message,
and no colon stands in the code. The first line of the message may be any. Each line is then cut
where it was put together (`read?_firstLine`), a further line starts no problem (`readLine_detail`),
and so output is read back as the problems that were written (`ofCompiler_text`).
-/

namespace RootCause.Intake

open Text

/-- There is no line break in a text. -/
def IsInline (s : List Char) : Prop := '\n' ∉ s ∧ '\r' ∉ s

instance (s : List Char) : Decidable (IsInline s) := inferInstanceAs (Decidable (_ ∧ _))

/-- What ends the position in the first line of a problem. -/
def positionEnd : List Char := [')', ':', ' ']

/-- What a compiler calls a problem. -/
inductive Category
  | error
  | warning
  | message
  deriving DecidableEq

/-- How a category is written. -/
def Category.text : Category → List Char
  | .error => "error".toList
  | .warning => "warning".toList
  | .message => "message".toList

/-- How bad the problems of a category are. -/
def Category.severity : Category → Severity
  | .error => .error
  | .warning => .warning
  | .message => .info

/-- A further line of a message, which starts no problem and loses no blanks. -/
structure DetailLine where
  text : List Char
  inline : IsInline text := by decide +kernel
  trimmed : trim text = text := by decide +kernel
  positionEnd_notIn : ¬ positionEnd <:+: text := by decide +kernel
  deriving DecidableEq

/-- A problem as a compiler reports it. -/
structure CompilerReport where
  file : List Char
  line : Nat
  column : Nat
  category : Category
  code : List Char
  /-- The first line of the message. -/
  message : List Char
  details : List DetailLine := []
  file_inline : IsInline file := by decide +kernel
  file_trimmed : trim file = file := by decide +kernel
  positionEnd_notIn : ¬ positionEnd <:+: file := by decide +kernel
  line_pos : 1 ≤ line := by decide +kernel
  line_lt : line < wordSize := by decide +kernel
  column_pos : 1 ≤ column := by decide +kernel
  column_lt : column < wordSize := by decide +kernel
  code_inline : IsInline code := by decide +kernel
  code_ne_nil : code ≠ [] := by decide +kernel
  colon_notMem : ':' ∉ code := by decide +kernel
  message_inline : IsInline message := by decide +kernel
  deriving DecidableEq

namespace DetailLine

/-- How the line is written. -/
def raw (l : DetailLine) : List Char := ' ' :: ' ' :: l.text

end DetailLine

namespace CompilerReport

/-- Line and column, as they are written. -/
def position (r : CompilerReport) : List Char := decimal r.line ++ ',' :: decimal r.column

/-- What stands before the end of the position. -/
def place (r : CompilerReport) : List Char := r.file ++ '(' :: r.position

/-- What stands before the message. -/
def label (r : CompilerReport) : List Char := r.category.text ++ ' ' :: r.code

/-- The first line of the problem. -/
def firstLine (r : CompilerReport) : List Char :=
  r.place ++ positionEnd ++ (r.label ++ ':' :: ' ' :: r.message)

/-- The lines of the problem. -/
def lines (r : CompilerReport) : List (List Char) := r.firstLine :: r.details.map DetailLine.raw

/-- The output in which some problems are reported. -/
def text (rs : List CompilerReport) : List Char := unlines (rs.flatMap lines)

/-- The problem that is reported. -/
def diagnostic (r : CompilerReport) : Diagnostic where
  tool := .tsc
  rule := some (String.ofList r.code)
  message := String.ofList (joinWith ['\n'] (r.message :: r.details.map DetailLine.text))
  severity := r.category.severity
  location := ⟨⟨String.ofList r.file⟩, r.line, r.column, none, none⟩

end CompilerReport

/-! ## Parts of the first line -/

theorem isInline_append {s t : List Char} : IsInline (s ++ t) ↔ IsInline s ∧ IsInline t := by
  simp only [IsInline, List.mem_append, not_or]
  exact and_and_and_comm

theorem positionPart_decimal {n : Nat} (h : n < wordSize) : positionPart (decimal n) = n := by
  have htrim : trim (decimal n) = decimal n :=
    trim_of_forall_mem fun c hc => isBlank_of_isDigit (isDigit_of_mem_decimal hc)
  rw [positionPart, htrim, number?_decimal h, Option.getD_some]

theorem oneBased_of_pos {n : Nat} (h : 1 ≤ n) : oneBased n = n := max_eq_left h

namespace Category

theorem categorySeverity_text (c : Category) : categorySeverity c.text = c.severity := by
  cases c <;> decide

theorem space_notMem_text (c : Category) : ' ' ∉ c.text := by
  cases c <;> decide

theorem colon_notMem_text (c : Category) : ':' ∉ c.text := by
  cases c <;> decide

theorem isInline_text (c : Category) : IsInline c.text := by
  cases c <;> decide

end Category

namespace CompilerReport

variable (r : CompilerReport)

theorem notMem_position {c : Char} (hc : c.isDigit = false) (hcomma : c ≠ ',') :
    c ∉ r.position := by
  rw [position, List.mem_append, List.mem_cons]
  rintro (h | h | h)
  · exact notMem_decimal hc _ h
  · exact hcomma h
  · exact notMem_decimal hc _ h

/-- The position ends where it was ended: the file does not contain what ends it, and there is no
blank in the position. -/
theorem positionEnd_notIn_place : ¬ positionEnd <:+: r.place ++ positionEnd.dropLast := by
  have hsplit : r.place ++ positionEnd.dropLast = r.file ++ '(' :: (r.position ++ [')', ':']) := by
    simp [place, positionEnd]
  rw [hsplit, infix_append_cons_iff (by decide)]
  rintro (h | h)
  · exact r.positionEnd_notIn h
  · have hblank : ' ' ∈ r.position ++ [')', ':'] := h.subset (by decide)
    rw [List.mem_append] at hblank
    exact hblank.elim (r.notMem_position (by decide) (by decide)) (by decide)

theorem colon_notMem_label : ':' ∉ r.label := by
  rw [label, List.mem_append, List.mem_cons]
  rintro (h | h | h)
  · exact r.category.colon_notMem_text h
  · exact absurd h (by decide)
  · exact r.colon_notMem h

theorem categoryParts_label :
    categoryParts (r.label ++ ':' :: ' ' :: r.message) =
      (r.category.severity, some r.code, r.message) := by
  have hmessage : splitOnce? [':', ' '] (r.label ++ ':' :: ' ' :: r.message) =
      some (r.label, r.message) :=
    splitOnce?_append_of_notMem [' '] r.colon_notMem_label
  have hcode : splitOnce? [' '] r.label = some (r.category.text, r.code) :=
    splitOnce?_append_of_notMem [] r.category.space_notMem_text
  simp only [categoryParts, hmessage, hcode, Option.getD_some, Category.categorySeverity_text,
    if_neg r.code_ne_nil]

/-- The first line of a problem is cut into the parts that it was put together from. -/
theorem read?_firstLine :
    CompilerLine.read? r.firstLine =
      some ⟨r.file, r.line, r.column, r.category.severity, some r.code, r.message⟩ := by
  have hend : splitOnce? [')', ':', ' '] r.firstLine =
      some (r.place, r.label ++ ':' :: ' ' :: r.message) :=
    splitOnce?_append (by decide : positionEnd ≠ []) r.positionEnd_notIn_place
  have hplace : splitLast? '(' r.place = some (r.file, r.position) :=
    splitLast?_append (r.notMem_position (by decide) (by decide))
  have hposition : splitOnce? [','] r.position = some (decimal r.line, decimal r.column) :=
    splitOnce?_append_of_notMem [] (notMem_decimal (by decide) _)
  simp only [CompilerLine.read?, hend, hplace, hposition, Option.bind_eq_bind, Option.bind_some,
    categoryParts_label, r.file_trimmed, positionPart_decimal r.line_lt,
    positionPart_decimal r.column_lt, oneBased_of_pos r.line_pos, oneBased_of_pos r.column_pos]
  rfl

/-! ## Lines of the output -/

theorem isInline_position : IsInline r.position :=
  ⟨r.notMem_position (by decide) (by decide), r.notMem_position (by decide) (by decide)⟩

theorem isInline_firstLine : IsInline r.firstLine := by
  have hplace : IsInline r.place :=
    isInline_append.mpr ⟨r.file_inline, isInline_append (s := ['(']).mpr
      ⟨by decide, r.isInline_position⟩⟩
  have hlabel : IsInline r.label :=
    isInline_append.mpr ⟨r.category.isInline_text, isInline_append (s := [' ']).mpr
      ⟨by decide, r.code_inline⟩⟩
  refine isInline_append.mpr ⟨isInline_append.mpr ⟨hplace, by decide⟩, ?_⟩
  exact isInline_append.mpr ⟨hlabel, isInline_append (s := [':', ' ']).mpr
    ⟨by decide, r.message_inline⟩⟩

theorem isInline_of_mem_lines {l : List Char} (h : l ∈ r.lines) : IsInline l := by
  rcases List.mem_cons.mp h with rfl | h
  · exact r.isInline_firstLine
  · obtain ⟨d, -, rfl⟩ := List.mem_map.mp h
    exact isInline_append (s := [' ', ' ']).mpr ⟨by decide, d.inline⟩

theorem lines_text (rs : List CompilerReport) : Text.lines (text rs) = rs.flatMap lines := by
  have hinline : ∀ l ∈ rs.flatMap lines, IsInline l := by
    intro l hl
    obtain ⟨r, -, hl⟩ := List.mem_flatMap.mp hl
    exact r.isInline_of_mem_lines hl
  have hkeep : ∀ l ∈ rs.flatMap lines, dropReturn l = l := fun l hl =>
    dropReturn_of_getLast?_ne fun h => (hinline l hl).2 (List.mem_of_getLast? h)
  rw [text, lines_unlines fun l hl => (hinline l hl).1]
  exact (List.map_congr_left hkeep).trans (List.map_id _)

/-! ## Problems read back -/

/-- The problem that its first line and some further ones make. -/
def diagnosticWith (r : CompilerReport) (details : List DetailLine) : Diagnostic :=
  { r.diagnostic with
    message := String.ofList (joinWith ['\n'] (r.message :: details.map DetailLine.text)) }

theorem readLine_firstLine (found : List Diagnostic) :
    readLine found r.firstLine = r.diagnosticWith [] :: found := by
  unfold readLine
  rw [read?_firstLine]
  simp [CompilerLine.diagnostic, diagnosticWith, diagnostic, joinWith]

/-- A further line starts no problem and is added to the last one. -/
theorem readLine_detail (l : DetailLine) (d : Diagnostic) (found : List Diagnostic) :
    readLine (d :: found) l.raw = addToMessage d l.raw :: found := by
  have hnone : splitOnce? [')', ':', ' '] l.raw = none := by
    rw [splitOnce?_eq_none_iff, DetailLine.raw, List.infix_cons_iff, List.infix_cons_iff]
    rintro (h | h | h)
    · exact absurd (List.cons_prefix_cons.mp h).1 (by decide)
    · exact absurd (List.cons_prefix_cons.mp h).1 (by decide)
    · exact l.positionEnd_notIn h
  have hread : CompilerLine.read? l.raw = none := by
    simp only [CompilerLine.read?, hnone, Option.bind_eq_bind, Option.bind_none]
  unfold readLine
  rw [hread]
  rfl

theorem addToMessage_diagnosticWith (details : List DetailLine) (l : DetailLine) :
    addToMessage (r.diagnosticWith details) l.raw = r.diagnosticWith (details ++ [l]) := by
  have htrim : trim l.raw = l.text := by
    rw [DetailLine.raw, trim_cons_of_isBlank (by decide), trim_cons_of_isBlank (by decide),
      l.trimmed]
  have hjoin : joinWith ['\n'] (r.message :: (details ++ [l]).map DetailLine.text) =
      joinWith ['\n'] (r.message :: details.map DetailLine.text) ++ '\n' :: l.text := by
    rw [List.map_append, List.map_singleton, ← List.cons_append, joinWith_concat,
      List.append_assoc, List.singleton_append]
  rw [addToMessage, htrim, diagnosticWith, diagnosticWith, hjoin]
  simp [String.ofList_append, String.append_assoc]

theorem foldl_readLine_details (details more : List DetailLine) (found : List Diagnostic) :
    (more.map DetailLine.raw).foldl readLine (r.diagnosticWith details :: found) =
      r.diagnosticWith (details ++ more) :: found := by
  induction more generalizing details with
  | nil => simp
  | cons l more ih =>
    rw [List.map_cons, List.foldl_cons, readLine_detail, addToMessage_diagnosticWith, ih,
      List.append_assoc, List.singleton_append]

theorem foldl_readLine_lines (found : List Diagnostic) :
    r.lines.foldl readLine found = r.diagnostic :: found := by
  rw [lines, List.foldl_cons, readLine_firstLine, foldl_readLine_details, List.nil_append]
  rfl

theorem foldl_readLine_flatMap_lines (rs : List CompilerReport) (found : List Diagnostic) :
    (rs.flatMap lines).foldl readLine found = (rs.map diagnostic).reverse ++ found := by
  induction rs generalizing found with
  | nil => rfl
  | cons r rs ih =>
    rw [List.flatMap_cons, List.foldl_append, foldl_readLine_lines, ih, List.map_cons,
      List.reverse_cons, List.append_assoc, List.singleton_append]

/-- **Compiler output is read back as what was reported**: all problems in their order, each with
its place, severity, code and all lines of its message. -/
theorem ofCompiler_text (rs : List CompilerReport) : ofCompiler (text rs) = rs.map diagnostic := by
  rw [ofCompiler, lines_text, foldl_readLine_flatMap_lines, List.append_nil, List.reverse_reverse]

/-- A file that is named like a position, and the end of one in a message. -/
example :
    let report : CompilerReport :=
      { file := "a(1,2).ts".toList
        line := 3
        column := 4
        category := .message
        code := "TS 80".toList
        message := "f(x): g".toList
        details := [{ text := "h(y), 'z'".toList }] }
    text [report] = "a(1,2).ts(3,4): message TS 80: f(x): g\n  h(y), 'z'\n".toList ∧
    report.diagnostic =
      ⟨.tsc, some "TS 80", "f(x): g\nh(y), 'z'", .info, ⟨⟨"a(1,2).ts"⟩, 3, 4, none, none⟩⟩ := by
  decide +kernel

end CompilerReport

end RootCause.Intake
