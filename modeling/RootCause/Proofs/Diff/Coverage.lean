import RootCause.Proofs.Diff.Patch
import RootCause.Proofs.Diff.Sections

/-!
# The snippet for a line of a file

The sections of a patch are its hunks (`sections_hunks`): what stands after a hunk ends its section.
The lines of a hunk are numbered from its header's number on (`numbered`), so that the snippet for a
line is the first hunk that covers it, pointed at it.

Main results: `extract_text`, which says what the whole snippet is, and `pointed_snippet`, which
relates its pointer to the lines of the file.
-/

namespace RootCause.Diff

open Text

variable {t : Nat}

/-! ## Numbered lines -/

/-- The lines that some changes are, of which the first one of the new file has the number
`next`. -/
def numbered (next : Nat) : List Change → List Line
  | [] => []
  | c :: cs => Line.read next c.raw :: numbered (if c.sign.inNew then next + 1 else next) cs

theorem numbered_cons_of_inNew {c : Change} (h : c.sign.inNew = true) (next : Nat)
    (cs : List Change) :
    numbered next (c :: cs) =
      ⟨c.raw, some c.sign, some next, c.text⟩ :: numbered (next + 1) cs := by
  rw [numbered, Change.read_raw, if_pos h, if_pos h]

theorem numbered_cons_of_not_inNew {c : Change} (h : c.sign.inNew = false) (next : Nat)
    (cs : List Change) :
    numbered next (c :: cs) = ⟨c.raw, some c.sign, none, c.text⟩ :: numbered next cs := by
  have hnot : ¬ c.sign.inNew = true := Bool.eq_false_iff.mp h
  rw [numbered, Change.read_raw, if_neg hnot, if_neg hnot]

theorem map_numbered (next : Nat) (cs : List Change) :
    (numbered next cs).map (fun l => (l.raw, l.sign)) = cs.map fun c => (c.raw, some c.sign) := by
  induction cs generalizing next with
  | nil => rfl
  | cons c cs ih =>
    rw [numbered, List.map_cons, List.map_cons, ih, Change.read_raw]

theorem le_of_mem_numbered {next : Nat} {cs : List Change} {l : Line} (h : l ∈ numbered next cs)
    (ht : l.newLine = some t) : next ≤ t := by
  induction cs generalizing next with
  | nil => cases h
  | cons c cs ih =>
    cases hc : c.sign.inNew with
    | false =>
      rw [numbered_cons_of_not_inNew hc, List.mem_cons] at h
      rcases h with rfl | h
      · cases ht
      · exact ih h
    | true =>
      rw [numbered_cons_of_inNew hc, List.mem_cons] at h
      rcases h with rfl | h
      · exact (Option.some.inj ht).le
      · have := ih h
        omega

/-- A line with a number is the line of the new file with this number. -/
theorem getElem?_of_mem_numbered {next : Nat} {cs : List Change} {l : Line}
    (h : l ∈ numbered next cs) (ht : l.newLine = some t) :
    (∃ s : Sign, l.sign = some s ∧ s.inNew = true) ∧
      (cs.filterMap Change.newLine?)[t - next]? = some l.content := by
  induction cs generalizing next with
  | nil => cases h
  | cons c cs ih =>
    cases hc : c.sign.inNew with
    | false =>
      rw [numbered_cons_of_not_inNew hc, List.mem_cons] at h
      rw [List.filterMap_cons_none (Change.newLine?_of_not_inNew hc)]
      rcases h with rfl | h
      · cases ht
      · exact ih h
    | true =>
      rw [numbered_cons_of_inNew hc, List.mem_cons] at h
      rw [List.filterMap_cons_some (Change.newLine?_of_inNew hc)]
      rcases h with rfl | h
      · obtain rfl : next = t := Option.some.inj ht
        rw [Nat.sub_self]
        exact ⟨⟨c.sign, rfl, hc⟩, rfl⟩
      · have hle : next + 1 ≤ t := le_of_mem_numbered h ht
        obtain ⟨hsign, hline⟩ := ih h
        refine ⟨hsign, ?_⟩
        rw [show t - next = t - (next + 1) + 1 by omega, List.getElem?_cons_succ]
        exact hline

theorem countP_isNew_map_raw (cs : List Change) :
    (cs.map Change.raw).countP isNew = (cs.filterMap Change.newLine?).length := by
  induction cs with
  | nil => rfl
  | cons c cs ih =>
    rw [List.map_cons]
    cases hc : c.sign.inNew with
    | false =>
      rw [List.countP_cons_of_neg (by simp [c.isNew_raw, hc]), ih,
        List.filterMap_cons_none (Change.newLine?_of_not_inNew hc)]
    | true =>
      rw [List.countP_cons_of_pos (by rw [c.isNew_raw, hc]), ih,
        List.filterMap_cons_some (Change.newLine?_of_inNew hc), List.length_cons]

/-- Where no line is one of the new file, it does not matter at which number they start. -/
theorem numberLines_congr {raws : List (List Char)} (h : raws.countP isNew = 0) (next next' : Nat) :
    numberLines next raws = numberLines next' raws := by
  induction raws with
  | nil => rfl
  | cons raw raws ih =>
    have hraw : isNew raw = false :=
      Bool.eq_false_iff.mpr (List.countP_eq_zero.mp h raw List.mem_cons_self)
    rw [List.countP_cons_of_neg (by simp [hraw])] at h
    simp only [numberLines, Line.read, hraw, Bool.false_eq_true, if_false, ih h]

/-- Up to the largest number, the lines of a hunk are numbered as a diff is read. -/
theorem numbered_eq {next : Nat} {cs : List Change}
    (h : next + (cs.filterMap Change.newLine?).length ≤ wordSize) :
    numbered next cs = numberLines next (cs.map Change.raw) := by
  induction cs generalizing next with
  | nil => rfl
  | cons c cs ih =>
    rw [numbered, List.map_cons, numberLines, c.isNew_raw]
    cases hc : c.sign.inNew with
    | false =>
      rw [List.filterMap_cons_none (Change.newLine?_of_not_inNew hc)] at h
      rw [if_neg Bool.false_ne_true, if_neg Bool.false_ne_true, ih h]
    | true =>
      rw [List.filterMap_cons_some (Change.newLine?_of_inNew hc), List.length_cons] at h
      rw [if_pos rfl, if_pos rfl, ih (by omega)]
      congr 1
      -- behind the line with the largest number there is no further one of the new file
      by_cases hlast : next + 1 < wordSize
      · rw [wrap_of_lt hlast]
      · refine numberLines_congr ?_ _ _
        rw [countP_isNew_map_raw]
        omega

/-! ## The sections of a patch -/

/-- The snippet that a hunk is for the line `t`. -/
def Hunk.snippet (t : Nat) (h : Hunk) : Snippet :=
  let lines := numbered h.new.start (h.changes.map Change.trimmed)
  ⟨dropReturn h.header, lines, lines.findIdx? (·.hasNumber t)⟩

theorem newLines_trimmed (h : Hunk) :
    (h.changes.map Change.trimmed).filterMap Change.newLine? = h.newLines.map dropReturn := by
  rw [List.filterMap_map, Hunk.newLines, List.map_filterMap]
  exact List.filterMap_congr fun c _ => c.newLine?_trimmed

/-- The section that a hunk is. -/
def Hunk.toSection (h : Hunk) : Section :=
  ⟨dropReturn h.header, (h.changes.map Change.trimmed).map Change.raw⟩

theorem newCount_toSection (h : Hunk) : h.toSection.newCount = h.newLines.length := by
  rw [Section.newCount, Hunk.toSection, countP_isNew_map_raw, newLines_trimmed, List.length_map]

theorem snippet_toSection {h : Hunk} (hlt : h.new.start < wordSize)
    (hend : h.new.start + h.newLines.length ≤ wordSize) :
    h.toSection.snippet t = h.snippet t := by
  have hlines : h.new.start +
      ((h.changes.map Change.trimmed).filterMap Change.newLine?).length ≤ wordSize := by
    rwa [newLines_trimmed, List.length_map]
  rw [Section.snippet, Section.lines, Hunk.toSection, newStart_header h hlt,
    ← numbered_eq hlines, Hunk.snippet]

theorem covers_toSection {h : Hunk} (hlt : h.new.start < wordSize)
    (hend : h.new.start + h.newLines.length ≤ wordSize) : h.toSection.covers t = h.covers t := by
  have hstart : newStart h.toSection.header = h.new.start := newStart_header h hlt
  have hcovers := Section.covers_iff_of_le (t := t) (s := h.toSection)
    (by rwa [hstart, newCount_toSection])
  rw [hstart, newCount_toSection] at hcovers
  rw [Bool.eq_iff_iff, hcovers, Hunk.covers, decide_eq_true_iff]

theorem isSome_pointer_snippet {h : Hunk} (hlt : h.new.start < wordSize)
    (hend : h.new.start + h.newLines.length ≤ wordSize) :
    (h.snippet t).pointer.isSome = h.covers t := by
  rw [← snippet_toSection hlt hend, Section.isSome_pointer_snippet, covers_toSection hlt hend]

/-- What stands after a hunk is the start of the part about another file or the next header. -/
theorem isHeader_or_isFileStart {file : List (List Char)} {h : Hunk} (hh : h.Describes file)
    (hs : List Hunk) {l : List Char}
    (hl : (h.after.map dropReturn ++ (hs.flatMap Hunk.lines).map dropReturn).head? = some l) :
    isHeader l = true ∨ isFileStart l = true := by
  cases hafter : h.after with
  | cons l' ls =>
    right
    obtain rfl : dropReturn l' = l := by simpa [hafter] using hl
    exact isFileStart_dropReturn (hh.after_start l' (by rw [hafter]; rfl))
  | nil =>
    left
    cases hs with
    | nil => simp [hafter] at hl
    | cons h' hs =>
      obtain rfl : dropReturn h'.header = l := by simpa [hafter, Hunk.lines] using hl
      exact isHeader_header h'

theorem sections_hunks {file : List (List Char)} {hs : List Hunk}
    (hd : ∀ h ∈ hs, h.Describes file) :
    sections ((hs.flatMap Hunk.lines).map dropReturn) = hs.map Hunk.toSection := by
  induction hs with
  | nil => rfl
  | cons h hs ih =>
    obtain ⟨hh, hhs⟩ := List.forall_mem_cons.mp hd
    let changes := (h.changes.map Change.trimmed).map Change.raw
    let rest := h.after.map dropReturn ++ (hs.flatMap Hunk.lines).map dropReturn
    have hlines : ((h :: hs).flatMap Hunk.lines).map dropReturn =
        dropReturn h.header :: (changes ++ rest) := by
      simp [Hunk.lines, Function.comp_def, Change.dropReturn_raw, changes, rest]
    have hchanges : ∀ raw ∈ changes, isBody raw = true := by
      refine List.forall_mem_map.mpr fun c _ => ?_
      rw [isBody, c.isHeader_raw, c.isFileStart_raw]
      rfl
    have hends : rest.takeWhile isBody = [] := by
      cases hrest : rest with
      | nil => rfl
      | cons l ls =>
        refine List.takeWhile_cons_of_neg ?_
        have hl : isHeader l = true ∨ isFileStart l = true :=
          isHeader_or_isFileStart hh hs (congrArg List.head? hrest)
        rcases hl with hl | hl <;> simp [isBody, hl]
    have hskip : sections (changes ++ rest) = hs.map Hunk.toSection := by
      rw [sections_append_of_not_isHeader, sections_append_of_not_isHeader, ih hhs]
      · exact List.forall_mem_map.mpr fun l hl => isHeader_dropReturn (hh.after l hl)
      · exact List.forall_mem_map.mpr fun c _ => c.isHeader_raw
    rw [hlines, sections_cons_of_isHeader (isHeader_header h), hskip,
      List.takeWhile_append_of_pos hchanges, hends, List.append_nil, List.map_cons]
    rfl

theorem find?_covers_toSection {hs : List Hunk}
    (hend : ∀ h ∈ hs, h.new.start < wordSize ∧ h.new.start + h.newLines.length ≤ wordSize) :
    ((hs.map Hunk.toSection).find? (·.covers t)).map (·.snippet t) =
      (hs.find? (·.covers t)).map (Hunk.snippet t) := by
  induction hs with
  | nil => rfl
  | cons h hs ih =>
    obtain ⟨⟨hlt, hle⟩, hhs⟩ := List.forall_mem_cons.mp hend
    rw [List.map_cons, List.find?_cons, List.find?_cons, covers_toSection hlt hle]
    cases h.covers t with
    | true => exact congrArg some (snippet_toSection hlt hle)
    | false => exact ih hhs

/-- **The snippet for a line is the first hunk that covers it.** -/
theorem extract_text {file : List (List Char)} {p : Patch} (hp : p.Describes file) (ht : 1 ≤ t) :
    extract p.text t = .ok ((p.hunks.find? (·.covers t)).map (Hunk.snippet t)) := by
  have hpreamble : ∀ raw ∈ p.preamble.map dropReturn, isHeader raw = false :=
    List.forall_mem_map.mpr fun l hl => isHeader_dropReturn (hp.preamble l hl)
  rw [extract_eq_find? ht, Patch.text, lines_unlines hp.lines, Patch.lines, List.map_append,
    sections_append_of_not_isHeader hpreamble, sections_hunks hp.hunks, find?_covers_toSection]
  exact fun h hh => ⟨(hp.hunks h hh).start_lt, (hp.hunks h hh).end_le⟩

/-! ## The line of the file -/

theorem getElem?_file {file : List (List Char)} {h : Hunk} (hh : h.Describes file)
    (hfile : ∀ l ∈ file, l.getLast? ≠ some '\r') {l : List Char} (hle : h.new.start ≤ t)
    (hl : (h.newLines.map dropReturn)[t - h.new.start]? = some l) : file[t - 1]? = some l := by
  rw [List.getElem?_map, Option.map_eq_some_iff] at hl
  obtain ⟨l, hl, rfl⟩ := hl
  have hdrop : (file.drop (h.new.start - 1))[t - h.new.start]? = some l := by
    obtain ⟨rest, hrest⟩ := hh.newLines
    obtain ⟨hlt, -⟩ := List.getElem?_eq_some_iff.mp hl
    rw [← hrest, List.getElem?_append_left hlt, hl]
  have hstart := hh.start_pos
  rw [List.getElem?_drop, show h.new.start - 1 + (t - h.new.start) = t - 1 by omega] at hdrop
  rw [hdrop, dropReturn_of_getLast?_ne (hfile l (List.mem_of_getElem? hdrop))]

theorem pointed_snippet {file : List (List Char)} {h : Hunk} (hh : h.Describes file)
    (hfile : ∀ l ∈ file, l.getLast? ≠ some '\r')
    (hc : h.covers t = true) :
    ∃ line, (h.snippet t).pointed = some line ∧
      (line.sign = some .added ∨ line.sign = some .context) ∧
      line.newLine = some t ∧ file[t - 1]? = some line.content := by
  rw [← isSome_pointer_snippet hh.start_lt hh.end_le, Option.isSome_iff_exists] at hc
  obtain ⟨i, hi⟩ := hc
  obtain ⟨hlt, hnumber, -⟩ := List.findIdx?_eq_some_iff_getElem.mp hi
  let line := (h.snippet t).lines[i]
  have hmem : line ∈ numbered h.new.start (h.changes.map Change.trimmed) := List.getElem_mem hlt
  have hline : line.newLine = some t := of_decide_eq_true hnumber
  obtain ⟨⟨s, hs, hnew⟩, hcontent⟩ := getElem?_of_mem_numbered hmem hline
  rw [newLines_trimmed] at hcontent
  refine ⟨line, ?_, ?_, hline, getElem?_file hh hfile (le_of_mem_numbered hmem hline) hcontent⟩
  · rw [Snippet.pointed, hi, Option.bind_some]
    exact List.getElem?_eq_getElem hlt
  · rw [hs]
    cases s with
    | added => exact .inl rfl
    | context => exact .inr rfl
    | removed => cases hnew
    | hunk => cases hnew
    | marker => cases hnew

/-- **A snippet shows the line of the file that was asked for.** On a patch of a file, there is a
snippet for the line `t` if and only if some hunk covers it. It is the first such hunk, with all of
its lines, and the pointer is at an added or a context line that has the number `t` and is the line
`t` of the file. -/
theorem extract_finds_first_covering_hunk {file : List (List Char)} {p : Patch}
    (hp : p.Describes file) (ht : 1 ≤ t) :
    (p.hunks.find? (·.covers t) = none → extract p.text t = .ok none) ∧
    ∀ h, p.hunks.find? (·.covers t) = some h →
      ∃ s line, extract p.text t = .ok (some s) ∧
        s.header = dropReturn h.header ∧
        s.lines.map (fun l => (l.raw, l.sign)) =
          h.changes.map (fun c => (dropReturn c.raw, some c.sign)) ∧
        s.pointed = some line ∧
        (line.sign = some .added ∨ line.sign = some .context) ∧
        line.newLine = some t ∧
        file[t - 1]? = some line.content := by
  rw [extract_text hp ht]
  refine ⟨fun hnone => by rw [hnone, Option.map_none], fun h hsome => ?_⟩
  have hh : h.Describes file := hp.hunks h (List.mem_of_find?_eq_some hsome)
  have hcovers : h.covers t = true := by simpa using List.find?_some hsome
  obtain ⟨line, hpointed, hline⟩ := pointed_snippet hh (fun l hl => (hp.file_lines l hl).2) hcovers
  have hheader : (h.snippet t).header = dropReturn h.header := by rw [Hunk.snippet]
  refine ⟨h.snippet t, line, by rw [hsome, Option.map_some], hheader, ?_, hpointed, hline⟩
  rw [Hunk.snippet, map_numbered, List.map_map]
  exact List.map_congr_left fun c _ => by rw [c.dropReturn_raw]; rfl

/-- The lines of a file. -/
def greetings : List (List Char) :=
  ["hello".toList, "good day".toList, "welcome".toList, "hi".toList, "cheers".toList]

/-- A patch of it with two hunks, a remark about a missing newline, and the start of the part about
another file between them. -/
def greetingsPatch : Patch where
  preamble := ["diff --git a/f b/f".toList, "+++ b/f".toList]
  hunks :=
    [{ old := ⟨1, some 2⟩
       new := ⟨1, some 2⟩
       changes :=
        [⟨.removed, "hullo".toList, by decide⟩, ⟨.added, "hello".toList, by decide⟩,
          ⟨.context, "good day".toList, by decide⟩]
       after := ["diff --git a/g b/g".toList, "--- a/g".toList] },
     { old := ⟨4, none⟩
       new := ⟨4, some 2⟩
       heading := " fn greet".toList
       changes :=
        [⟨.context, "hi".toList, by decide⟩,
          ⟨.marker, " No newline at end of file".toList, by decide⟩,
          ⟨.added, "cheers".toList, by decide⟩] }]

/-- The last line is found behind the remark, and the third one, which no hunk covers, is not. -/
theorem greetings_snippets :
    greetingsPatch.Describes greetings ∧
    (∃ s line, extract greetingsPatch.text 5 = .ok (some s) ∧ s.pointed = some line ∧
      line.content = "cheers".toList) ∧
    extract greetingsPatch.text 3 = .ok none := by
  have hp : greetingsPatch.Describes greetings := by decide
  refine ⟨hp, ?_, (extract_finds_first_covering_hunk hp (by decide)).1 (by decide)⟩
  obtain ⟨s, line, hs, -, -, hpointed, -, -, hcontent⟩ :=
    (extract_finds_first_covering_hunk hp (t := 5) (by decide)).2 _ rfl
  exact ⟨s, line, hs, hpointed, Option.some.inj hcontent.symm⟩

end RootCause.Diff
