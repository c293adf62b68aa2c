import RootCause.Proofs.Diff.Candidates
import RootCause.Proofs.Report.Caret

/-!
# Where snippets come from

A report asks git for one diff of each origin and puts the answers in a list, in which an origin is
only a place (`Origin.getElem?_all_eq_some_iff`): an answer that git does not give is the empty text
(`diffs_eq_map_diffText`). The snippet that is picked is the first of the list, and it belongs to
the origin at its place (`viewFor_eq_some_iff`). So an entry is labelled with the first origin whose
own diff has a snippet for its line (`view_labelled_by_origin`).
-/

namespace RootCause

/-! ## The answers of git -/

/-- What a run of git has written if it succeeded, and else the empty text. -/
def Git.Outcome.written : Git.Outcome → List Char
  | .exited 0 stdout _ => stdout
  | .exited (_ + 1) _ _ => []
  | .notStarted _ => []

theorem Git.Worktree.outputOrEmpty_eq_written (w : Git.Worktree) (command : String)
    (arguments : List String) :
    w.outputOrEmpty command arguments = (w.client (command :: arguments)).written := by
  rw [outputOrEmpty, output]
  rcases w.client (command :: arguments) with ⟨_ | _, _, _⟩ | _ <;> rfl

namespace Report

open Diff (Snippet extract)

/-- The place of an origin among those that are asked, from the one that is preferred. -/
def Origin.priority : Origin → Nat
  | .base => 0
  | .workspace => 1
  | .staged => 2

/-- The arguments with which git is asked for the diff of an origin, if there is something to
compare the file with. -/
def Origin.arguments? (base : Option String) (fileName : String) : Origin → Option (List String)
  | .base => base.map fun b => ["diff", b ++ "...", "--no-color", "-U3", "--", fileName]
  | .workspace => some ["diff", "--no-color", "-U3", "--", fileName]
  | .staged => some ["diff", "--cached", "--no-color", "-U3", "--", fileName]

/-- The diff of an origin: what git answers, or the empty text if it fails or is not asked. -/
def diffText (w : Git.Worktree) (base : Option String) (file : Path) (o : Origin) : List Char :=
  match o.arguments? base (w.fileName file) with
  | some arguments => (w.client arguments).written
  | none => []

theorem diffs_eq_map_diffText (w : Git.Worktree) (file : Path) (base : Option String) :
    w.diffs file base = Origin.all.map (diffText w base file) := by
  have hdiff : ∀ range, w.diff file range =
      (w.client ("diff" :: (range ++ ["--no-color", "-U3", "--", w.fileName file]))).written :=
    fun range => w.outputOrEmpty_eq_written "diff" _
  have hbase : w.baseDiff file base = diffText w base file .base := by
    cases base with
    | none => rfl
    | some b => exact hdiff [b ++ "..."]
  rw [Git.Worktree.diffs, hbase, hdiff, hdiff]
  rfl

/-! ## The origin of a snippet -/

/-- An origin stands in the list at the place of its priority. -/
theorem Origin.getElem?_all_eq_some_iff {i : Nat} {o : Origin} :
    Origin.all[i]? = some o ↔ i = o.priority := by
  constructor
  · intro h
    obtain ⟨hlt, -⟩ := List.getElem?_eq_some_iff.mp h
    have hplaces : ∀ j < Origin.all.length, ∀ o', Origin.all[j]? = some o' → j = o'.priority := by
      decide
    exact hplaces i hlt o h
  · rintro rfl
    cases o <;> rfl

theorem Origin.mem_all (o : Origin) : o ∈ Origin.all :=
  List.mem_of_getElem? (Origin.getElem?_all_eq_some_iff.mpr rfl)

/-- What was picked, under the origin at its index. -/
def labelled? : Except Diff.TargetError (Option Diff.Pick) → Option View
  | .ok (some p) => (Origin.all[p.index]?).map fun origin => ⟨origin, p.snippet⟩
  | _ => none

theorem labelled?_eq_some_iff {found : Except Diff.TargetError (Option Diff.Pick)} {o : Origin}
    {s : Snippet} : labelled? found = some ⟨o, s⟩ ↔ found = .ok (some ⟨s, o.priority⟩) := by
  rcases found with e | _ | ⟨snippet, i⟩
  · simp [labelled?]
  · simp [labelled?]
  · simp [labelled?, Origin.getElem?_all_eq_some_iff, and_comm]

theorem viewFor_eq_labelled? (diffs : List (List Char)) (line : Nat) :
    viewFor diffs line = labelled? (Diff.pick diffs line) := rfl

section

variable {line : Nat} (hline : 1 ≤ line) (text : Origin → List Char)

/-- The first text with a snippet is that of the origin that is preferred. -/
theorem isFirst_map_all_iff (o : Origin) (s : Snippet) :
    Diff.IsFirst line (Origin.all.map text) o.priority s ↔
      extract (text o) line = .ok (some s) ∧
        ∀ o' : Origin, o'.priority < o.priority → extract (text o') line = .ok none := by
  have hget : ∀ o : Origin, (Origin.all.map text)[o.priority]? = some (text o) := fun o => by
    rw [List.getElem?_map, Origin.getElem?_all_eq_some_iff.mpr rfl, Option.map_some]
  constructor
  · rintro ⟨⟨diff, hdiff, hs⟩, hbefore⟩
    obtain rfl : text o = diff := Option.some.inj ((hget o).symm.trans hdiff)
    exact ⟨hs, fun o' ho' => hbefore _ ho' _ (hget o')⟩
  · rintro ⟨hs, hbefore⟩
    refine ⟨⟨text o, hget o, hs⟩, fun j hj diff hdiff => ?_⟩
    rw [List.getElem?_map, Option.map_eq_some_iff] at hdiff
    obtain ⟨o', ho', rfl⟩ := hdiff
    exact hbefore o' (Origin.getElem?_all_eq_some_iff.mp ho' ▸ hj)

include hline

/-- A snippet is found under the first origin whose text has one. -/
theorem viewFor_eq_some_iff (o : Origin) (s : Snippet) :
    viewFor (Origin.all.map text) line = some ⟨o, s⟩ ↔
      extract (text o) line = .ok (some s) ∧
        ∀ o' : Origin, o'.priority < o.priority → extract (text o') line = .ok none := by
  rw [viewFor_eq_labelled?, labelled?_eq_some_iff, Diff.pick_eq_some_iff hline, isFirst_map_all_iff]

theorem viewFor_eq_none_iff :
    viewFor (Origin.all.map text) line = none ↔ ∀ o, extract (text o) line = .ok none := by
  have hnone : (∀ o, extract (text o) line = .ok none) ↔
      Diff.pick (Origin.all.map text) line = .ok none := by
    rw [Diff.pick_eq_none_iff hline, List.forall_mem_map]
    exact ⟨fun h o _ => h o, fun h o => h o o.mem_all⟩
  obtain ⟨found, hfound⟩ := Diff.exists_pick_eq_ok hline (Origin.all.map text)
  rw [hnone, viewFor_eq_labelled?, hfound]
  rcases found with _ | ⟨s, i⟩
  · exact iff_of_true rfl rfl
  · -- the index of what was picked is the place of an origin
    obtain ⟨⟨diff, hdiff, -⟩, -⟩ := (Diff.pick_eq_some_iff hline).mp hfound
    rw [List.getElem?_map, Option.map_eq_some_iff] at hdiff
    obtain ⟨o, ho, -⟩ := hdiff
    simp [labelled?, ho]

end

/-! ## Entries -/

/-- A file has a first name among some files if it is one of them. -/
theorem exists_find?_same {files : List Path} {file : Path} (h : file ∈ files) :
    ∃ found, files.find? file.same = some found := by
  have hself : file.same file = true := beq_self_eq_true _
  exact Option.isSome_iff_exists.mp (List.find?_isSome.mpr ⟨file, h, hself⟩)

/-- The name under which a file is compared is a name of the file. -/
theorem same_representative {files : List Path} {file : Path} (h : file ∈ files) :
    representative files file ∈ files ∧ file.same (representative files file) = true := by
  obtain ⟨found, hfound⟩ := exists_find?_same h
  rw [representative, hfound, Option.getD_some]
  exact ⟨List.mem_of_find?_eq_some hfound, List.find?_some hfound⟩

theorem getElem?_build (c : Context) (ds : List Diagnostic) (i : Nat) :
    (build c ds)[i]? =
      ds[i]?.map fun d => c.entry (representative (ds.map Diagnostic.file) d.file) i d := by
  rw [build, List.getElem?_mapIdx]

theorem view_entry {c : Context} {l : Lookups} (hl : c.lookups = some l) (file : Path) (rank : Nat)
    (d : Diagnostic) :
    (c.entry file rank d).view =
      viewFor (Origin.all.map (diffText c.worktree l.base file)) d.line := by
  have hview : (c.entry file rank d).view = c.viewOf file d.line := by simp only [Context.entry]
  rw [hview, Context.viewOf, hl, Option.bind_some, diffs_eq_map_diffText]

/-- **A snippet is labelled with the origin of the diff that it was found in**, whatever git
answers: an entry of a report has a snippet from an origin if and only if the diff of this origin
has it and no diff of an origin that is preferred has any, and has no snippet if and only if no diff
has one. Files with the same path are compared under the name that comes first. -/
theorem view_labelled_by_origin {c : Context} {l : Lookups} (hl : c.lookups = some l)
    {ds : List Diagnostic} {i : Nat} {d : Diagnostic} (hd : ds[i]? = some d) (hline : 1 ≤ d.line) :
    ∃ file e, file = representative (ds.map Diagnostic.file) d.file ∧
      file ∈ ds.map Diagnostic.file ∧ d.file.same file = true ∧
      (build c ds)[i]? = some e ∧ e.diagnostic = d ∧
      (∀ o s, e.view = some ⟨o, s⟩ ↔
        extract (diffText c.worktree l.base file o) d.line = .ok (some s) ∧
          ∀ o' : Origin, o'.priority < o.priority →
            extract (diffText c.worktree l.base file o') d.line = .ok none) ∧
      (e.view = none ↔ ∀ o, extract (diffText c.worktree l.base file o) d.line = .ok none) := by
  have hfile : d.file ∈ ds.map Diagnostic.file := List.mem_map_of_mem (List.mem_of_getElem? hd)
  obtain ⟨hmem, hsame⟩ := same_representative hfile
  have he : (build c ds)[i]? =
      some (c.entry (representative (ds.map Diagnostic.file) d.file) i d) := by
    rw [getElem?_build, hd, Option.map_some]
  refine ⟨_, _, rfl, hmem, hsame, he, diagnostic_entry .., fun o s => ?_, ?_⟩
  · rw [view_entry hl]
    exact viewFor_eq_some_iff hline _ o s
  · rw [view_entry hl]
    exact viewFor_eq_none_iff hline _

/-! ## A diff behind a failure and a blank one -/

/-- A work tree in which nothing can be compared with the base, the index has all changes, and one
of them is not in the last commit. -/
def stagedWorktree : Git.Worktree where
  root := ⟨"/"⟩
  client
    | ["diff", "--no-color", "-U3", "--", "a"] => .exited 0 [' ', '\n'] []
    | ["diff", "--cached", "--no-color", "-U3", "--", "a"] =>
      .exited 0 "@@ -1 +1,2 @@\n x\n+y\n".toList []
    | _ => .exited 128 [] "fatal: bad revision".toList

/-- A report that is compared with a base. -/
def stagedContext : Context where
  disk := ⟨[], []⟩
  worktree := stagedWorktree
  tabs := .standard
  lookups := some { base := some "main" }

/-- A problem in the line that was added. -/
def stagedDiagnostic : Diagnostic where
  tool := .tsc
  message := ""
  severity := .error
  location := { file := ⟨"/a"⟩, line := 2, column := 1 }

/-- The hunk, with a pointer at that line. -/
def stagedSnippet : Snippet where
  header := "@@ -1 +1,2 @@".toList
  lines := [⟨[' ', 'x'], some .context, some 1, ['x']⟩, ⟨['+', 'y'], some .added, some 2, ['y']⟩]
  pointer := some 1

theorem stagedDiagnostic_view :
    stagedContext.lookups = some { base := some "main" } ∧
    [stagedDiagnostic][0]? = some stagedDiagnostic ∧ 1 ≤ stagedDiagnostic.line ∧
    ∃ e, (build stagedContext [stagedDiagnostic])[0]? = some e ∧
      e.view = some ⟨.staged, stagedSnippet⟩ := by
  have hlookups : stagedContext.lookups = some { base := some "main" } := rfl
  have hd : [stagedDiagnostic][0]? = some stagedDiagnostic := rfl
  have hline : 1 ≤ stagedDiagnostic.line := by decide
  obtain ⟨file, e, rfl, -, -, he, -, hview, -⟩ := view_labelled_by_origin hlookups hd hline
  refine ⟨hlookups, hd, hline, e, he, (hview .staged stagedSnippet).mpr ⟨by decide, ?_⟩⟩
  rintro (_ | _ | _) ho
  · decide
  · decide
  · exact absurd ho (lt_irrefl _)

end Report

end RootCause
