import Mathlib.Order.WellFoundedSet
import RootCause.Proofs.Order.Cycles
import RootCause.Proofs.Scope.Asking

/-!
# Searches as plain recursion

A search keeps the requests that it has expanded, so that it ends where files ask each other in
circles. Without such circles plain recursion ends too (`wellFounded_asks`, `plainExport`), and a
search finds just what it finds (`exportOf_eq_plainExport`), though the search gives nothing for a
request that is made for the second time: had the request found a symbol, the search would have
ended with it, and a request that is being expanded is not made again without a circle
(`Runs.value_eq`).
-/

namespace RootCause.Scope

/-- What a plan comes to where `answer` says what requests come to. -/
def Plan.value (answer : Request → Option Symbol) (plan : Plan) : Option Symbol :=
  (plan.asked.findSome? answer).or plan.otherwise

theorem Plan.value_congr {answer answer' : Request → Option Symbol} {plan : Plan}
    (h : ∀ r ∈ plan.asked, answer r = answer' r) : plan.value answer = plan.value answer' := by
  obtain ⟨asked, otherwise⟩ := plan
  simp only [Plan.value]
  induction asked with
  | nil => rfl
  | cons r rs ih =>
    obtain ⟨hr, hrs⟩ := List.forall_mem_cons.mp h
    rw [List.findSome?_cons, List.findSome?_cons, hr]
    cases answer' r with
    | none => exact ih hrs
    | some found => rfl

/-! ## The modules that a file asks -/

/-- The module that an export asks. -/
def Export.specifier? : Export → Option String
  | .named _ (.foreign specifier _) => some specifier
  | .star specifier => some specifier
  | _ => none

/-- The module that a declaration asks. -/
def Declaration.specifier? (d : Declaration) : Option String :=
  match d.origin with
  | .imported specifier _ => some specifier
  | .here => none

/-- The modules that a file asks, whatever it is asked for. -/
def SourceFile.askedSpecifiers (f : SourceFile) : List String :=
  f.facts.exports.filterMap Export.specifier? ++
    f.facts.declarations.filterMap Declaration.specifier?

namespace Project

open Relation (ReflTransGen TransGen)

/-- What a file exports under a name, where `answer` says what the requests come to that it asks
for. No request is kept in mind. -/
def recurse (p : Project) (answer : Request → Option Symbol) (r : Request) : Option Symbol :=
  match p.fileAt? r.file with
  | none => none
  | some f => (p.expand (fun s seen => (answer s, seen)) f r.name []).1

variable {p : Project} {f : PlacedFile} {answer answer' : Request → Option Symbol}
  {plan : Plan} {r s : Request} {seen : List Request} {result : Option Symbol × List Request}

/-! ## One step of the recursion -/

theorem run_eq_value :
    plan.run (fun s seen => (answer s, seen)) seen = (plan.value answer, seen) := by
  obtain ⟨asked, otherwise⟩ := plan
  simp only [Plan.run, Plan.value]
  induction asked with
  | nil => rfl
  | cons r rs ih =>
    rw [Plan.firstAnswer, List.findSome?_cons]
    cases answer r with
    | none => exact ih
    | some found => rfl

theorem recurse_of_fileAt? (hf : p.fileAt? r.file = some f) :
    p.recurse answer r = (p.exportPlan f r.name).value answer := by
  simp only [recurse, hf, expand_eq_run, run_eq_value]

/-- A step of the recursion uses nothing but the requests that are asked for. -/
theorem recurse_congr (h : ∀ s, p.Asks r s → answer s = answer' s) :
    p.recurse answer r = p.recurse answer' r := by
  cases hf : p.fileAt? r.file with
  | none => simp only [recurse, hf]
  | some f =>
    rw [recurse_of_fileAt? hf, recurse_of_fileAt? hf]
    exact Plan.value_congr fun s hs => h s ((mem_asked_exportPlan_iff hf).mp hs)

/-! ## Projects without circles -/

theorem Asks.exists_link (h : p.Asks r s) : ∃ f specifier, p.fileAt? r.file = some f ∧
    specifier ∈ f.askedSpecifiers ∧ p.link? f specifier = some s.file := by
  rcases h with (⟨f, specifier, _, _, _, hf, hfirst, -, hlink⟩ |
    ⟨f, specifier, _, hf, -, -, hmem, hlink⟩) |
    ⟨f, _, d, specifier, _, _, _, hf, -, hd, horigin, -, hlink⟩
  · exact ⟨f, specifier, hf,
      List.mem_append_left _ (List.mem_filterMap.mpr ⟨_, hfirst.mem, rfl⟩), hlink⟩
  · exact ⟨f, specifier, hf, List.mem_append_left _ (List.mem_filterMap.mpr ⟨_, hmem, rfl⟩), hlink⟩
  · have hmem : d ∈ f.facts.declarations := (SourceFile.declaration?_eq_some hd).1
    have hspecifier : d.specifier? = some specifier := by rw [Declaration.specifier?, horigin]
    exact ⟨f, specifier, hf,
      List.mem_append_right _ (List.mem_filterMap.mpr ⟨d, hmem, hspecifier⟩), hlink⟩

theorem Asks.mem_requests {queried : List String} (h : p.Asks r s) (hr : r ∈ p.requests queried) :
    s ∈ p.requests queried := by
  obtain ⟨f, -, hf, -⟩ := h.exists_link
  exact mem_requests_of_mem_exportPlan (fileAt?_eq_some hf).1 (Project.mem_requests.mp hr).2
    ((mem_asked_exportPlan_iff hf).mpr h)

/-- Where no request asks for itself, asking comes to an end: it stays among finitely many
requests. -/
theorem wellFounded_asks (h : Order.Acyclic p.Asks) : WellFounded fun s r => p.Asks r s := by
  have hstrict : IsStrictOrder Request fun s r => TransGen p.Asks r s :=
    { irrefl := h, trans := fun _ _ _ hab hbc => hbc.trans hab }
  have hfinite (queried : List String) : WellFounded fun s r =>
      TransGen p.Asks r s ∧ s ∈ p.requests queried ∧ r ∈ p.requests queried :=
    Set.wellFoundedOn_iff.mp (p.requests queried).finite_toSet.wellFoundedOn
  have hacc (queried : List String) (r : Request) (hr : r ∈ p.requests queried) :
      Acc (fun s r => p.Asks r s) r := by
    induction r using (hfinite queried).induction with
    | _ r ih =>
      refine ⟨_, fun s hs => ?_⟩
      have hmem : s ∈ p.requests queried := hs.mem_requests hr
      exact ih s ⟨.single hs, hmem, hr⟩ hmem
  refine ⟨fun r => ⟨_, fun s hs => ?_⟩⟩
  obtain ⟨f, -, hf, -⟩ := hs.exists_link
  have hr : r ∈ p.requests [r.name] :=
    mem_requests.mpr ⟨lt_length_of_fileAt? hf, List.mem_append_left _ (by simp)⟩
  exact hacc [r.name] s (hs.mem_requests hr)

open Classical in
/-- What a file exports under a name, by plain recursion. -/
noncomputable def plainExport (p : Project) (h : Order.Acyclic p.Asks) :
    Request → Option Symbol :=
  (wellFounded_asks h).fix fun r answer =>
    p.recurse (fun s => if hs : p.Asks r s then answer s hs else none) r

theorem plainExport_eq (h : Order.Acyclic p.Asks) (r : Request) :
    p.plainExport h r = p.recurse (p.plainExport h) r := by
  rw [plainExport, WellFounded.fix_eq]
  exact recurse_congr fun s hs => dif_pos hs

/-- The recursion has no other solution. -/
theorem eq_plainExport (h : Order.Acyclic p.Asks) (hanswer : ∀ r, answer r = p.recurse answer r) :
    answer = p.plainExport h := by
  funext r
  induction r using (wellFounded_asks h).induction with
  | _ r ih => rw [hanswer, plainExport_eq, recurse_congr ih]

/-- Files of which each asks only those of a smaller rank do not ask in a circle. -/
theorem acyclic_of_rank (rank : Nat → Nat)
    (h : ∀ place < p.files.length, ∀ f ∈ p.fileAt? place, ∀ specifier ∈ f.askedSpecifiers,
      ∀ target ∈ p.link? f specifier, rank target < rank place) : Order.Acyclic p.Asks := by
  refine .of_lt (fun r => OrderDual.toDual (rank r.file)) fun r s hasks => ?_
  obtain ⟨f, specifier, hf, hspecifier, hlink⟩ := hasks.exists_link
  exact OrderDual.toDual_lt_toDual.mpr
    (h r.file (lt_length_of_fileAt? hf) f hf specifier hspecifier s.file hlink)

/-! ## Searches without circles -/

/-- What has been expanded finds nothing if the request leads to it again. -/
def IsSpent (p : Project) (answer : Request → Option Symbol) (seen : List Request)
    (r : Request) : Prop :=
  ∀ s ∈ seen, ReflTransGen p.Asks r s → answer s = none

/-- What a request asks for does not lead back to it. -/
theorem IsSpent.of_asks (hacyclic : Order.Acyclic p.Asks) (h : p.IsSpent answer seen r)
    (hasks : p.Asks r s) : p.IsSpent answer (r :: seen) s := by
  intro q hq hreach
  rcases List.mem_cons.mp hq with rfl | hq
  · exact absurd (TransGen.head' hasks hreach) (hacyclic q)
  · exact h q hq (.head hasks hreach)

/-- A run comes to what plain recursion comes to, and if this is nothing, nor does anything that was
expanded on the way find a symbol. -/
theorem Runs.value_eq (hacyclic : Order.Acyclic p.Asks)
    (hanswer : ∀ r, answer r = p.recurse answer r) (h : p.Runs plan seen result)
    (hspent : ∀ r ∈ plan.asked, p.IsSpent answer seen r) :
    result.1 = plan.value answer ∧
      (result.1 = none → ∀ s ∈ result.2, s ∉ seen → answer s = none) := by
  have hexpansion {r : Request} {f : PlacedFile} {seen : List Request}
      (hf : p.fileAt? r.file = some f) (hr : p.IsSpent answer seen r) :
      ∀ s ∈ (p.exportPlan f r.name).asked, p.IsSpent answer (r :: seen) s :=
    fun s hs => hr.of_asks hacyclic ((mem_asked_exportPlan_iff hf).mp hs)
  have hstep {r : Request} {f : PlacedFile} (hf : p.fileAt? r.file = some f) :
      answer r = (p.exportPlan f r.name).value answer := by
    rw [hanswer, recurse_of_fileAt? hf]
  induction h with
  | done => exact ⟨rfl, fun _ s hs hnot => absurd hs hnot⟩
  | again old _ ih =>
    obtain ⟨hr, hrs⟩ := List.forall_mem_cons.mp hspent
    obtain ⟨hvalue, hnone⟩ := ih hrs
    refine ⟨?_, hnone⟩
    rw [hvalue, Plan.value, Plan.value, List.findSome?_cons, hr _ old .refl]
  | found _ file _ ih =>
    obtain ⟨hvalue, -⟩ := ih (hexpansion file (List.forall_mem_cons.mp hspent).1)
    refine ⟨?_, fun h => by cases h⟩
    rw [Plan.value, List.findSome?_cons, hstep file, ← hvalue]
    rfl
  | @failed r rs _ seen between f _ _ file _ _ ih ihrest =>
    obtain ⟨hr, hrs⟩ := List.forall_mem_cons.mp hspent
    obtain ⟨hvalue, hnone⟩ := ih (hexpansion file hr)
    have hfailed : answer r = none := (hstep file).trans hvalue.symm
    have hbetween : ∀ s ∈ between, s ∉ seen → answer s = none := by
      intro s hs hnot
      by_cases heq : s = r
      · exact heq ▸ hfailed
      · exact hnone rfl s hs (by simp [heq, hnot])
    have hspent' : ∀ q ∈ rs, p.IsSpent answer between q := by
      intro q hq s hs hreach
      by_cases hmem : s ∈ seen
      · exact hrs q hq s hmem hreach
      · exact hbetween s hs hmem
    obtain ⟨hrest, hrestNone⟩ := ihrest hspent'
    refine ⟨?_, fun h s hs hnot => ?_⟩
    · rw [hrest, Plan.value, Plan.value, List.findSome?_cons, hfailed]
    · by_cases hmem : s ∈ between
      · exact hbetween s hmem hnot
      · exact hrestNone h s hs hmem

/-- **Without circles a search is plain recursion.** -/
theorem exportOf_eq_plainExport (h : Order.Acyclic p.Asks) :
    (∀ r, (p.exportOf r []).1 = p.plainExport h r) ∧
    ∀ answer : Request → Option Symbol,
      (∀ r, answer r = p.recurse answer r) ↔ answer = p.plainExport h := by
  refine ⟨fun r => ?_, fun answer => ⟨eq_plainExport h, ?_⟩⟩
  · cases hf : p.fileAt? r.file with
    | none =>
      rw [plainExport_eq h, recurse, hf]
      simp [exportOf, searchDepth, search, hf]
    | some f =>
      have hruns : p.Runs (.ofRequest r) [] (p.exportOf r []) :=
        runs_exportOf (lt_length_of_fileAt? hf)
      rw [(hruns.value_eq h (plainExport_eq h) (by simp [IsSpent])).1]
      simp [Plan.value, Plan.ofRequest]
  · rintro rfl
    exact plainExport_eq h

/-- Two files export all names of a fourth one, and a first one all of theirs. -/
def exportDiamond : Project := .ofSources Source.parse .standard [
  (⟨"/p/top.ts"⟩, "export * from './left'; export * from './right'".toList),
  (⟨"/p/left.ts"⟩, "export * from './extra'; export * from './base'".toList),
  (⟨"/p/right.ts"⟩, "export * from './base'".toList),
  (⟨"/p/base.ts"⟩, "export let x".toList),
  (⟨"/p/extra.ts"⟩, "export let y".toList)]

theorem exportDiamond_acyclic : Order.Acyclic exportDiamond.Asks := by
  refine acyclic_of_rank (fun place => if place = 0 then 2 else if place < 3 then 1 else 0) ?_
  decide +kernel

theorem exportOf_exportDiamond : Order.Acyclic exportDiamond.Asks ∧
    (exportDiamond.exportOf ⟨0, "y"⟩ []).1 =
      exportDiamond.plainExport exportDiamond_acyclic ⟨0, "y"⟩ :=
  ⟨exportDiamond_acyclic, (exportOf_eq_plainExport exportDiamond_acyclic).1 _⟩

/-- The fourth file is asked from both sides, and expands the request only the first time. -/
example : exportDiamond.exportOf ⟨0, "y"⟩ [] =
    (some (.binding 4 ⟨0, 12, .program⟩ "y"),
      [⟨4, "y"⟩, ⟨1, "y"⟩, ⟨3, "y"⟩, ⟨2, "y"⟩, ⟨0, "y"⟩]) := by
  decide +kernel

end Project

end RootCause.Scope
