import RootCause.Proofs.Scope.ExportSearch

/-!
# Runs of a search

A search limits its depth, which the rules that it follows do not: to answer a question is to make
some requests, one after the other, until one of them finds a symbol (`Plan`), and to make a request
that has not been made before is to carry out the plan of the file to which it goes (`Runs`). A run
is finite, and each question has just one: a run has one result (`Runs.unique`), and a search within
its depth carries it out (`runs_exportOf`, `runs_iff`). A request to no file of the project
has no run, unless it has been made before, so a run shows that every file that is asked is there
(`Runs.exists_fileAt?`).

A run expands no request twice (`Runs.nodup`) and stays among the requests of the project
(`Runs.mem_requests`).
-/

namespace RootCause.Scope

/-! ## Plans -/

/-- How a question is answered: by the first of some requests that finds a symbol, and otherwise as
it is known beforehand. -/
structure Plan where
  asked : List Request
  otherwise : Option Symbol

namespace Plan

/-- To make one request. -/
def ofRequest (r : Request) : Plan := ⟨[r], none⟩

/-- The plan with another answer if there is none. -/
def orElse (plan : Plan) (symbol : Symbol) : Plan :=
  ⟨plan.asked, plan.otherwise.orElse fun _ => some symbol⟩

/-- The first answer to some requests. -/
def firstAnswer (ask : Request → Search (Option Symbol)) (otherwise : Option Symbol) :
    List Request → Search (Option Symbol)
  | [], seen => (otherwise, seen)
  | r :: rs, seen =>
    match ask r seen with
    | (some found, seen) => (some found, seen)
    | (none, seen) => firstAnswer ask otherwise rs seen

/-- What a plan comes to where `ask` answers requests. -/
def run (ask : Request → Search (Option Symbol)) (plan : Plan) : Search (Option Symbol) :=
  firstAnswer ask plan.otherwise plan.asked

end Plan

namespace Project

variable (p : Project) (f : PlacedFile)

/-- How to find what is imported from a module. -/
def importPlan (specifier : String) (what : Imported) : Plan :=
  match p.link? f specifier with
  | none => ⟨[], none⟩
  | some target =>
    match what with
    | .whole => ⟨[], some (.module target)⟩
    | .default => .ofRequest ⟨target, "default"⟩
    | .named name => .ofRequest ⟨target, name⟩

/-- How to find what a declared name stands for. -/
def followPlan (d : Declaration) : Plan :=
  let itself := Symbol.binding f.place d.scope d.name
  match d.origin with
  | .here => ⟨[], some itself⟩
  | .imported specifier what => (p.importPlan f specifier what).orElse itself

/-- How to find what a file exports under a name. -/
def exportPlan (name : String) : Plan :=
  match f.referent? name with
  | some (.own declared) =>
    match f.declaration? f.rootScope declared with
    | some d => p.followPlan f d
    | none => ⟨[], none⟩
  | some (.foreign specifier what) => p.importPlan f specifier what
  | none =>
    if name = "default" then ⟨[], none⟩
    else ⟨(p.starTargets f).map fun target => ⟨target, name⟩, none⟩

variable {p f} {ask : Request → Search (Option Symbol)} {seen : List Request}

/-! ### The plans are carried out -/

theorem run_ofRequest (r : Request) : (Plan.ofRequest r).run ask seen = ask r seen := by
  rw [Plan.run, Plan.ofRequest, Plan.firstAnswer]
  cases ask r seen with
  | mk found after => cases found <;> rfl

theorem run_orElse (plan : Plan) (symbol : Symbol) :
    (plan.orElse symbol).run ask seen =
      (some ((plan.run ask seen).1.getD symbol), (plan.run ask seen).2) := by
  obtain ⟨asked, otherwise⟩ := plan
  simp only [Plan.run, Plan.orElse]
  induction asked generalizing seen with
  | nil => cases otherwise <;> rfl
  | cons r rs ih =>
    simp only [Plan.firstAnswer]
    cases ask r seen with
    | mk found after =>
      cases found with
      | some found => rfl
      | none => exact ih

theorem importOf_eq_run {specifier : String} {what : Imported} :
    p.importOf ask f specifier what seen = (p.importPlan f specifier what).run ask seen := by
  rw [importOf, importPlan]
  cases p.link? f specifier with
  | none => rfl
  | some target =>
    cases what with
    | whole => rfl
    | named _ | default => exact (run_ofRequest _).symm

theorem follow_eq_run {d : Declaration} :
    (some (p.follow ask f d seen).1, (p.follow ask f d seen).2) =
      (p.followPlan f d).run ask seen := by
  cases horigin : d.origin with
  | here => simp [follow, followPlan, horigin, Plan.run, Plan.firstAnswer]
  | imported specifier what =>
    simp only [follow, followPlan, horigin, run_orElse, ← importOf_eq_run]
    cases p.importOf ask f specifier what seen with
    | mk found after => cases found <;> rfl

theorem askAll_eq_firstAnswer {name : String} {targets : List Nat} :
    askAll ask name targets seen =
      Plan.firstAnswer ask none (targets.map fun target => ⟨target, name⟩) seen := by
  induction targets generalizing seen with
  | nil => rfl
  | cons target targets ih =>
    simp only [askAll, List.map_cons, Plan.firstAnswer]
    cases ask ⟨target, name⟩ seen with
    | mk found after =>
      cases found with
      | some found => rfl
      | none => exact ih

theorem expand_eq_run {name : String} :
    p.expand ask f name seen = (p.exportPlan f name).run ask seen := by
  rw [expand, exportPlan]
  cases f.referent? name with
  | none =>
    by_cases hdefault : name = "default"
    · simp [hdefault, Plan.run, Plan.firstAnswer]
    · simp only [hdefault, if_false, askAll_eq_firstAnswer, Plan.run]
  | some referent =>
    cases referent with
    | foreign specifier what => exact importOf_eq_run
    | own declared =>
      dsimp only
      cases f.declaration? f.rootScope declared with
      | none => rfl
      | some d => exact follow_eq_run

/-! ## Runs -/

/-- Carried out when the requests `seen` have been expanded, a plan comes to an answer and to the
requests that have been expanded then. -/
inductive Runs (p : Project) : Plan → List Request → Option Symbol × List Request → Prop
  /-- There is nothing left to ask. -/
  | done {otherwise : Option Symbol} {seen : List Request} :
    Runs p ⟨[], otherwise⟩ seen (otherwise, seen)
  /-- A request that has been expanded before finds nothing. -/
  | again {r : Request} {rs : List Request} {otherwise : Option Symbol} {seen : List Request}
    {result : Option Symbol × List Request} (old : r ∈ seen)
    (rest : Runs p ⟨rs, otherwise⟩ seen result) : Runs p ⟨r :: rs, otherwise⟩ seen result
  /-- The expansion of a request finds a symbol. -/
  | found {r : Request} {rs : List Request} {otherwise : Option Symbol}
    {seen after : List Request} {f : PlacedFile} {symbol : Symbol} (new : r ∉ seen)
    (file : p.fileAt? r.file = some f)
    (expansion : Runs p (p.exportPlan f r.name) (r :: seen) (some symbol, after)) :
    Runs p ⟨r :: rs, otherwise⟩ seen (some symbol, after)
  /-- The expansion of a request finds nothing, and the next one is made. -/
  | failed {r : Request} {rs : List Request} {otherwise : Option Symbol}
    {seen between : List Request} {f : PlacedFile} {result : Option Symbol × List Request}
    (new : r ∉ seen) (file : p.fileAt? r.file = some f)
    (expansion : Runs p (p.exportPlan f r.name) (r :: seen) (none, between))
    (rest : Runs p ⟨rs, otherwise⟩ between result) : Runs p ⟨r :: rs, otherwise⟩ seen result

variable {plan : Plan} {result result' : Option Symbol × List Request} {r : Request}
  {queried : List String}

namespace Runs

theorem subset (h : p.Runs plan seen result) : seen ⊆ result.2 := by
  induction h with
  | done => exact List.Subset.refl _
  | again _ _ ih => exact ih
  | found _ _ _ ih => exact List.Subset.trans (List.subset_cons_self _ _) ih
  | failed _ _ _ _ ih ihrest =>
    exact List.Subset.trans (List.subset_cons_self _ _) (List.Subset.trans ih ihrest)

/-- A plan has one run at most. -/
theorem unique (h : p.Runs plan seen result) (h' : p.Runs plan seen result') : result = result' := by
  induction h generalizing result' with
  | done =>
    cases h'
    rfl
  | again old _ ih =>
    cases h' with
    | again _ rest => exact ih rest
    | found new _ _ => exact absurd old new
    | failed new _ _ _ => exact absurd old new
  | found new file _ ih =>
    cases h' with
    | again old _ => exact absurd old new
    | found _ file' expansion =>
      obtain rfl := Option.some.inj (file.symm.trans file')
      exact ih expansion
    | failed _ file' expansion _ =>
      obtain rfl := Option.some.inj (file.symm.trans file')
      cases ih expansion
  | failed new file _ _ ih ihrest =>
    cases h' with
    | again old _ => exact absurd old new
    | found _ file' expansion =>
      obtain rfl := Option.some.inj (file.symm.trans file')
      cases ih expansion
    | failed _ file' expansion rest =>
      obtain rfl := Option.some.inj (file.symm.trans file')
      cases ih expansion
      exact ihrest rest

/-- **A run expands no request twice.** -/
theorem nodup (h : p.Runs plan seen result) (hseen : seen.Nodup) : result.2.Nodup := by
  induction h with
  | done => exact hseen
  | again _ _ ih => exact ih hseen
  | found new _ _ ih => exact ih (List.nodup_cons.mpr ⟨new, hseen⟩)
  | failed new _ _ _ ih ihrest => exact ihrest (ih (List.nodup_cons.mpr ⟨new, hseen⟩))

/-- What a run expands goes to files of the project. -/
theorem exists_fileAt? (h : p.Runs plan seen result)
    (hseen : ∀ r ∈ seen, ∃ f, p.fileAt? r.file = some f) :
    ∀ r ∈ result.2, ∃ f, p.fileAt? r.file = some f := by
  induction h with
  | done => exact hseen
  | again _ _ ih => exact ih hseen
  | found _ file _ ih => exact ih (List.forall_mem_cons.mpr ⟨⟨_, file⟩, hseen⟩)
  | failed _ file _ _ ih ihrest =>
    exact ihrest (ih (List.forall_mem_cons.mpr ⟨⟨_, file⟩, hseen⟩))

end Runs

/-! ## What runs ask for -/

theorem mem_asked_importPlan {specifier : String} {what : Imported} :
    r ∈ (p.importPlan f specifier what).asked ↔
      p.link? f specifier = some r.file ∧ what.exported? = some r.name := by
  obtain ⟨file, name⟩ := r
  cases hlink : p.link? f specifier with
  | none => simp [importPlan, hlink]
  | some target =>
    cases what <;> simp [importPlan, hlink, Plan.ofRequest, Imported.exported?, eq_comm]

theorem mem_asked_followPlan {d : Declaration} (h : r ∈ (p.followPlan f d).asked) :
    r.file < p.files.length ∧ d.asked? = some r.name := by
  cases horigin : d.origin with
  | here => simp [followPlan, horigin] at h
  | imported specifier what =>
    simp only [followPlan, horigin, Plan.orElse] at h
    obtain ⟨hlink, hname⟩ := mem_asked_importPlan.mp h
    exact ⟨lt_length_of_link? hlink, by simpa [Declaration.asked?, horigin] using hname⟩

theorem mem_askedNames_of_asked? {d : Declaration} {name : String}
    (hd : d ∈ f.facts.declarations) (h : d.asked? = some name) : name ∈ f.askedNames :=
  List.mem_append_right _ (List.mem_filterMap.mpr ⟨d, hd, h⟩)

theorem mem_names_of_mem_askedNames {name : String} (hf : f.toSourceFile ∈ p.files)
    (h : name ∈ f.askedNames) : name ∈ p.names queried :=
  List.mem_append_right _ (List.mem_flatMap.mpr ⟨_, hf, h⟩)

theorem mem_requests_of_mem_followPlan {d : Declaration} (hf : f.toSourceFile ∈ p.files)
    (hd : d ∈ f.facts.declarations) (h : r ∈ (p.followPlan f d).asked) :
    r ∈ p.requests queried := by
  obtain ⟨hfile, hname⟩ := mem_asked_followPlan h
  exact mem_requests.mpr
    ⟨hfile, mem_names_of_mem_askedNames hf (mem_askedNames_of_asked? hd hname)⟩

/-- A file asks for names that it declares or exports, or for the name for which it is asked. -/
theorem mem_requests_of_mem_exportPlan {name : String} {s : Request}
    (hf : f.toSourceFile ∈ p.files) (hname : name ∈ p.names queried)
    (h : s ∈ (p.exportPlan f name).asked) : s ∈ p.requests queried := by
  unfold exportPlan at h
  split at h
  next declared _ =>
    split at h
    next d hd => exact mem_requests_of_mem_followPlan hf (SourceFile.declaration?_eq_some hd).1 h
    next => cases h
  next specifier what hreferent =>
    obtain ⟨hlink, hwhat⟩ := mem_asked_importPlan.mp h
    have hfirst := SourceFile.referent?_eq_some_iff.mp hreferent
    refine mem_requests.mpr ⟨lt_length_of_link? hlink, mem_names_of_mem_askedNames hf ?_⟩
    exact List.mem_append_left _ (List.mem_filterMap.mpr ⟨_, hfirst.mem, hwhat⟩)
  next =>
    split at h
    next => cases h
    next =>
      obtain ⟨target, htarget, rfl⟩ := List.mem_map.mp h
      obtain ⟨_, _, hlink⟩ := mem_starTargets.mp htarget
      exact mem_requests.mpr ⟨lt_length_of_link? hlink, hname⟩

/-- **A run stays among the requests of the project.** -/
theorem Runs.mem_requests (h : p.Runs plan seen result)
    (hplan : ∀ r ∈ plan.asked, r ∈ p.requests queried)
    (hseen : ∀ r ∈ seen, r ∈ p.requests queried) : ∀ r ∈ result.2, r ∈ p.requests queried := by
  have hexpansion {r : Request} {f : PlacedFile} (hr : r ∈ p.requests queried)
      (hf : p.fileAt? r.file = some f) : ∀ s ∈ (p.exportPlan f r.name).asked, s ∈ p.requests queried :=
    fun s hs => mem_requests_of_mem_exportPlan (fileAt?_eq_some hf).1 (Project.mem_requests.mp hr).2 hs
  induction h with
  | done => exact hseen
  | again _ _ ih => exact ih (List.forall_mem_cons.mp hplan).2 hseen
  | found _ file _ ih =>
    obtain ⟨hr, -⟩ := List.forall_mem_cons.mp hplan
    exact ih (hexpansion hr file) (List.forall_mem_cons.mpr ⟨hr, hseen⟩)
  | failed _ file _ _ ih ihrest =>
    obtain ⟨hr, hrest⟩ := List.forall_mem_cons.mp hplan
    exact ihrest hrest (ih (hexpansion hr file) (List.forall_mem_cons.mpr ⟨hr, hseen⟩))

/-! ## Every question has a run -/

/-- A plan has a run where all its requests have one. -/
theorem runs_run (hask : ∀ r ∈ plan.asked, ∀ seen', seen ⊆ seen' →
      p.Runs (.ofRequest r) seen' (ask r seen')) : p.Runs plan seen (plan.run ask seen) := by
  obtain ⟨asked, otherwise⟩ := plan
  rw [Plan.run]
  induction asked generalizing seen with
  | nil => exact .done
  | cons r rs ih =>
    obtain ⟨hfirst, hrest⟩ := List.forall_mem_cons.mp hask
    have hr := hfirst seen (List.Subset.refl _)
    have hothers : p.Runs ⟨rs, otherwise⟩ (ask r seen).2
        (Plan.firstAnswer ask otherwise rs (ask r seen).2) :=
      ih fun s hs seen' hsub => hrest s hs seen' (List.Subset.trans hr.subset hsub)
    rw [Plan.firstAnswer]
    cases hanswer : ask r seen with
    | mk found after =>
      rw [hanswer] at hr hothers
      cases hr with
      | again old rest =>
        cases rest
        exact .again old hothers
      | found new file expansion => exact .found new file expansion
      | failed new file expansion rest =>
        cases rest
        exact .failed new file expansion hothers

theorem runs_search (queried : List String) {depth : Nat} (hr : r ∈ p.requests queried)
    (hdepth : unseen (p.requests queried) seen < depth) :
    p.Runs (.ofRequest r) seen (p.search depth r seen) := by
  induction depth generalizing r seen with
  | zero => exact absurd hdepth (Nat.not_lt_zero _)
  | succ depth ih =>
    rw [search]
    split
    next old => exact .again old .done
    next new =>
      obtain ⟨f, hf⟩ := exists_fileAt? (mem_requests.mp hr).1
      simp only [hf, expand_eq_run]
      -- what the expansion asks for is asked with one request less to expand
      have hless := unseen_cons_lt hr new
      have hexpansion : p.Runs (p.exportPlan f r.name) (r :: seen)
          ((p.exportPlan f r.name).run (p.search depth) (r :: seen)) := by
        refine runs_run fun s hs seen' hsub => ih ?_ ?_
        · exact mem_requests_of_mem_exportPlan (fileAt?_eq_some hf).1 (mem_requests.mp hr).2 hs
        · have hle : unseen (p.requests queried) seen' ≤ unseen (p.requests queried) (r :: seen) :=
            unseen_le_of_subset hsub
          omega
      cases hresult : (p.exportPlan f r.name).run (p.search depth) (r :: seen) with
      | mk found after =>
        rw [hresult] at hexpansion
        cases found with
        | some found => exact .found new hf hexpansion
        | none => exact .failed new hf hexpansion .done

theorem runs_exportOf (hfile : r.file < p.files.length) :
    p.Runs (.ofRequest r) seen (p.exportOf r seen) := by
  refine runs_search [r.name] (mem_requests.mpr ⟨hfile, by simp [names]⟩) ?_
  exact (Finset.card_le_card Finset.sdiff_subset).trans_lt (card_requests_lt_searchDepth (by simp))

/-- **A plan that asks files of the project has one run**, which searches carry out. -/
theorem runs_iff (hfiles : ∀ r ∈ plan.asked, r.file < p.files.length) :
    p.Runs plan seen result ↔ result = plan.run p.exportOf seen := by
  have hrun : p.Runs plan seen (plan.run p.exportOf seen) :=
    runs_run fun r hr _ _ => runs_exportOf (hfiles r hr)
  constructor
  · exact fun h => h.unique hrun
  · rintro rfl
    exact hrun

end Project

end RootCause.Scope
