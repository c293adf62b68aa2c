import RootCause.Proofs.Scope.Asking
import RootCause.Proofs.Scope.Positions

/-!
# Routes of a search

A search that finds a symbol finds it along a route: one request asks for the next one, the last one
has the symbol in reserve, and all else that is expanded finds nothing (`Project.FindsAlong`). For a
symbol that is found there is just one route (`FindsAlong.unique`).

To resolve a member, a search goes on with what earlier steps have expanded. Requests that led
nowhere then make no difference, whether they are expanded again or not (`FindsAlong.of_exhausts`),
but a request on the route that has been expanded blocks it (`FindsAlong.notMem`). So a member of a
module stands for what the module exports if the route to that is new
(`member_takes_route_iff`), which it is not always: where modules export each other as a whole, a
third member may ask what the first one has asked (`mutualNamespaces`).
-/

namespace RootCause.Scope.Project

/-- A plan finds a symbol along a route: the expansion of each request of the route asks for the
next one, and that of the last one has the symbol in reserve. All else that is expanded finds
nothing. -/
inductive FindsAlong (p : Project) (symbol : Symbol) :
    Plan → List Request → List Request → Prop
  /-- There is nothing left to ask, and the symbol is in reserve. -/
  | reserve {seen : List Request} : FindsAlong p symbol ⟨[], some symbol⟩ seen []
  /-- A request that has been expanded before finds nothing. -/
  | again {r : Request} {rs : List Request} {otherwise : Option Symbol}
    {seen route : List Request} (old : r ∈ seen)
    (rest : FindsAlong p symbol ⟨rs, otherwise⟩ seen route) :
    FindsAlong p symbol ⟨r :: rs, otherwise⟩ seen route
  /-- The expansion of a request finds the symbol. -/
  | found {r : Request} {rs : List Request} {otherwise : Option Symbol}
    {seen route : List Request} {f : PlacedFile} (new : r ∉ seen)
    (file : p.fileAt? r.file = some f)
    (expansion : FindsAlong p symbol (p.exportPlan f r.name) (r :: seen) route) :
    FindsAlong p symbol ⟨r :: rs, otherwise⟩ seen (r :: route)
  /-- The expansion of a request finds nothing, and the next one is made. -/
  | failed {r : Request} {rs : List Request} {otherwise : Option Symbol}
    {seen between route : List Request} {f : PlacedFile} (new : r ∉ seen)
    (file : p.fileAt? r.file = some f)
    (expansion : p.Runs (p.exportPlan f r.name) (r :: seen) (none, between))
    (rest : FindsAlong p symbol ⟨rs, otherwise⟩ between route) :
    FindsAlong p symbol ⟨r :: rs, otherwise⟩ seen route

variable {p : Project} {f : PlacedFile} {symbol symbol' : Symbol} {plan : Plan} {r : Request}
  {rs seen seen' after route route' : List Request} {otherwise : Option Symbol}
  {result : Option Symbol × List Request}

/-- The run of a plan that finds a symbol along a route expands the whole route. -/
theorem FindsAlong.exists_runs (h : p.FindsAlong symbol plan seen route) :
    ∃ after, p.Runs plan seen (some symbol, after) ∧ route ⊆ after := by
  induction h with
  | reserve => exact ⟨_, .done, List.nil_subset _⟩
  | again old _ ih =>
    obtain ⟨after, hruns, hsub⟩ := ih
    exact ⟨after, .again old hruns, hsub⟩
  | found new file _ ih =>
    obtain ⟨after, hruns, hsub⟩ := ih
    exact ⟨after, .found new file hruns,
      List.cons_subset.mpr ⟨hruns.subset List.mem_cons_self, hsub⟩⟩
  | failed new file expansion _ ih =>
    obtain ⟨after, hruns, hsub⟩ := ih
    exact ⟨after, .failed new file expansion hruns, hsub⟩

theorem Runs.exists_findsAlong (h : p.Runs plan seen (some symbol, after)) :
    ∃ route, p.FindsAlong symbol plan seen route := by
  generalize hresult : (some symbol, after) = result at h
  induction h with
  | done =>
    cases hresult
    exact ⟨_, .reserve⟩
  | again old _ ih => exact (ih hresult).imp fun _ rest => .again old rest
  | found new file _ ih =>
    obtain ⟨route, expansion⟩ := ih hresult
    exact ⟨_, .found new file expansion⟩
  | failed new file expansion _ _ ih =>
    exact (ih hresult).imp fun _ rest => .failed new file expansion rest

/-- There is one route at most, whatever symbol it leads to. -/
theorem FindsAlong.unique (h : p.FindsAlong symbol plan seen route)
    (h' : p.FindsAlong symbol' plan seen route') : route = route' := by
  induction h generalizing route' with
  | reserve =>
    cases h'
    rfl
  | again old _ ih =>
    cases h' with
    | again _ rest => exact ih rest
    | found new _ _ => exact absurd old new
    | failed new _ _ _ => exact absurd old new
  | found new file expansion ih =>
    cases h' with
    | again old _ => exact absurd old new
    | found _ file' expansion' =>
      obtain rfl := Option.some.inj (file.symm.trans file')
      rw [ih expansion']
    | failed _ file' expansion' _ =>
      obtain rfl := Option.some.inj (file.symm.trans file')
      obtain ⟨_, hruns, -⟩ := expansion.exists_runs
      cases hruns.unique expansion'
  | failed new file expansion _ ih =>
    cases h' with
    | again old _ => exact absurd old new
    | found _ file' expansion' =>
      obtain rfl := Option.some.inj (file.symm.trans file')
      obtain ⟨_, hruns, -⟩ := expansion'.exists_runs
      cases expansion.unique hruns
    | failed _ file' expansion' rest =>
      obtain rfl := Option.some.inj (file.symm.trans file')
      cases expansion.unique expansion'
      exact ih rest

/-- A route leads through no request that has been expanded before. -/
theorem FindsAlong.notMem (h : p.FindsAlong symbol plan seen route) : ∀ r ∈ route, r ∉ seen := by
  induction h with
  | reserve => simp
  | again _ _ ih => exact ih
  | found new _ _ ih =>
    exact List.forall_mem_cons.mpr ⟨new, fun r hr hmem => ih r hr (List.mem_cons_of_mem _ hmem)⟩
  | failed _ _ expansion _ ih =>
    exact fun r hr hmem => ih r hr (expansion.subset (List.mem_cons_of_mem _ hmem))

/-! ## Requests that lead nowhere -/

theorem Runs.otherwise_eq_none (h : p.Runs plan seen (none, after)) : plan.otherwise = none := by
  generalize hresult : (none, after) = result at h
  induction h with
  | done =>
    cases hresult
    rfl
  | again _ _ ih => exact ih hresult
  | found => cases hresult
  | failed _ _ _ _ _ ih => exact ih hresult

theorem not_isAnswered_of_runs (hf : p.fileAt? r.file = some f)
    (h : p.Runs (p.exportPlan f r.name) seen (none, after)) : ¬ p.IsAnswered r := by
  rw [← isSome_otherwise_exportPlan_iff hf, h.otherwise_eq_none]
  simp

/-- A request whose expansion finds nothing has led nowhere itself. -/
theorem Exhausts.of_expansion (hf : p.fileAt? r.file = some f)
    (expansion : p.Runs (p.exportPlan f r.name) (r :: seen) (none, after))
    (h : p.Exhausts (r :: seen) after) (hasked : ∀ s ∈ (p.exportPlan f r.name).asked, s ∈ after) :
    p.Exhausts seen after :=
  h.of_cons (not_isAnswered_of_runs hf expansion) fun s hs =>
    hasked s ((mem_asked_exportPlan_iff hf).mpr (.forwarded hs))

/-- A run that finds nothing has expanded in vain what it expanded, and all that it asks for has
been expanded. -/
theorem Runs.exhausts (h : p.Runs plan seen (none, after)) :
    p.Exhausts seen after ∧ ∀ r ∈ plan.asked, r ∈ after := by
  generalize hresult : (none, after) = result at h
  induction h generalizing after with
  | done =>
    cases hresult
    exact ⟨.refl p _, by simp⟩
  | again old _ ih =>
    obtain ⟨hexhausts, hmem⟩ := ih hresult
    exact ⟨hexhausts, List.forall_mem_cons.mpr ⟨hexhausts.subset old, hmem⟩⟩
  | found => cases hresult
  | failed _ file expansion _ ih ihrest =>
    obtain ⟨hexpansion, hasked⟩ := ih rfl
    obtain ⟨hrest, hmem⟩ := ihrest hresult
    refine ⟨(Exhausts.of_expansion file expansion hexpansion hasked).trans hrest,
      List.forall_mem_cons.mpr ⟨?_, hmem⟩⟩
    exact hrest.subset (hexpansion.subset List.mem_cons_self)

theorem Exhausts.of_subset {closed : List Request} (h : p.Exhausts seen closed)
    (hsub : seen ⊆ seen') (hclosed : seen' ⊆ closed) : p.Exhausts seen' closed where
  subset := hclosed
  unanswered r hr hnot := h.unanswered r hr fun hmem => hnot (hsub hmem)
  closed r hr hnot := h.closed r hr fun hmem => hnot (hsub hmem)

theorem Exhausts.cons {closed : List Request} (h : p.Exhausts seen closed) (r : Request) :
    p.Exhausts (r :: seen) (r :: closed) where
  subset := List.cons_subset_cons r h.subset
  unanswered s hs hnot := by
    obtain ⟨hne, hseen⟩ := not_or.mp (mt List.mem_cons.mpr hnot)
    exact h.unanswered s (List.mem_of_ne_of_mem hne hs) hseen
  closed s hs hnot t ht := by
    obtain ⟨hne, hseen⟩ := not_or.mp (mt List.mem_cons.mpr hnot)
    exact List.mem_cons_of_mem _ (h.closed s (List.mem_of_ne_of_mem hne hs) hseen t ht)

theorem Exhausts.append {between : List Request} (h : p.Exhausts seen between)
    (hsub : seen ⊆ seen') : p.Exhausts seen' (between ++ seen') where
  subset := List.subset_append_right _ _
  unanswered s hs hnot :=
    h.unanswered s ((List.mem_append.mp hs).resolve_right hnot) fun hmem => hnot (hsub hmem)
  closed s hs hnot t ht := by
    have hmem := (List.mem_append.mp hs).resolve_right hnot
    exact List.mem_append_left _ (h.closed s hmem (fun hseen => hnot (hsub hseen)) t ht)

/-- Among requests that have led nowhere a run finds nothing. -/
theorem Runs.eq_none_of_exhausts {closed : List Request} (h : p.Runs plan seen result)
    (hclosed : p.Exhausts seen closed) (hasked : plan.asked ⊆ closed)
    (hotherwise : plan.otherwise = none) : result.1 = none ∧ result.2 ⊆ closed := by
  have hexpansion {r : Request} {f : PlacedFile} {seen : List Request}
      (hclosed : p.Exhausts seen closed) (hr : r ∈ closed) (new : r ∉ seen)
      (hf : p.fileAt? r.file = some f) : p.Exhausts (r :: seen) closed ∧
        (p.exportPlan f r.name).asked ⊆ closed ∧ (p.exportPlan f r.name).otherwise = none := by
    have hanswered : ¬ p.IsAnswered r := hclosed.unanswered r hr new
    refine ⟨hclosed.of_subset (List.subset_cons_self _ _)
      (List.cons_subset.mpr ⟨hr, hclosed.subset⟩), fun s hs => ?_, ?_⟩
    · have hasks : p.Asks r s := (mem_asked_exportPlan_iff hf).mp hs
      exact hclosed.closed r hr new s ((asks_iff_forwards hanswered).mp hasks)
    · rwa [← isSome_otherwise_exportPlan_iff hf, Option.not_isSome_iff_eq_none] at hanswered
  induction h with
  | done => exact ⟨hotherwise, hclosed.subset⟩
  | again _ _ ih => exact ih hclosed (List.cons_subset.mp hasked).2 hotherwise
  | found new file _ ih =>
    obtain ⟨hinner, hinnerAsked, hnone⟩ := hexpansion hclosed (List.cons_subset.mp hasked).1 new file
    obtain ⟨hcontra, -⟩ := ih hinner hinnerAsked hnone
    cases hcontra
  | failed new file expansion _ ih ihrest =>
    obtain ⟨hr, hrs⟩ := List.cons_subset.mp hasked
    obtain ⟨hinner, hinnerAsked, hnone⟩ := hexpansion hclosed hr new file
    obtain ⟨-, hbetween⟩ := ih hinner hinnerAsked hnone
    exact ihrest (hinner.of_subset expansion.subset hbetween) hrs hotherwise

/-! ## Routes that are not blocked -/

/-- A request that has led nowhere is no obstacle to what comes after it. -/
theorem FindsAlong.cons_of_exhausts {closed : List Request} (hclosed : p.Exhausts seen closed)
    (hr : r ∈ closed) (hf : p.fileAt? r.file = some f)
    (hrest : ∀ between, p.Exhausts between closed →
      p.FindsAlong symbol ⟨rs, otherwise⟩ between route) :
    p.FindsAlong symbol ⟨r :: rs, otherwise⟩ seen route := by
  have hruns : p.Runs (.ofRequest r) seen (p.exportOf r seen) :=
    runs_exportOf (lt_length_of_fileAt? hf)
  obtain ⟨hnone, hsub⟩ :=
    hruns.eq_none_of_exhausts hclosed (List.cons_subset.mpr ⟨hr, List.nil_subset _⟩) rfl
  generalize p.exportOf r seen = result at hruns hnone hsub
  cases hruns with
  | again old _ => exact .again old (hrest _ hclosed)
  | found => cases hnone
  | failed new file expansion rest =>
    cases rest with
    | done =>
      have hsubset := List.Subset.trans (List.subset_cons_self _ _) expansion.subset
      exact .failed new file expansion (hrest _ (hclosed.of_subset hsubset hsub))

/-- A route stays one if other requests have been expanded before, as long as none of them is on the
route. What else the search expanded has led nowhere, whether it is expanded again or not. -/
theorem FindsAlong.of_exhausts {closed : List Request} (h : p.FindsAlong symbol plan seen route)
    (hclosed : p.Exhausts seen' closed) (hseen : seen ⊆ closed)
    (hfiles : ∀ r ∈ seen, ∃ f, p.fileAt? r.file = some f)
    (hroute : ∀ r ∈ route, r ∉ closed) : p.FindsAlong symbol plan seen' route := by
  induction h generalizing seen' closed with
  | reserve => exact .reserve
  | again old _ ih =>
    obtain ⟨f, file⟩ := hfiles _ old
    exact .cons_of_exhausts hclosed (hseen old) file fun _ h => ih h hseen hfiles hroute
  | @found r _ _ _ _ _ _ file expansion ih =>
    obtain ⟨hr, hinner⟩ := List.forall_mem_cons.mp hroute
    refine .found (fun hmem => hr (hclosed.subset hmem)) file (ih (hclosed.cons r)
      (List.cons_subset_cons r hseen) (List.forall_mem_cons.mpr ⟨⟨_, file⟩, hfiles⟩)
      fun s hs hmem => ?_)
    rcases List.mem_cons.mp hmem with rfl | hmem
    · exact expansion.notMem s hs List.mem_cons_self
    · exact hinner s hs hmem
  | failed _ file expansion rest ih =>
    obtain ⟨hexpansion, hasked⟩ := expansion.exhausts
    have hexhausts := Exhausts.of_expansion file expansion hexpansion hasked
    refine .cons_of_exhausts (hclosed.trans (hexhausts.append hseen))
      (List.mem_append_left _ (hexpansion.subset List.mem_cons_self)) file fun _ h =>
        ih h (List.subset_append_left _ _) ?_ ?_
    · exact expansion.exists_fileAt? (List.forall_mem_cons.mpr ⟨⟨_, file⟩, hfiles⟩)
    · intro s hs hmem
      rcases List.mem_append.mp hmem with hmem | hmem
      · exact rest.notMem s hs hmem
      · exact hroute s hs hmem

/-! ## Members -/

variable {path : Path} {target : Nat} {object : Reference} {key : String} {expanded : List Request}

theorem exists_findsAlong_of_exportOf (hfile : r.file < p.files.length)
    (h : (p.exportOf r seen).1 = some symbol) :
    ∃ route, p.FindsAlong symbol (.ofRequest r) seen route := by
  have hruns : p.Runs (.ofRequest r) seen (some symbol, (p.exportOf r seen).2) :=
    h ▸ runs_exportOf hfile
  exact hruns.exists_findsAlong

theorem FindsAlong.exportOf_eq (h : p.FindsAlong symbol (.ofRequest r) seen route)
    (hfile : r.file < p.files.length) :
    (p.exportOf r seen).1 = some symbol ∧ route ⊆ (p.exportOf r seen).2 := by
  obtain ⟨after, hruns, hsub⟩ := h.exists_runs
  rw [(runs_exportOf hfile).unique hruns]
  exact ⟨rfl, hsub⟩

/-- A member of a module is what the module exports, or the module itself if nothing is found. -/
theorem resolve_member_of_module (key : String)
    (hobject : p.resolve f object [] = (some (.module target), expanded)) :
    (p.resolve f (.member object key) []).1 =
      some ((p.exportOf ⟨target, key⟩ expanded).1.getD (.module target)) := by
  simp only [resolve, hobject, memberOf]
  cases p.exportOf ⟨target, key⟩ expanded with
  | mk found after => cases found <;> rfl

/-- **A member of a module finds its export just if the route to it is new.** The export has one
route, which lies among the requests that the search for it expands. If none of them has been
expanded to find the object, the member stands for the export. If one on the route has, the member
stands for the module or for what is found along another route. -/
theorem member_takes_route_iff (hf : p.file? path = some f)
    (hobject : p.resolve f object [] = (some (.module target), expanded))
    (hown : (p.exportOf ⟨target, key⟩ []).1 = some symbol) :
    (∀ start stop, f.referenceAt? start stop = some (.member object key) →
      p.symbolAt? f start stop = (p.resolve f (.member object key) []).1) ∧
    ∃ route ⊆ (p.exportOf ⟨target, key⟩ []).2,
      (∀ other, p.FindsAlong symbol (.ofRequest ⟨target, key⟩) [] other ↔ other = route) ∧
      (p.FindsAlong symbol (.ofRequest ⟨target, key⟩) expanded route ↔
        ∀ r ∈ route, r ∉ expanded) ∧
      ((∀ r ∈ route, r ∉ expanded) → (p.resolve f (.member object key) []).1 = some symbol) ∧
      ((∃ r ∈ route, r ∈ expanded) →
        (p.resolve f (.member object key) []).1 = some (.module target) ∨
        ∃ found other, (p.resolve f (.member object key) []).1 = some found ∧
          p.FindsAlong found (.ofRequest ⟨target, key⟩) expanded other ∧ other ≠ route) := by
  have hresolves : p.Resolves f object (some (.module target), expanded) :=
    hobject ▸ resolves_resolve (fileAt?_of_file? hf) object
  have hfile : target < p.files.length :=
    hresolves.file_lt_length (r := ⟨target, key⟩) (fileAt?_of_file? hf)
      (mem_asked_memberPlan.mpr ⟨rfl, rfl⟩)
  have hmember := resolve_member_of_module key hobject
  obtain ⟨route, hroute⟩ := exists_findsAlong_of_exportOf hfile hown
  have hiff : p.FindsAlong symbol (.ofRequest ⟨target, key⟩) expanded route ↔
      ∀ r ∈ route, r ∉ expanded :=
    ⟨FindsAlong.notMem, hroute.of_exhausts (.refl p expanded) (List.nil_subset _) (by simp)⟩
  refine ⟨fun start stop href => ?_, route, (hroute.exportOf_eq hfile).2,
    fun other => ⟨fun h => h.unique hroute, ?_⟩, hiff, fun hnew => ?_, fun ⟨r, hr, hold⟩ => ?_⟩
  · rw [symbolAt?, symbolOf_eq_resolveSome, ← SourceFile.referenceAt?, href]
    rfl
  · rintro rfl
    exact hroute
  · rw [hmember, ((hiff.mpr hnew).exportOf_eq hfile).1]
    rfl
  · cases hfound : (p.exportOf ⟨target, key⟩ expanded).1 with
    | none =>
      left
      rw [hmember, hfound]
      rfl
    | some found =>
      right
      obtain ⟨other, hother⟩ := exists_findsAlong_of_exportOf hfile hfound
      refine ⟨found, other, by rw [hmember, hfound]; rfl, hother, ?_⟩
      rintro rfl
      exact hother.notMem r hr hold

/-- A file that names members of a module down to a depth of three. -/
def memberUser : PlacedFile where
  toSourceFile := .ofText Source.parse ⟨"/p/main.ts"⟩ "import * as ns from './t'; ns.a.b.a".toList
  place := 2

/-- The reference to the first member. -/
def memberUser.first : Reference := .member (.name [⟨0, 35, .program⟩] "ns") "a"

/-- Two modules that export each other as a whole, and a file that names members of the one. -/
def mutualNamespaces : Project := .ofSources Source.parse .standard [
  (⟨"/p/t.ts"⟩, "export * as a from './u'".toList),
  (⟨"/p/u.ts"⟩, "export * as b from './t'".toList),
  (⟨"/p/main.ts"⟩, memberUser.source)]

theorem mutualNamespaces_file? : mutualNamespaces.file? ⟨"/p/main.ts"⟩ = some memberUser := rfl

theorem mutualNamespaces_second_member :
    mutualNamespaces.file? ⟨"/p/main.ts"⟩ = some memberUser ∧
    mutualNamespaces.resolve memberUser memberUser.first [] = (some (.module 1), [⟨0, "a"⟩]) ∧
    (mutualNamespaces.exportOf ⟨1, "b"⟩ []).1 = some (.module 0) ∧
    memberUser.referenceAt? 32 33 = some (.member memberUser.first "b") ∧
    mutualNamespaces.symbolAt? memberUser 32 33 = some (.module 0) := by
  have hobject : mutualNamespaces.resolve memberUser memberUser.first [] =
      (some (.module 1), [⟨0, "a"⟩]) := by decide +kernel
  have hown : mutualNamespaces.exportOf ⟨1, "b"⟩ [] = (some (.module 0), [⟨1, "b"⟩]) := by
    decide +kernel
  have href : memberUser.referenceAt? 32 33 = some (.member memberUser.first "b") := by
    decide +kernel
  obtain ⟨hposition, route, hsub, -, -, hnew, -⟩ :=
    member_takes_route_iff mutualNamespaces_file? hobject (congrArg Prod.fst hown)
  refine ⟨mutualNamespaces_file?, hobject, congrArg Prod.fst hown, href, ?_⟩
  rw [hposition 32 33 href]
  refine hnew fun r hr => ?_
  rw [hown] at hsub
  obtain rfl := List.mem_singleton.mp (hsub hr)
  decide

/-- The third member asks the one module for what it was asked for to find the first one, and so
stands for that module, and not for the other one that it exports. -/
theorem mutualNamespaces_third_member :
    mutualNamespaces.file? ⟨"/p/main.ts"⟩ = some memberUser ∧
    memberUser.referenceAt? 34 35 = some (.member (.member memberUser.first "b") "a") ∧
    mutualNamespaces.resolve memberUser (.member memberUser.first "b") [] =
      (some (.module 0), [⟨1, "b"⟩, ⟨0, "a"⟩]) ∧
    (mutualNamespaces.exportOf ⟨0, "a"⟩ []).1 = some (.module 1) ∧
    mutualNamespaces.symbolAt? memberUser 34 35 = some (.module 0) :=
  ⟨mutualNamespaces_file?, by decide +kernel⟩

end RootCause.Scope.Project
