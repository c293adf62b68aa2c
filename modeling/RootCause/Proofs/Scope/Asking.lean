import RootCause.Proofs.Scope.Runs

/-!
# What a request asks for

To expand a request is to carry out the plan of its file, of which two things matter: the requests
that it makes (`Project.Asks`), and the symbol that it has in reserve. A request makes the ones to
which it is forwarded, and, if its name is one that the file imports, the one for the import
(`Project.mem_asked_exportPlan_iff`). There is a symbol in reserve just if the request is answered
where it arrives (`Project.isSome_otherwise_exportPlan_iff`), so that a request that is not answered
only forwards (`Project.asks_iff_forwards`).
-/

namespace RootCause.Scope.Project

/-- To expand a request, another one may have to be made. -/
inductive Asks (p : Project) (r : Request) : Request → Prop
  /-- The request is forwarded. -/
  | forwarded {s : Request} (forwards : p.Forwards r s) : Asks p r s
  /-- The first export under the name is a name of the file that it imports from another one. -/
  | imported (f : PlacedFile) (declared : String) (d : Declaration) (specifier : String)
    (what : Imported) (name : String) (target : Nat) (file : p.fileAt? r.file = some f)
    (first : f.ExportsFirst r.name (.own declared))
    (declaration : f.declaration? f.rootScope declared = some d)
    (origin : d.origin = .imported specifier what) (exported : what.exported? = some name)
    (link : p.link? f specifier = some target) : Asks p r ⟨target, name⟩

variable {p : Project} {f : PlacedFile} {r s : Request} {declared : String}

/-! ## The requests of a plan -/

theorem mem_asked_followPlan_iff {d : Declaration} :
    s ∈ (p.followPlan f d).asked ↔ ∃ specifier what, d.origin = .imported specifier what ∧
      p.link? f specifier = some s.file ∧ what.exported? = some s.name := by
  cases horigin : d.origin with
  | here => simp [followPlan, horigin]
  | imported specifier what =>
    simp only [followPlan, horigin, Plan.orElse, mem_asked_importPlan]
    constructor
    · exact fun h => ⟨specifier, what, rfl, h⟩
    · rintro ⟨_, _, heq, h⟩
      cases heq
      exact h

theorem asks_iff_of_exportsFirst_own (hf : p.fileAt? r.file = some f)
    (hfirst : f.ExportsFirst r.name (.own declared)) :
    p.Asks r s ↔ ∃ d, f.declaration? f.rootScope declared = some d ∧
      s ∈ (p.followPlan f d).asked := by
  constructor
  · rintro (hforwards | ⟨f', declared', d, specifier, what, name, target, hf', hfirst', hd, horigin,
      hname, hlink⟩)
    · exact absurd hforwards (not_forwards_of_exportsFirst_own hf hfirst)
    · obtain rfl : f = f' := Option.some.inj (hf.symm.trans hf')
      cases hfirst.unique hfirst'
      exact ⟨d, hd, mem_asked_followPlan_iff.mpr ⟨specifier, what, horigin, hlink, hname⟩⟩
  · rintro ⟨d, hd, hs⟩
    obtain ⟨specifier, what, horigin, hlink, hname⟩ := mem_asked_followPlan_iff.mp hs
    exact .imported f declared d specifier what s.name s.file hf hfirst hd horigin hname hlink

/-- A request only forwards, unless the name is exported as one of the file's own. -/
theorem asks_iff_forwards_of_forall_ne (hf : p.fileAt? r.file = some f)
    (h : ∀ declared, f.referent? r.name ≠ some (.own declared)) :
    p.Asks r s ↔ p.Forwards r s := by
  constructor
  · rintro (hforwards | ⟨f', declared, _, _, _, _, _, hf', hfirst, -, -, -, -⟩)
    · exact hforwards
    · obtain rfl : f = f' := Option.some.inj (hf.symm.trans hf')
      exact absurd (SourceFile.referent?_eq_some_iff.mpr hfirst) (h declared)
  · exact .forwarded

/-- **The plan for an export makes the requests that the request asks for.** -/
theorem mem_asked_exportPlan_iff (hf : p.fileAt? r.file = some f) :
    s ∈ (p.exportPlan f r.name).asked ↔ p.Asks r s := by
  cases hreferent : f.referent? r.name with
  | none =>
    rw [asks_iff_forwards_of_forall_ne hf (by simp [hreferent]),
      forwards_iff_of_referent?_eq_none hf hreferent, exportPlan, hreferent]
    obtain ⟨file, name⟩ := s
    by_cases hdefault : r.name = "default"
    · simp [hdefault]
    · simp [hdefault, and_comm, eq_comm]
  | some referent =>
    have hfirst := SourceFile.referent?_eq_some_iff.mp hreferent
    cases referent with
    | own declared =>
      rw [asks_iff_of_exportsFirst_own hf hfirst, exportPlan, hreferent]
      cases hd : f.declaration? f.rootScope declared <;> simp [hd]
    | foreign specifier what =>
      rw [asks_iff_forwards_of_forall_ne hf (by simp [hreferent]),
        forwards_iff_of_exportsFirst hf hfirst, exportPlan, hreferent]
      exact mem_asked_importPlan.trans and_comm

/-! ## The symbol in reserve -/

theorem isSome_otherwise_importPlan_iff {specifier : String} {what : Imported} :
    (p.importPlan f specifier what).otherwise.isSome ↔
      what = .whole ∧ ∃ target, p.link? f specifier = some target := by
  cases hlink : p.link? f specifier with
  | none => simp [importPlan, hlink]
  | some target => cases what <;> simp [importPlan, hlink, Plan.ofRequest]

theorem isSome_otherwise_followPlan (d : Declaration) :
    (p.followPlan f d).otherwise.isSome := by
  cases horigin : d.origin with
  | here => simp [followPlan, horigin]
  | imported specifier what =>
    simp only [followPlan, horigin, Plan.orElse]
    cases (p.importPlan f specifier what).otherwise <;> rfl

theorem isAnswered_iff (hf : p.fileAt? r.file = some f) : p.IsAnswered r ↔
    (∃ declared d, f.referent? r.name = some (.own declared) ∧
      f.declaration? f.rootScope declared = some d) ∨
    ∃ specifier target, f.referent? r.name = some (.foreign specifier .whole) ∧
      p.link? f specifier = some target := by
  simp only [SourceFile.referent?_eq_some_iff]
  constructor
  · rintro (⟨f', declared, d, hf', hfirst, hmem, hscope, hname⟩ |
      ⟨f', specifier, target, hf', hfirst, hlink⟩)
    · obtain rfl : f = f' := Option.some.inj (hf.symm.trans hf')
      obtain ⟨d, hd⟩ := SourceFile.exists_declaration?_eq_some hmem hscope hname
      exact .inl ⟨declared, d, hfirst, hd⟩
    · obtain rfl : f = f' := Option.some.inj (hf.symm.trans hf')
      exact .inr ⟨specifier, target, hfirst, hlink⟩
  · rintro (⟨declared, d, hfirst, hd⟩ | ⟨specifier, target, hfirst, hlink⟩)
    · obtain ⟨hmem, hscope, hname⟩ := SourceFile.declaration?_eq_some hd
      exact .own f declared d hf hfirst hmem hscope hname
    · exact .whole f specifier target hf hfirst hlink

/-- **The plan for an export has a symbol in reserve just if the request is answered.** -/
theorem isSome_otherwise_exportPlan_iff (hf : p.fileAt? r.file = some f) :
    (p.exportPlan f r.name).otherwise.isSome ↔ p.IsAnswered r := by
  rw [isAnswered_iff hf, exportPlan]
  cases hreferent : f.referent? r.name with
  | none => by_cases hdefault : r.name = "default" <;> simp [hdefault]
  | some referent =>
    cases referent with
    | own declared =>
      cases hd : f.declaration? f.rootScope declared <;>
        simp [hd, isSome_otherwise_followPlan]
    | foreign specifier what => simp [isSome_otherwise_importPlan_iff]

theorem asks_iff_forwards (h : ¬ p.IsAnswered r) : p.Asks r s ↔ p.Forwards r s := by
  refine ⟨?_, .forwarded⟩
  rintro (hforwards | ⟨f, declared, d, _, _, _, _, hf, hfirst, hd, -, -, -⟩)
  · exact hforwards
  · obtain ⟨hmem, hscope, hname⟩ := SourceFile.declaration?_eq_some hd
    exact absurd (.own f declared d hf hfirst hmem hscope hname) h

end RootCause.Scope.Project
