import RootCause.Proofs.Scope.Runs

/-!
# What symbols stand for

A search gives symbols that stand for something (`Project.IsBacked`): a name that is declared where
the symbol says so, or a file of the project. What a plan gives without asking is of this kind, be
it the plan for an import, for a declaration or for an export, so each rule by which a run proceeds
keeps it (`Project.Runs.isBacked`).
-/

namespace RootCause.Scope.Project

variable {p : Project} {f : PlacedFile} {plan : Plan} {symbol : Symbol} {seen : List Request}
  {result : Option Symbol × List Request}

/-- A symbol stands for something that the project has. -/
inductive IsBacked (p : Project) : Symbol → Prop
  /-- A name that a file of the project declares in a scope. -/
  | binding {f : PlacedFile} {d : Declaration} (file : p.fileAt? f.place = some f)
    (mem : d ∈ f.facts.declarations) : IsBacked p (.binding f.place d.scope d.name)
  /-- A file of the project. -/
  | module {f : PlacedFile} (file : p.fileAt? f.place = some f) : IsBacked p (.module f.place)

theorem IsBacked.of_link? {specifier : String} {target : Nat}
    (h : p.link? f specifier = some target) : p.IsBacked (.module target) := by
  obtain ⟨g, hg⟩ := exists_fileAt? (lt_length_of_link? h)
  obtain rfl := (fileAt?_eq_some hg).2
  exact .module (fileAt?_place hg)

theorem exists_fileAt?_of_isBacked_module {target : Nat} (h : p.IsBacked (.module target)) :
    ∃ f, p.fileAt? target = some f := by
  cases h with
  | module file => exact ⟨_, file⟩

/-! ## What plans give without asking -/

theorem isBacked_of_mem_importPlan {specifier : String} {what : Imported}
    (h : symbol ∈ (p.importPlan f specifier what).otherwise) : p.IsBacked symbol := by
  cases hlink : p.link? f specifier with
  | none => simp [importPlan, hlink] at h
  | some target =>
    cases what with
    | named _ | default => simp [importPlan, hlink, Plan.ofRequest] at h
    | whole =>
      obtain rfl : Symbol.module target = symbol := by simpa [importPlan, hlink] using h
      exact .of_link? hlink

theorem isBacked_of_mem_followPlan {d : Declaration} (hf : p.fileAt? f.place = some f)
    (hd : d ∈ f.facts.declarations) (h : symbol ∈ (p.followPlan f d).otherwise) :
    p.IsBacked symbol := by
  cases horigin : d.origin with
  | here =>
    obtain rfl : Symbol.binding f.place d.scope d.name = symbol := by
      simpa [followPlan, horigin] using h
    exact .binding hf hd
  | imported specifier what =>
    simp only [followPlan, horigin, Plan.orElse] at h
    cases hfound : (p.importPlan f specifier what).otherwise with
    | none =>
      obtain rfl : Symbol.binding f.place d.scope d.name = symbol := by simpa [hfound] using h
      exact .binding hf hd
    | some found =>
      obtain rfl : found = symbol := by simpa [hfound] using h
      exact isBacked_of_mem_importPlan hfound

theorem isBacked_of_mem_exportPlan {name : String} (hf : p.fileAt? f.place = some f)
    (h : symbol ∈ (p.exportPlan f name).otherwise) : p.IsBacked symbol := by
  unfold exportPlan at h
  split at h
  next declared _ =>
    split at h
    next d hd =>
      exact isBacked_of_mem_followPlan hf (SourceFile.declaration?_eq_some hd).1 h
    next => cases h
  next => exact isBacked_of_mem_importPlan h
  next =>
    split at h
    next => cases h
    next => cases h

/-! ## What runs find -/

/-- **What a run finds stands for something**, if what its plan gives without asking does. -/
theorem Runs.isBacked (h : p.Runs plan seen result)
    (hplan : ∀ symbol ∈ plan.otherwise, p.IsBacked symbol) :
    ∀ symbol ∈ result.1, p.IsBacked symbol := by
  have hexpansion {r : Request} {f : PlacedFile} (hf : p.fileAt? r.file = some f) :
      ∀ symbol ∈ (p.exportPlan f r.name).otherwise, p.IsBacked symbol :=
    fun _ => isBacked_of_mem_exportPlan (fileAt?_place hf)
  induction h with
  | done => exact hplan
  | again _ _ ih => exact ih hplan
  | found _ file _ ih => exact ih (hexpansion file)
  | failed _ _ _ _ _ ihrest => exact ihrest hplan

end RootCause.Scope.Project
