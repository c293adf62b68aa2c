import RootCause.Proofs.Order.Renaming
import RootCause.Proofs.Scope.Positions
import RootCause.Scope.Model

/-!
# Projects with their files at other places

Symbols, links and the requests that a search keeps hold places of files. Where the same files stand
at other places, all of these are others, by a renaming of places (`Project.Rearranges`). Each plan
is then the renamed one (`Rearranges.exportPlan_eq`), and so the rules of a run take a run to a run
of which everything is renamed (`Rearranges.runs`). As each question has one run, searches find the
renamed symbols (`Rearranges.symbolAt?_eq`), and no answer says more of a symbol than where it is
declared (`Rearranges.renames`).
-/

namespace RootCause.Scope

/-! ## Renamed places -/

section

variable (ρ : Nat → Nat)

/-- The symbol with the place of its file renamed. -/
def Symbol.rename : Symbol → Symbol
  | .binding file scope name => .binding (ρ file) scope name
  | .module file => .module (ρ file)

/-- The request with the place of its file renamed. -/
def Request.rename (r : Request) : Request := ⟨ρ r.file, r.name⟩

/-- The file with its place renamed. -/
def PlacedFile.rename (f : PlacedFile) : PlacedFile := ⟨f.toSourceFile, ρ f.place⟩

/-- The plan with all places in it renamed. -/
def Plan.rename (plan : Plan) : Plan :=
  ⟨plan.asked.map (Request.rename ρ), plan.otherwise.map (Symbol.rename ρ)⟩

/-- What a search comes to, with all places in it renamed. -/
def renameResult (result : Option Symbol × List Request) : Option Symbol × List Request :=
  (result.1.map (Symbol.rename ρ), result.2.map (Request.rename ρ))

theorem Plan.rename_orElse (plan : Plan) (symbol : Symbol) :
    (plan.orElse symbol).rename ρ = (plan.rename ρ).orElse (symbol.rename ρ) := by
  obtain ⟨asked, otherwise⟩ := plan
  cases otherwise <;> rfl

end

section

variable {ρ : Nat → Nat} (hρ : Function.Injective ρ)
include hρ

theorem Symbol.rename_injective : Function.Injective (Symbol.rename ρ) := by
  intro a b h
  cases a <;> cases b <;> simp_all [Symbol.rename, hρ.eq_iff]

theorem Request.rename_injective : Function.Injective (Request.rename ρ) := by
  rintro ⟨file, name⟩ ⟨file', name'⟩ h
  simpa [Request.rename, hρ.eq_iff] using h

theorem mem_map_rename_iff {r : Request} {seen : List Request} :
    r.rename ρ ∈ seen.map (Request.rename ρ) ↔ r ∈ seen :=
  List.mem_map_of_injective (Request.rename_injective hρ)

end

/-! ## Files at other places -/

namespace Project

/-- The files of `q` are those of `p`, and the one at a place in `p` is at the place `ρ` of it
in `q`. -/
structure Rearranges (ρ : Nat → Nat) (p q : Project) : Prop where
  injective : Function.Injective ρ
  tabs : q.tabs = p.tabs
  perm : p.files.Perm q.files
  getElem?_eq : ∀ place, q.files[ρ place]? = p.files[place]?
  nodup : (p.files.map SourceFile.path).Nodup

namespace Rearranges

variable {ρ : Nat → Nat} {p q : Project} {f : PlacedFile} {plan : Plan} {seen : List Request}
  {result : Option Symbol × List Request}

theorem fileAt?_eq (h : p.Rearranges ρ q) (place : Nat) :
    q.fileAt? (ρ place) = (p.fileAt? place).map (PlacedFile.rename ρ) := by
  rw [fileAt?, fileAt?, h.getElem?_eq, Option.map_map]
  rfl

theorem place?_eq (h : p.Rearranges ρ q) (path : Path) :
    q.place? path = (p.place? path).map ρ := by
  have hnodup : (q.files.map SourceFile.path).Nodup := (h.perm.map _).nodup_iff.mp h.nodup
  refine Option.ext fun place => ?_
  rw [Option.map_eq_some_iff, place?_eq_some_iff hnodup]
  simp only [place?_eq_some_iff h.nodup]
  constructor
  · rintro ⟨f, hf, hpath⟩
    obtain ⟨place', hf'⟩ := List.mem_iff_getElem?.mp (h.perm.mem_iff.mpr (List.mem_of_getElem? hf))
    exact ⟨place', ⟨f, hf', hpath⟩,
      place_eq_of_path hnodup ((h.getElem?_eq place').trans hf') hf rfl⟩
  · rintro ⟨place', ⟨f, hf', hpath⟩, rfl⟩
    exact ⟨f, (h.getElem?_eq place').trans hf', hpath⟩

theorem file?_eq (h : p.Rearranges ρ q) (path : Path) :
    q.file? path = (p.file? path).map (PlacedFile.rename ρ) := by
  rw [file?, file?, h.place?_eq, Option.bind_map, Option.map_bind]
  exact Option.bind_congr fun place _ => h.fileAt?_eq place

theorem link?_eq (h : p.Rearranges ρ q) (f : PlacedFile) (specifier : String) :
    q.link? (f.rename ρ) specifier = (p.link? f specifier).map ρ := by
  have hisFile : (fun path => (q.place? path).isSome) = fun path => (p.place? path).isSome := by
    funext path
    rw [h.place?_eq, Option.isSome_map]
  rw [link?, link?, hisFile, Option.map_bind]
  exact Option.bind_congr fun path _ => h.place?_eq path

/-! ### Plans -/

theorem importPlan_eq (h : p.Rearranges ρ q) (f : PlacedFile) (specifier : String)
    (what : Imported) :
    q.importPlan (f.rename ρ) specifier what = (p.importPlan f specifier what).rename ρ := by
  rw [importPlan, importPlan, h.link?_eq]
  cases p.link? f specifier with
  | none => rfl
  | some target => cases what <;> rfl

theorem followPlan_eq (h : p.Rearranges ρ q) (f : PlacedFile) (d : Declaration) :
    q.followPlan (f.rename ρ) d = (p.followPlan f d).rename ρ := by
  rw [followPlan, followPlan]
  cases d.origin with
  | here => rfl
  | imported specifier what =>
    dsimp only
    rw [h.importPlan_eq, Plan.rename_orElse]
    rfl

theorem starTargets_eq (h : p.Rearranges ρ q) (f : PlacedFile) :
    q.starTargets (f.rename ρ) = (p.starTargets f).map ρ := by
  rw [starTargets, starTargets, List.map_filterMap]
  exact List.filterMap_congr fun specifier _ => h.link?_eq f specifier

/-- **The plan for an export is renamed with the file.** -/
theorem exportPlan_eq (h : p.Rearranges ρ q) (f : PlacedFile) (name : String) :
    q.exportPlan (f.rename ρ) name = (p.exportPlan f name).rename ρ := by
  have hfile : (f.rename ρ).toSourceFile = f.toSourceFile := rfl
  rw [exportPlan, exportPlan, hfile]
  cases f.referent? name with
  | none =>
    by_cases hdefault : name = "default"
    · simp [hdefault, Plan.rename]
    · simp [hdefault, Plan.rename, h.starTargets_eq, Request.rename, Function.comp_def]
  | some referent =>
    cases referent with
    | foreign specifier what => exact h.importPlan_eq f specifier what
    | own declared =>
      dsimp only
      cases f.declaration? f.rootScope declared with
      | none => rfl
      | some d => exact h.followPlan_eq f d

theorem memberPlan_eq (base : Symbol) (key : String) :
    memberPlan (base.rename ρ) key = (memberPlan base key).rename ρ := by
  cases base <;> rfl

/-! ### Runs -/

/-- **A run is taken to a run**, rule by rule. -/
theorem runs (h : p.Rearranges ρ q) (hruns : p.Runs plan seen result) :
    q.Runs (plan.rename ρ) (seen.map (Request.rename ρ)) (renameResult ρ result) := by
  have hfileAt {r : Request} {f : PlacedFile} (hf : p.fileAt? r.file = some f) :
      q.fileAt? (r.rename ρ).file = some (f.rename ρ) := by
    rw [Request.rename, h.fileAt?_eq, hf, Option.map_some]
  induction hruns with
  | done => exact .done
  | again old _ ih => exact .again ((mem_map_rename_iff h.injective).mpr old) ih
  | found new file _ ih =>
    rw [← h.exportPlan_eq] at ih
    exact .found (mt (mem_map_rename_iff h.injective).mp new) (hfileAt file) ih
  | failed new file _ _ ih ihrest =>
    rw [← h.exportPlan_eq] at ih
    exact .failed (mt (mem_map_rename_iff h.injective).mp new) (hfileAt file) ih ihrest

theorem resolves (h : p.Rearranges ρ q) {ref : Reference} (hresolves : p.Resolves f ref result) :
    q.Resolves (f.rename ρ) ref (renameResult ρ result) := by
  induction hresolves with
  | undeclared absent => exact .undeclared absent
  | declared first run => exact .declared first (h.followPlan_eq f _ ▸ h.runs run)
  | absent _ ih => exact .absent ih
  | member _ run ih => exact .member ih (memberPlan_eq _ _ ▸ h.runs run)
  | keyless _ ih => exact .keyless ih

/-! ### Answers -/

/-- **At a position the renamed symbol is found.** -/
theorem symbolAt?_eq (h : p.Rearranges ρ q) {path : Path} (hf : p.file? path = some f)
    (start stop : Nat) :
    q.symbolAt? (f.rename ρ) start stop = (p.symbolAt? f start stop).map (Symbol.rename ρ) := by
  have hf' : q.file? path = some (f.rename ρ) := by rw [h.file?_eq, hf, Option.map_some]
  cases href : f.referenceAt? start stop with
  | none =>
    rw [symbolAt?, symbolAt?, symbolOf_of_referenceAt?_eq_none href,
      symbolOf_of_referenceAt?_eq_none (f := f.rename ρ) href]
    rfl
  | some ref =>
    have hp := h.resolves (resolves_symbolOf hf href)
    have hq := resolves_symbolOf (f := f.rename ρ) hf' href
    exact congrArg Prod.fst (hq.unique hp)

theorem stopOf_eq (h : p.Rearranges ρ q) (f : PlacedFile) (l : Location) (start : Nat) :
    q.stopOf (f.rename ρ) l start = p.stopOf f l start := by
  rw [stopOf, stopOf, h.tabs]
  rfl

theorem symbolOfLocation?_eq (h : p.Rearranges ρ q) (l : Location) :
    q.symbolOfLocation? l = (p.symbolOfLocation? l).map (Symbol.rename ρ) := by
  rw [symbolOfLocation?, symbolOfLocation?, h.file?_eq, Option.bind_map, Option.map_bind]
  refine Option.bind_congr fun f hf => ?_
  dsimp only [Function.comp_apply]
  rw [Option.map_bind, h.tabs]
  refine Option.bind_congr fun start _ => ?_
  dsimp only [Function.comp_apply]
  rw [h.stopOf_eq, h.symbolAt?_eq hf]

theorem spans_eq (h : p.Rearranges ρ q) (symbol : Symbol) :
    q.spans (symbol.rename ρ) = p.spans symbol := by
  cases symbol with
  | binding place scope name =>
    simp only [Symbol.rename, spans, h.fileAt?_eq]
    cases p.fileAt? place <;> rfl
  | module place =>
    simp only [Symbol.rename, spans, h.fileAt?_eq]
    cases p.fileAt? place <;> rfl

theorem offsetAt_eq (h : p.Rearranges ρ q) (path : Path) (line column : Nat) :
    q.offsetAt path line column = p.offsetAt path line column := by
  rw [offsetAt, offsetAt, h.file?_eq, h.tabs, Option.bind_map]
  rfl

theorem importPlaces_eq (h : p.Rearranges ρ q) (f : PlacedFile) :
    q.importPlaces (f.rename ρ) = (p.importPlaces f).map ρ := by
  have hlinks : (f.rename ρ).facts.specifiers.filterMap (q.link? (f.rename ρ)) =
      (f.facts.specifiers.filterMap (p.link? f)).map ρ := by
    rw [List.map_filterMap]
    exact List.filterMap_congr fun specifier _ => h.link?_eq f specifier
  rw [importPlaces, importPlaces, hlinks, distinct_map h.injective, List.filter_map]
  refine congrArg (List.map ρ) (List.filter_congr fun place _ => ?_)
  exact decide_eq_decide.mpr h.injective.ne_iff

theorem imports_eq (h : p.Rearranges ρ q) (path : Path) : q.imports path = p.imports path := by
  rw [imports, imports, h.file?_eq]
  cases p.file? path with
  | none => rfl
  | some f =>
    simp only [Option.map_some, h.importPlaces_eq, List.filterMap_map, Function.comp_def,
      h.fileAt?_eq, List.map_filterMap, Option.map_map]
    rfl

/-- **The models answer alike**, with their symbols renamed. -/
theorem renames (h : p.Rearranges ρ q) : p.toModel.Renames (Symbol.rename ρ) q.toModel where
  injective := Symbol.rename_injective h.injective
  symbolsAt l := by
    simp only [toModel, h.symbolOfLocation?_eq]
    cases p.symbolOfLocation? l <;> rfl
  spans := h.spans_eq
  offsetAt := h.offsetAt_eq
  imports := h.imports_eq

end Rearranges

end Project

end RootCause.Scope
