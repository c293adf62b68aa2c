import Mathlib.Data.Finset.Prod
import Mathlib.Data.List.Basic
import RootCause.Scope.Exports

/-!
# Requests and what answers them

The first export of a file under a name decides (`SourceFile.ExportsFirst`). A request is answered
where it arrives (`Project.IsAnswered`), or the file forwards it: to the module that the export
names, or, without such an export, to the modules of which the file exports all names
(`Project.Forwards`). Expanding a request gives a symbol if it is answered
(`Project.exists_expand_eq_some`), and else asks for what it is forwarded to, one request after the
other (`Project.exists_asksAll`).

Forwarding stays in a finite set of requests, which is smaller than the depth of a search
(`Project.mem_requests_of_forwards`, `Project.card_requests_lt_searchDepth`).
-/

namespace RootCause.Scope

/-! ## Exports of a file -/

namespace SourceFile

variable {f : SourceFile} {name : String}

/-- The first export of a file under a name stands for this. -/
def ExportsFirst (f : SourceFile) (name : String) (referent : Referent) : Prop :=
  ∃ before after, f.facts.exports = before ++ .named name referent :: after ∧
    ∀ other, Export.named name other ∉ before

theorem referent?_eq_none_iff :
    f.referent? name = none ↔ ∀ referent, Export.named name referent ∉ f.facts.exports := by
  simp only [referent?, List.findSome?_eq_none_iff]
  constructor
  · intro h referent hmem
    simpa using h _ hmem
  · rintro h (⟨exported, referent⟩ | specifier) hmem
    · have hne : exported ≠ name := fun heq => h referent (heq ▸ hmem)
      simp [hne]
    · rfl

theorem referent?_eq_some_iff {referent : Referent} :
    f.referent? name = some referent ↔ f.ExportsFirst name referent := by
  simp only [referent?, List.findSome?_eq_some_iff, ExportsFirst]
  constructor
  · rintro ⟨before, ⟨exported, found⟩ | specifier, after, heq, hfound, hbefore⟩
    · obtain ⟨rfl, rfl⟩ : exported = name ∧ found = referent := by simpa using hfound
      refine ⟨before, after, heq, fun other hmem => ?_⟩
      simpa using hbefore _ hmem
    · simp at hfound
  · rintro ⟨before, after, heq, hbefore⟩
    refine ⟨before, .named name referent, after, heq, by simp, ?_⟩
    rintro (⟨exported, other⟩ | specifier) hmem
    · have hne : exported ≠ name := fun h => hbefore other (h ▸ hmem)
      simp [hne]
    · rfl

theorem ExportsFirst.unique {r r' : Referent} (h : f.ExportsFirst name r)
    (h' : f.ExportsFirst name r') : r = r' :=
  Option.some.inj ((referent?_eq_some_iff.mpr h).symm.trans (referent?_eq_some_iff.mpr h'))

theorem ExportsFirst.mem {r : Referent} (h : f.ExportsFirst name r) :
    .named name r ∈ f.facts.exports := by
  obtain ⟨before, after, heq, -⟩ := h
  simp [heq]

theorem mem_starSpecifiers {specifier : String} :
    specifier ∈ f.starSpecifiers ↔ .star specifier ∈ f.facts.exports := by
  simp only [starSpecifiers, List.mem_filterMap]
  constructor
  · rintro ⟨_ | other, hmem, heq⟩
    · simp at heq
    · rwa [← Option.some.inj heq]
  · intro hmem
    exact ⟨_, hmem, rfl⟩

theorem declaration?_eq_some {scope : ScopeKey} {d : Declaration}
    (h : f.declaration? scope name = some d) :
    d ∈ f.facts.declarations ∧ d.scope = scope ∧ d.name = name :=
  ⟨List.mem_of_find?_eq_some h, by simpa using List.find?_some h⟩

theorem exists_declaration?_eq_some {scope : ScopeKey} {d : Declaration}
    (hmem : d ∈ f.facts.declarations) (hscope : d.scope = scope) (hname : d.name = name) :
    ∃ d, f.declaration? scope name = some d :=
  Option.isSome_iff_exists.mp (List.find?_isSome.mpr ⟨d, hmem, by simp [hscope, hname]⟩)

end SourceFile

/-- The name under which a module exports what is imported from it. -/
def Imported.exported? : Imported → Option String
  | .named name => some name
  | .default => some "default"
  | .whole => none

theorem Imported.exported?_eq_none_iff {what : Imported} :
    what.exported? = none ↔ what = .whole := by
  cases what <;> simp [exported?]

namespace Project

variable {p : Project} {f : PlacedFile}

/-! ## Files and their places -/

theorem fileAt?_eq_some_iff {place : Nat} :
    p.fileAt? place = some f ↔ p.files[place]? = some f.toSourceFile ∧ f.place = place := by
  rw [fileAt?, Option.map_eq_some_iff]
  constructor
  · rintro ⟨g, hg, rfl⟩
    exact ⟨hg, rfl⟩
  · rintro ⟨hg, rfl⟩
    exact ⟨_, hg, rfl⟩

theorem fileAt?_eq_some {place : Nat} (h : p.fileAt? place = some f) :
    f.toSourceFile ∈ p.files ∧ f.place = place := by
  obtain ⟨hget, hplace⟩ := fileAt?_eq_some_iff.mp h
  exact ⟨List.mem_of_getElem? hget, hplace⟩

theorem fileAt?_place {place : Nat} (h : p.fileAt? place = some f) :
    p.fileAt? f.place = some f := by
  rwa [(fileAt?_eq_some h).2]

theorem lt_length_of_fileAt? {place : Nat} (h : p.fileAt? place = some f) :
    place < p.files.length :=
  (List.getElem?_eq_some_iff.mp (fileAt?_eq_some_iff.mp h).1).1

theorem exists_fileAt? {place : Nat} (h : place < p.files.length) :
    ∃ f, p.fileAt? place = some f :=
  ⟨⟨p.files[place], place⟩, fileAt?_eq_some_iff.mpr ⟨List.getElem?_eq_getElem h, rfl⟩⟩

theorem fileAt?_of_place? {path : Path} {place : Nat} (h : p.place? path = some place) :
    ∃ f, p.fileAt? place = some f ∧ f.path = path := by
  obtain ⟨⟨f, _⟩, hlast, rfl⟩ := Option.map_eq_some_iff.mp h
  obtain ⟨hmem, hpath⟩ := List.mem_filter.mp (List.mem_of_getLast? hlast)
  exact ⟨⟨f, _⟩, fileAt?_eq_some_iff.mpr ⟨List.mem_zipIdx_iff_getElem?.mp hmem, rfl⟩,
    of_decide_eq_true hpath⟩

theorem exists_place? {path : Path} (h : path ∈ p.files.map SourceFile.path) :
    ∃ place, p.place? path = some place := by
  obtain ⟨f, hf, rfl⟩ := List.mem_map.mp h
  obtain ⟨i, hget⟩ := List.mem_iff_getElem?.mp hf
  cases hplace : p.place? f.path with
  | some place => exact ⟨place, rfl⟩
  | none =>
    have hnone := List.filter_eq_nil_iff.mp
      (List.getLast?_eq_none_iff.mp (Option.map_eq_none_iff.mp hplace))
    exact absurd (decide_eq_true rfl) (hnone (f, i) (List.mem_zipIdx_iff_getElem?.mpr hget))

theorem isSome_place?_iff {path : Path} :
    (p.place? path).isSome ↔ path ∈ p.files.map SourceFile.path := by
  rw [Option.isSome_iff_exists]
  refine ⟨?_, exists_place?⟩
  rintro ⟨place, h⟩
  obtain ⟨f, hf, rfl⟩ := fileAt?_of_place? h
  exact List.mem_map_of_mem (fileAt?_eq_some hf).1

theorem place_eq_of_path (h : (p.files.map SourceFile.path).Nodup) {place place' : Nat}
    {f f' : SourceFile} (hf : p.files[place]? = some f) (hf' : p.files[place']? = some f')
    (hpath : f.path = f'.path) : place = place' := by
  have hget : (p.files.map SourceFile.path)[place]? = some f'.path := by
    rw [List.getElem?_map, hf, Option.map_some, hpath]
  have hget' : (p.files.map SourceFile.path)[place']? = some f'.path := by
    rw [List.getElem?_map, hf', Option.map_some]
  exact (List.getElem?_inj (List.getElem?_eq_some_iff.mp hget).1 h).mp (hget.trans hget'.symm)

/-- Among files with different paths the one with a path is found. -/
theorem place?_eq_some_iff (h : (p.files.map SourceFile.path).Nodup) {path : Path} {place : Nat} :
    p.place? path = some place ↔ ∃ f, p.files[place]? = some f ∧ f.path = path := by
  constructor
  · intro hplace
    obtain ⟨f, hf, hpath⟩ := fileAt?_of_place? hplace
    exact ⟨f.toSourceFile, (fileAt?_eq_some_iff.mp hf).1, hpath⟩
  · rintro ⟨f, hf, rfl⟩
    obtain ⟨place', hplace⟩ := exists_place? (List.mem_map_of_mem (List.mem_of_getElem? hf))
    obtain ⟨g, hg, hpath⟩ := fileAt?_of_place? hplace
    rw [hplace, place_eq_of_path h (fileAt?_eq_some_iff.mp hg).1 hf hpath]

theorem fileAt?_of_file? {path : Path} (h : p.file? path = some f) :
    p.fileAt? f.place = some f := by
  obtain ⟨place, -, hf⟩ := Option.bind_eq_some_iff.mp h
  exact fileAt?_place hf

theorem lt_length_of_link? {specifier : String} {target : Nat}
    (h : p.link? f specifier = some target) : target < p.files.length := by
  obtain ⟨path, -, hplace⟩ := Option.bind_eq_some_iff.mp h
  obtain ⟨g, hg, -⟩ := fileAt?_of_place? hplace
  exact lt_length_of_fileAt? hg

variable {r s : Request}

/-! ## Answered requests and forwarded ones -/

/-- A request is answered by the file to which it goes. -/
inductive IsAnswered (p : Project) (r : Request) : Prop
  /-- The first export under the name is a name that is declared for the whole file. -/
  | own (f : PlacedFile) (declared : String) (d : Declaration) (file : p.fileAt? r.file = some f)
    (first : f.ExportsFirst r.name (.own declared)) (mem : d ∈ f.facts.declarations)
    (scope : d.scope = f.rootScope) (name : d.name = declared)
  /-- The first export under the name is another file of the project as a whole. -/
  | whole (f : PlacedFile) (specifier : String) (target : Nat)
    (file : p.fileAt? r.file = some f)
    (first : f.ExportsFirst r.name (.foreign specifier .whole))
    (link : p.link? f specifier = some target)

/-- A file forwards a request to another one. -/
inductive Forwards (p : Project) (r : Request) : Request → Prop
  /-- The first export under the name is a name that another file exports. -/
  | reexport (f : PlacedFile) (specifier : String) (what : Imported) (name : String)
    (target : Nat) (file : p.fileAt? r.file = some f)
    (first : f.ExportsFirst r.name (.foreign specifier what))
    (exported : what.exported? = some name)
    (link : p.link? f specifier = some target) : Forwards p r ⟨target, name⟩
  /-- There is no export under the name, which all names of another file may include. -/
  | star (f : PlacedFile) (specifier : String) (target : Nat) (file : p.fileAt? r.file = some f)
    (unnamed : ∀ referent, .named r.name referent ∉ f.facts.exports) (ne : r.name ≠ "default")
    (mem : .star specifier ∈ f.facts.exports) (link : p.link? f specifier = some target) :
    Forwards p r ⟨target, r.name⟩

theorem mem_starTargets {target : Nat} :
    target ∈ p.starTargets f ↔
      ∃ specifier, .star specifier ∈ f.facts.exports ∧ p.link? f specifier = some target := by
  simp only [starTargets, List.mem_filterMap, SourceFile.mem_starSpecifiers]

/-- A request whose name is exported explicitly is forwarded as the export says. -/
theorem forwards_iff_of_exportsFirst {specifier : String} {what : Imported}
    (hf : p.fileAt? r.file = some f) (hfirst : f.ExportsFirst r.name (.foreign specifier what)) :
    p.Forwards r s ↔ what.exported? = some s.name ∧ p.link? f specifier = some s.file := by
  constructor
  · rintro (⟨f', _, _, _, _, hf', hfirst', hname, hlink⟩ | ⟨f', _, _, hf', hunnamed, -, -, -⟩)
    · obtain rfl : f = f' := Option.some.inj (hf.symm.trans hf')
      cases hfirst.unique hfirst'
      exact ⟨hname, hlink⟩
    · obtain rfl : f = f' := Option.some.inj (hf.symm.trans hf')
      exact absurd hfirst.mem (hunnamed _)
  · rintro ⟨hname, hlink⟩
    exact .reexport f specifier what s.name s.file hf hfirst hname hlink

theorem not_forwards_of_exportsFirst_own {declared : String} (hf : p.fileAt? r.file = some f)
    (hfirst : f.ExportsFirst r.name (.own declared)) : ¬ p.Forwards r s := by
  rintro (⟨f', _, _, _, _, hf', hfirst', -, -⟩ | ⟨f', _, _, hf', hunnamed, -, -, -⟩)
  · obtain rfl : f = f' := Option.some.inj (hf.symm.trans hf')
    cases hfirst.unique hfirst'
  · obtain rfl : f = f' := Option.some.inj (hf.symm.trans hf')
    exact hunnamed _ hfirst.mem

/-- A request whose name is not exported explicitly is forwarded to the files of which all names are
exported. -/
theorem forwards_iff_of_referent?_eq_none (hf : p.fileAt? r.file = some f)
    (hnone : f.referent? r.name = none) :
    p.Forwards r s ↔ r.name ≠ "default" ∧ s.name = r.name ∧ s.file ∈ p.starTargets f := by
  constructor
  · rintro (⟨f', _, _, _, _, hf', hfirst, -, -⟩ | ⟨f', _, _, hf', -, hne, hmem, hlink⟩)
    · obtain rfl : f = f' := Option.some.inj (hf.symm.trans hf')
      exact absurd hfirst.mem (SourceFile.referent?_eq_none_iff.mp hnone _)
    · obtain rfl : f = f' := Option.some.inj (hf.symm.trans hf')
      exact ⟨hne, rfl, mem_starTargets.mpr ⟨_, hmem, hlink⟩⟩
  · rintro ⟨hne, hname, htarget⟩
    obtain ⟨specifier, hmem, hlink⟩ := mem_starTargets.mp htarget
    obtain ⟨file, name⟩ := s
    obtain rfl : name = r.name := hname
    exact .star f specifier file hf (SourceFile.referent?_eq_none_iff.mp hnone) hne hmem hlink

/-! ## Expanding a request -/

variable {ask : Request → Search (Option Symbol)} {seen : List Request}

theorem exists_expand_eq_some (hf : p.fileAt? r.file = some f) (h : p.IsAnswered r) :
    ∃ symbol seen', p.expand ask f r.name seen = (some symbol, seen') := by
  obtain ⟨f', declared, d, hf', hfirst, hmem, hscope, hname⟩ |
    ⟨f', specifier, target, hf', hfirst, hlink⟩ := h
  · obtain rfl : f = f' := Option.some.inj (hf.symm.trans hf')
    obtain ⟨d', hd'⟩ := SourceFile.exists_declaration?_eq_some hmem hscope hname
    simp [expand, SourceFile.referent?_eq_some_iff.mpr hfirst, hd']
  · obtain rfl : f = f' := Option.some.inj (hf.symm.trans hf')
    simp [expand, SourceFile.referent?_eq_some_iff.mpr hfirst, importOf, hlink]

theorem askAll_singleton {name : String} {target : Nat} :
    askAll ask name [target] seen = ask ⟨target, name⟩ seen := by
  rw [askAll]
  cases ask ⟨target, name⟩ seen with
  | mk found seen' => cases found <;> rfl

theorem importOf_eq_askAll {specifier name : String} {what : Imported}
    (hname : what.exported? = some name) :
    p.importOf ask f specifier what seen =
      askAll ask name (p.link? f specifier).toList seen := by
  cases hlink : p.link? f specifier with
  | none => simp [importOf, hlink, askAll]
  | some target =>
    rw [Option.toList_some, askAll_singleton]
    cases what with
    | named _ | default =>
      cases hname
      simp [importOf, hlink]
    | whole => cases hname

/-- To answer a request, a file asks some files for a name and takes the first answer. -/
structure AsksAll (p : Project) (f : PlacedFile) (r : Request) (name : String)
    (targets : List Nat) : Prop where
  expand_eq : ∀ ask seen, p.expand ask f r.name seen = askAll ask name targets seen
  forwards_iff : ∀ s, p.Forwards r s ↔ s.name = name ∧ s.file ∈ targets

theorem asksAll_nil (hexpand : ∀ ask seen, p.expand ask f r.name seen = (none, seen))
    (hforwards : ∀ s, ¬ p.Forwards r s) : p.AsksAll f r r.name [] where
  expand_eq ask seen := by rw [hexpand, askAll]
  forwards_iff s := by simp [hforwards s]

theorem exists_asksAll_of_referent?_eq_none (hf : p.fileAt? r.file = some f)
    (hnone : f.referent? r.name = none) : ∃ targets, p.AsksAll f r r.name targets := by
  have hforwards (s : Request) := forwards_iff_of_referent?_eq_none (s := s) hf hnone
  by_cases hdefault : r.name = "default"
  · refine ⟨[], asksAll_nil (fun ask seen => ?_) fun s => ?_⟩
    · simp only [expand, hnone, if_pos hdefault]
    · simp [hforwards, hdefault]
  · refine ⟨p.starTargets f, fun ask seen => ?_, fun s => ?_⟩
    · simp only [expand, hnone, if_neg hdefault]
    · simp [hforwards, hdefault]

theorem exists_asksAll_of_exportsFirst_own {declared : String} (hf : p.fileAt? r.file = some f)
    (hfirst : f.ExportsFirst r.name (.own declared)) (h : ¬ p.IsAnswered r) :
    ∃ name targets, p.AsksAll f r name targets := by
  have hd : f.declaration? f.rootScope declared = none := by
    refine Option.eq_none_iff_forall_ne_some.mpr fun d hd => h ?_
    obtain ⟨hmem, hscope, hname⟩ := SourceFile.declaration?_eq_some hd
    exact .own f declared d hf hfirst hmem hscope hname
  have hforwards (s : Request) : ¬ p.Forwards r s := not_forwards_of_exportsFirst_own hf hfirst
  refine ⟨_, _, asksAll_nil (fun ask seen => ?_) hforwards⟩
  simp only [expand, SourceFile.referent?_eq_some_iff.mpr hfirst, hd]

theorem exists_asksAll_of_exportsFirst_foreign {specifier : String} {what : Imported}
    (hf : p.fileAt? r.file = some f) (hfirst : f.ExportsFirst r.name (.foreign specifier what))
    (h : ¬ p.IsAnswered r) : ∃ name targets, p.AsksAll f r name targets := by
  have hexpand (ask seen) : p.expand ask f r.name seen = p.importOf ask f specifier what seen := by
    simp only [expand, SourceFile.referent?_eq_some_iff.mpr hfirst]
  have hforwards (s : Request) := forwards_iff_of_exportsFirst (s := s) hf hfirst
  cases hname : what.exported? with
  | some name =>
    refine ⟨name, (p.link? f specifier).toList, fun ask seen => ?_, fun s => ?_⟩
    · rw [hexpand, importOf_eq_askAll hname]
    · simp [hforwards, hname, eq_comm]
  | none =>
    obtain rfl := Imported.exported?_eq_none_iff.mp hname
    have hlink : p.link? f specifier = none := by
      refine Option.eq_none_iff_forall_ne_some.mpr fun target hlink => h ?_
      exact .whole f specifier target hf hfirst hlink
    refine ⟨_, _, asksAll_nil (fun ask seen => ?_) fun s => ?_⟩
    · rw [hexpand, importOf, hlink]
    · simp [hforwards, hname]

/-- A file that does not answer a request asks all files to which it forwards it. -/
theorem exists_asksAll (hf : p.fileAt? r.file = some f) (h : ¬ p.IsAnswered r) :
    ∃ name targets, p.AsksAll f r name targets := by
  cases hreferent : f.referent? r.name with
  | none => exact ⟨r.name, exists_asksAll_of_referent?_eq_none hf hreferent⟩
  | some referent =>
    have hfirst := SourceFile.referent?_eq_some_iff.mp hreferent
    cases referent with
    | own declared => exact exists_asksAll_of_exportsFirst_own hf hfirst h
    | foreign specifier what => exact exists_asksAll_of_exportsFirst_foreign hf hfirst h

end Project

/-! ## The requests of a project -/

/-- The name for which an export asks another file. -/
def Export.asked? : Export → Option String
  | .named _ (.foreign _ what) => what.exported?
  | _ => none

/-- The name for which a declaration asks another file. -/
def Declaration.asked? (d : Declaration) : Option String :=
  match d.origin with
  | .imported _ what => what.exported?
  | .here => none

/-- The names for which a file asks others, whatever it is asked for. -/
def SourceFile.askedNames (f : SourceFile) : List String :=
  f.facts.exports.filterMap Export.asked? ++ f.facts.declarations.filterMap Declaration.asked?

theorem SourceFile.length_askedNames_le (f : SourceFile) :
    f.askedNames.length ≤ f.facts.exports.length + f.facts.declarations.length := by
  rw [askedNames, List.length_append]
  exact Nat.add_le_add (List.length_filterMap_le ..) (List.length_filterMap_le ..)

namespace Project

variable {p : Project} {f : PlacedFile} {r s : Request} {queried : List String}

/-- The names for which files may be asked, if they are asked for these. -/
def names (p : Project) (queried : List String) : List String :=
  queried ++ p.files.flatMap SourceFile.askedNames

/-- The requests that may be made, if these names are asked for. -/
def requests (p : Project) (queried : List String) : Finset Request :=
  (Finset.range p.files.length ×ˢ (p.names queried).toFinset).image fun (file, name) =>
    ⟨file, name⟩

theorem mem_requests :
    r ∈ p.requests queried ↔ r.file < p.files.length ∧ r.name ∈ p.names queried := by
  obtain ⟨file, name⟩ := r
  simp [requests]

theorem card_requests_le :
    (p.requests queried).card ≤ p.files.length * (p.names queried).toFinset.card := by
  refine Finset.card_image_le.trans ((Finset.card_product _ _).trans_le ?_)
  rw [Finset.card_range]

theorem card_requests_lt_searchDepth (h : queried.length ≤ 2) :
    (p.requests queried).card < p.searchDepth := by
  have hnames (files : List SourceFile) :
      queried.length + (files.flatMap SourceFile.askedNames).length ≤ files.foldr
        (fun f count => f.facts.exports.length + f.facts.declarations.length + count) 2 := by
    induction files with
    | nil => simpa using h
    | cons f files ih =>
      have := f.length_askedNames_le
      simp only [List.flatMap_cons, List.length_append, List.foldr_cons]
      omega
  calc (p.requests queried).card
      ≤ p.files.length * (p.names queried).toFinset.card := card_requests_le
    _ ≤ p.files.length * (p.names queried).length :=
        Nat.mul_le_mul_left _ (List.toFinset_card_le _)
    _ ≤ _ := by
        rw [names, List.length_append]
        exact Nat.mul_le_mul_left _ (hnames p.files)
    _ < p.searchDepth := Nat.lt_succ_self _

theorem mem_requests_of_forwards (h : p.Forwards r s) (hr : r ∈ p.requests queried) :
    s ∈ p.requests queried := by
  obtain ⟨f, specifier, what, name, target, hf, hfirst, hname, hlink⟩ |
    ⟨f, specifier, target, -, -, -, -, hlink⟩ := h
  · refine mem_requests.mpr ⟨lt_length_of_link? hlink, List.mem_append_right _ ?_⟩
    refine List.mem_flatMap.mpr ⟨_, (fileAt?_eq_some hf).1, List.mem_append_left _ ?_⟩
    exact List.mem_filterMap.mpr ⟨_, hfirst.mem, hname⟩
  · exact mem_requests.mpr ⟨lt_length_of_link? hlink, (mem_requests.mp hr).2⟩

end Project

end RootCause.Scope
