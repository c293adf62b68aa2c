import Mathlib.Logic.Relation
import RootCause.Proofs.Path.NormalForm
import RootCause.Proofs.Scope.Requests
import RootCause.Scope.Load
import RootCause.Source.Parser

/-!
# What is loaded

Loading reads the files that its roots reach (`IsReached`). While files wait in a queue, every path
that is added to it is new and imported by a file that was read, and once the queue is empty, every
path that a loaded file imports has been in it (`Drains`). One step of the queue keeps that
(`Drains.visit`), and so does the whole run (`exists_drains_loadImports`,
`exists_drains_of_loadFiles`).

All candidates of a specifier are in normal form, so that a specifier means the same file among the
loaded ones as on the disk (`resolve?_of_imp`). So what is loaded is what the roots reach, with the
links between the files as they are on the disk (`Project.IsClosure`).
-/

namespace RootCause.Scope

variable {parse : Source.Reader} {disk : Disk} {specifier extension : String}
  {importer path target : Path}

/-! ## Candidates in normal form -/

theorem isExtension_of_mem (h : extension ∈ sourceExtensions) :
    Path.IsExtension extension.toList := by
  have hall : ∀ e ∈ sourceExtensions, '/' ∉ e.toList ∧ '.' ∉ e.toList ∧ e.toList ≠ [] := by decide
  obtain ⟨hslash, hdot, hne⟩ := hall extension h
  exact ⟨hslash, hdot, hne⟩

theorem isName_index (h : extension ∈ sourceExtensions) :
    Path.IsName s!"index.{extension}".toList := by
  have heq : s!"index.{extension}".toList = "index".toList ++ '.' :: extension.toList :=
    String.toList_append
  exact heq ▸ (isExtension_of_mem h).isName (by decide)

theorem normalize_sourceFor (htarget : target.normalize = target)
    (h : extension ∈ sourceExtensions) :
    (sourceFor target extension).normalize = sourceFor target extension := by
  rw [sourceFor]
  split_ifs
  · exact Path.normalize_withExtension htarget (isExtension_of_mem h)
  · exact Path.normalize_addExtension htarget (isExtension_of_mem h)

theorem normalize_of_mem_candidates (h : path ∈ candidates specifier importer) :
    path.normalize = path := by
  rw [candidates] at h
  split at h
  · next directory _ _ =>
    have htarget := Path.normalize_normalize (directory.join specifier)
    rcases List.mem_append.mp h with h | h
    · rcases List.mem_cons.mp h with rfl | h
      · exact htarget
      · obtain ⟨extension, hmem, rfl⟩ := List.mem_map.mp h
        exact normalize_sourceFor htarget hmem
    · obtain ⟨extension, hmem, rfl⟩ := List.mem_map.mp h
      exact Path.normalize_join htarget (isName_index hmem)
  · exact absurd h List.not_mem_nil

theorem normalize_of_resolve? {isFile : Path → Bool}
    (h : resolve? isFile specifier importer = some target) : target.normalize = target :=
  normalize_of_mem_candidates (List.mem_of_find?_eq_some h)

/-- Where there are fewer files, a specifier means the same file if that one is left. -/
theorem resolve?_of_imp {isFile isFile' : Path → Bool}
    (h : resolve? isFile specifier importer = some target)
    (himp : ∀ path, isFile' path → isFile path)
    (htarget : isFile' target) : resolve? isFile' specifier importer = some target := by
  obtain ⟨-, before, after, heq, hbefore⟩ := List.find?_eq_some_iff_append.mp h
  refine List.find?_eq_some_iff_append.mpr ⟨htarget, before, after, heq, fun path hmem => ?_⟩
  have hfalse : isFile path = false := by simpa using hbefore path hmem
  simpa using mt (himp path) (by simp [hfalse])

/-! ## Imports on a disk -/

/-- The file with this path on a disk, if it can be read. -/
def fileOn? (parse : Source.Reader) (disk : Disk) (path : Path) : Option SourceFile :=
  (disk.read? path).map (SourceFile.ofText parse path)

/-- A file that can be read imports another one. -/
def Imports (parse : Source.Reader) (disk : Disk) (path target : Path) : Prop :=
  ∃ f, fileOn? parse disk path = some f ∧ target ∈ importTargets disk f

/-- The paths that the roots reach: the least set of paths with the roots, and with what each of its
files that can be read imports. -/
inductive IsReached (parse : Source.Reader) (disk : Disk) (roots : List Path) : Path → Prop
  | root {path : Path} (h : path ∈ roots) : IsReached parse disk roots path.normalize
  | imported {path target : Path} {text : List Char} {specifier : String}
    (h : IsReached parse disk roots path) (read : disk.read? path = some text)
    (mem : specifier ∈ (SourceFile.ofText parse path text).facts.specifiers)
    (resolve : resolveOnDisk? disk specifier path = some target) :
    IsReached parse disk roots target.normalize

theorem isFile_of_read? {text : List Char} (h : disk.read? path = some text) :
    disk.isFile path := by
  rw [Disk.read?, Disk.read] at h
  rw [Disk.isFile]
  cases hentry : disk.entry path with
  | error e => simp [hentry, Except.bind, Except.toOption] at h
  | ok entry =>
    cases entry with
    | file text => rfl
    | directory => simp [hentry, Except.bind, Except.toOption] at h

theorem exists_read?_of_fileOn? {f : SourceFile} (h : fileOn? parse disk path = some f) :
    ∃ text, disk.read? path = some text ∧ f = .ofText parse path text := by
  obtain ⟨text, hread, rfl⟩ := Option.map_eq_some_iff.mp h
  exact ⟨text, hread, rfl⟩

theorem isSome_fileOn? : (fileOn? parse disk path).isSome = (disk.read? path).isSome :=
  Option.isSome_map

theorem path_of_fileOn? {f : SourceFile} (h : fileOn? parse disk path = some f)
    (hpath : path.normalize = path) : f.path = path := by
  obtain ⟨text, -, rfl⟩ := exists_read?_of_fileOn? h
  exact hpath

namespace IsReached

variable {roots : List Path}

theorem normalize_eq (h : IsReached parse disk roots path) : path.normalize = path := by
  cases h with
  | root _ => exact Path.normalize_normalize _
  | imported _ _ _ _ => exact Path.normalize_normalize _

theorem of_imports (h : IsReached parse disk roots path)
    (himports : Imports parse disk path target) : IsReached parse disk roots target := by
  obtain ⟨f, hf, htarget⟩ := himports
  obtain ⟨text, hread, rfl⟩ := exists_read?_of_fileOn? hf
  obtain ⟨specifier, hmem, heq⟩ := List.mem_filterMap.mp htarget
  obtain ⟨found, hfound, rfl⟩ := Option.map_eq_some_iff.mp heq
  have hpath : (SourceFile.ofText parse path text).path = path := h.normalize_eq
  exact .imported h hread hmem (hpath ▸ hfound)

theorem of_transGen (h : IsReached parse disk roots path)
    (himports : Relation.TransGen (Imports parse disk) path target) :
    IsReached parse disk roots target := by
  induction himports with
  | single h' => exact h.of_imports h'
  | tail _ h' ih => exact ih.of_imports h'

/-- What has the roots and all that its files import has everything that is reached. -/
theorem mem_of_closed {paths : List Path} (h : IsReached parse disk roots path)
    (hroots : ∀ path ∈ roots, path.normalize ∈ paths)
    (hclosed : ∀ path ∈ paths, ∀ target, Imports parse disk path target → target ∈ paths) :
    path ∈ paths := by
  induction h with
  | root h => exact hroots _ h
  | @imported path target text specifier hpath hread hmem hresolve ih =>
    refine hclosed path ih _ ⟨.ofText parse path text, by rw [fileOn?, hread]; rfl, ?_⟩
    have heq : (SourceFile.ofText parse path text).path = path := hpath.normalize_eq
    exact List.mem_filterMap.mpr ⟨specifier, hmem, by rw [heq, hresolve]; rfl⟩

end IsReached

/-! ## The queue -/

/-- What has been loaded when a queue has become empty into which `added` were put, where the paths
in `seen` had been in it before. -/
structure Drains (parse : Source.Reader) (disk : Disk) (seen queue added : List Path)
    (files : List SourceFile) : Prop where
  files_eq : files = (queue ++ added).filterMap (fileOn? parse disk)
  nodup : added.Nodup
  notMem_seen : ∀ path ∈ added, path ∉ seen
  /-- What was added comes from what waited first. -/
  reached : ∀ path ∈ added, ∃ first ∈ queue, Relation.TransGen (Imports parse disk) first path
  /-- Whatever the loaded files import has been in the queue. -/
  closed : ∀ f ∈ files, ∀ target ∈ importTargets disk f, target ∈ seen ++ added

/-- The paths that some files import and that are new. -/
def freshTargets (disk : Disk) (seen : List Path) (files : List SourceFile) : List Path :=
  distinct ((files.flatMap (importTargets disk)).filter fun t => !seen.contains t)

theorem mem_freshTargets {seen : List Path} {files : List SourceFile} :
    target ∈ freshTargets disk seen files ↔
      (∃ f ∈ files, target ∈ importTargets disk f) ∧ target ∉ seen := by
  simp [freshTargets]

namespace Drains

variable {seen queue added front : List Path} {files : List SourceFile}

theorem empty (parse : Source.Reader) (disk : Disk) (seen : List Path) :
    Drains parse disk seen [] [] [] :=
  ⟨rfl, .nil, by simp, by simp, by simp⟩

/-- The front of a queue is visited: what can be read there is loaded, and what that imports goes to
the queue's end. -/
theorem visit {loaded : List SourceFile} {fresh : List Path}
    (hloaded : front.filterMap (fileOn? parse disk) = loaded)
    (hfresh : freshTargets disk seen loaded = fresh)
    (h : Drains parse disk (seen ++ fresh) (queue ++ fresh) added files) :
    Drains parse disk seen (front ++ queue) (fresh ++ added) (loaded ++ files) := by
  have hmem : ∀ target, target ∈ fresh ↔
      (∃ f ∈ loaded, target ∈ importTargets disk f) ∧ target ∉ seen :=
    fun target => hfresh ▸ mem_freshTargets
  have hfront : ∀ target ∈ fresh, ∃ first ∈ front, Imports parse disk first target := by
    intro target htarget
    obtain ⟨⟨f, hf, hmemf⟩, -⟩ := (hmem target).mp htarget
    obtain ⟨first, hfirst, hfile⟩ := List.mem_filterMap.mp (hloaded ▸ hf)
    exact ⟨first, hfirst, f, hfile, hmemf⟩
  constructor
  case files_eq =>
    rw [h.files_eq, ← hloaded, ← List.filterMap_append, List.append_assoc, List.append_assoc]
  case nodup =>
    refine List.nodup_append.mpr ⟨hfresh ▸ nodup_distinct _, h.nodup, ?_⟩
    rintro path hpath _ hadded rfl
    exact h.notMem_seen path hadded (List.mem_append_right _ hpath)
  case notMem_seen =>
    intro path hpath
    rcases List.mem_append.mp hpath with hpath | hpath
    · exact ((hmem path).mp hpath).2
    · exact fun hseen => h.notMem_seen path hpath (List.mem_append_left _ hseen)
  case reached =>
    intro path hpath
    rcases List.mem_append.mp hpath with hpath | hpath
    · obtain ⟨first, hfirst, himports⟩ := hfront path hpath
      exact ⟨first, List.mem_append_left _ hfirst, .single himports⟩
    · obtain ⟨middle, hmiddle, htrans⟩ := h.reached path hpath
      rcases List.mem_append.mp hmiddle with hmiddle | hmiddle
      · exact ⟨middle, List.mem_append_right _ hmiddle, htrans⟩
      · obtain ⟨first, hfirst, himports⟩ := hfront middle hmiddle
        exact ⟨first, List.mem_append_left _ hfirst, .head himports htrans⟩
  case closed =>
    intro f hf target htarget
    rw [← List.append_assoc]
    rcases List.mem_append.mp hf with hf | hf
    · by_cases hseen : target ∈ seen
      · exact List.mem_append_left _ (List.mem_append_left _ hseen)
      · exact List.mem_append_left _
          (List.mem_append_right _ ((hmem target).mpr ⟨⟨f, hf, htarget⟩, hseen⟩))
    · exact h.closed f hf target htarget

end Drains

section Imports

variable {room : Nat} {seen queue : List Path}

theorem loadImports_nil : loadImports parse disk room seen [] = [] := by
  rw [loadImports]

theorem loadImports_cons_of_eq_none (hroom : room ≠ 0) (h : disk.read? path = none) :
    loadImports parse disk room seen (path :: queue) = loadImports parse disk room seen queue := by
  rw [loadImports, if_neg hroom, h]

theorem loadImports_cons_of_eq_some {text : List Char} (hroom : room ≠ 0)
    (h : disk.read? path = some text) :
    loadImports parse disk room seen (path :: queue) =
      .ofText parse path text :: loadImports parse disk (room - 1)
        (seen ++ freshTargets disk seen [.ofText parse path text])
        (queue ++ freshTargets disk seen [.ofText parse path text]) := by
  rw [loadImports, if_neg hroom, h, freshTargets, List.flatMap_singleton]

/-- A queue that does not run out of room becomes empty. -/
theorem exists_drains_loadImports (hroom : (loadImports parse disk room seen queue).length < room) :
    ∃ added, Drains parse disk seen queue added (loadImports parse disk room seen queue) := by
  induction room, seen, queue using loadImports.induct parse disk with
  | case1 room seen => exact ⟨[], loadImports_nil ▸ .empty parse disk seen⟩
  | case2 seen path queue => exact absurd hroom (Nat.not_lt_zero _)
  | case3 room seen path queue hne hread ih =>
    rw [loadImports_cons_of_eq_none hne hread] at hroom ⊢
    obtain ⟨added, h⟩ := ih hroom
    have hloaded : [path].filterMap (fileOn? parse disk) = [] := by simp [fileOn?, hread]
    have hfresh : freshTargets disk seen [] = [] := rfl
    exact ⟨added, Drains.visit hloaded hfresh (by simpa using h)⟩
  | case4 room seen path queue hne text hread f fresh ih =>
    have hfresh : freshTargets disk seen [f] = fresh := by rw [freshTargets, List.flatMap_singleton]
    rw [loadImports_cons_of_eq_some hne hread, hfresh] at hroom ⊢
    obtain ⟨added, h⟩ := ih (Nat.lt_sub_of_add_lt hroom)
    have hloaded : [path].filterMap (fileOn? parse disk) = [f] := by simp [fileOn?, hread, f]
    exact ⟨fresh ++ added, h.visit hloaded hfresh⟩

end Imports

/-! ## The roots -/

section Roots

variable {roots : List Path} {files : List SourceFile} {e : LoadError}

theorem loadRoots_of_forall (h : ∀ path ∈ roots, (disk.read? path).isSome) :
    loadRoots parse disk roots = .ok (roots.filterMap (fileOn? parse disk)) := by
  induction roots with
  | nil => rfl
  | cons path roots ih =>
    obtain ⟨hpath, hroots⟩ := List.forall_mem_cons.mp h
    have hrest := ih hroots
    rw [loadRoots] at hrest ⊢
    cases hread : disk.read path with
    | error reason => simp [Disk.read?, hread, Except.toOption] at hpath
    | ok text =>
      have hfile : fileOn? parse disk path = some (.ofText parse path text) := by
        simp [fileOn?, Disk.read?, hread, Except.toOption]
      rw [List.mapM_cons, hread, List.filterMap_cons_some hfile, hrest]
      rfl

theorem exists_loadRoots_eq_error (hmem : path ∈ roots) (h : disk.read? path = none) :
    ∃ e, loadRoots parse disk roots = .error e := by
  induction roots with
  | nil => exact absurd hmem List.not_mem_nil
  | cons first roots ih =>
    simp only [loadRoots, List.mapM_cons] at ih ⊢
    cases hread : disk.read first with
    | error reason => exact ⟨_, rfl⟩
    | ok text =>
      rcases List.mem_cons.mp hmem with rfl | hmem
      · simp [Disk.read?, hread, Except.toOption] at h
      · obtain ⟨e, he⟩ := ih hmem
        exact ⟨e, by rw [he]; rfl⟩

theorem forall_isSome_of_loadRoots (h : loadRoots parse disk roots = .ok files) :
    ∀ path ∈ roots, (disk.read? path).isSome := by
  intro path hmem
  by_contra hnone
  obtain ⟨e, he⟩ := exists_loadRoots_eq_error hmem (Option.not_isSome_iff_eq_none.mp hnone)
  rw [he] at h
  contradiction

theorem loadFiles_of_forall (h : ∀ path ∈ roots.take maxFiles, (disk.read? path).isSome) :
    let loaded := (roots.take maxFiles).filterMap (fileOn? parse disk)
    let fresh := freshTargets disk roots loaded
    loadFiles parse disk roots =
      .ok (loaded ++ loadImports parse disk (maxFiles - loaded.length) (roots ++ fresh) fresh) := by
  intro loaded fresh
  rw [loadFiles, loadRoots_of_forall h]
  rfl

/-- As long as there is room, the roots are all read, and the queue that starts with them becomes
empty. -/
theorem exists_drains_of_loadFiles (h : loadFiles parse disk roots = .ok files)
    (hroom : files.length < maxFiles) :
    (∀ path ∈ roots, (disk.read? path).isSome) ∧
      ∃ added, Drains parse disk roots roots added files := by
  have hread : ∀ path ∈ roots.take maxFiles, (disk.read? path).isSome := by
    rw [loadFiles] at h
    cases hroots : loadRoots parse disk (roots.take maxFiles) with
    | error e =>
      rw [hroots] at h
      contradiction
    | ok loaded => exact forall_isSome_of_loadRoots hroots
  obtain rfl := Except.ok.inj ((loadFiles_of_forall hread).symm.trans h)
  have hlength : ((roots.take maxFiles).filterMap (fileOn? parse disk)).length =
      (roots.take maxFiles).length :=
    List.filterMap_length_eq_length.mpr fun path hmem => isSome_fileOn? ▸ hread path hmem
  have hshort : roots.length ≤ maxFiles := by
    rw [List.length_append, hlength, List.length_take] at hroom
    omega
  rw [List.take_of_length_le hshort] at hread hroom ⊢
  rw [List.length_append] at hroom
  obtain ⟨added, hdrains⟩ := exists_drains_loadImports (Nat.lt_sub_of_add_lt
    (Nat.add_comm _ _ ▸ hroom))
  have hvisit : Drains parse disk roots (roots ++ []) _ _ := Drains.visit rfl rfl hdrains
  rw [List.append_nil] at hvisit
  exact ⟨hread, _, hvisit⟩

theorem exists_mem_of_loadFiles_eq_error (h : loadFiles parse disk roots = .error e) :
    ∃ path ∈ roots, disk.read? path = none := by
  by_contra hall
  have hread : ∀ path ∈ roots.take maxFiles, (disk.read? path).isSome := fun path hmem =>
    Option.isSome_iff_ne_none.mpr fun hnone => hall ⟨path, List.mem_of_mem_take hmem, hnone⟩
  rw [loadFiles_of_forall hread] at h
  contradiction

namespace Drains

variable {added : List Path}

/-- The paths that have been in the queue are those that the roots reach. -/
theorem isReached_iff
    (h : Drains parse disk (roots.map Path.normalize) (roots.map Path.normalize) added files) :
    IsReached parse disk roots path ↔ path ∈ roots.map Path.normalize ++ added := by
  have hroot : ∀ path ∈ roots.map Path.normalize, IsReached parse disk roots path :=
    List.forall_mem_map.mpr fun _ => .root
  constructor
  · intro hreached
    refine hreached.mem_of_closed
      (fun path hmem => List.mem_append_left _ (List.mem_map_of_mem hmem)) ?_
    rintro path hmem target ⟨f, hf, htarget⟩
    exact h.closed f (h.files_eq ▸ List.mem_filterMap.mpr ⟨path, hmem, hf⟩) target htarget
  · intro hmem
    rcases List.mem_append.mp hmem with hmem | hmem
    · exact hroot path hmem
    · obtain ⟨first, hfirst, himports⟩ := h.reached path hmem
      exact (hroot first hfirst).of_transGen himports

theorem map_path_files
    (h : Drains parse disk (roots.map Path.normalize) (roots.map Path.normalize) added files) :
    files.map SourceFile.path =
      (roots.map Path.normalize ++ added).filter fun path => (disk.read? path).isSome := by
  have hpaths : ∀ path ∈ roots.map Path.normalize ++ added, path.normalize = path :=
    fun path hmem => (h.isReached_iff.mpr hmem).normalize_eq
  rw [h.files_eq]
  generalize roots.map Path.normalize ++ added = paths at hpaths
  induction paths with
  | nil => rfl
  | cons path paths ih =>
    obtain ⟨hpath, hrest⟩ := List.forall_mem_cons.mp hpaths
    cases hread : disk.read? path with
    | none =>
      have hfile : fileOn? parse disk path = none := by rw [fileOn?, hread]; rfl
      rw [List.filterMap_cons_none hfile, ih hrest, List.filter_cons_of_neg (by simp [hread])]
    | some text =>
      have hfile : fileOn? parse disk path = some (.ofText parse path text) := by
        rw [fileOn?, hread]
        rfl
      rw [List.filterMap_cons_some hfile, List.map_cons, ih hrest,
        List.filter_cons_of_pos (by simp [hread]), path_of_fileOn? hfile hpath]

end Drains

end Roots

/-! ## Links among the loaded files -/

theorem Project.exists_link_of_resolveOnDisk? {p : Project} {f : PlacedFile}
    (hread : ∀ path ∈ p.files.map SourceFile.path, (disk.read? path).isSome)
    (hresolve : resolveOnDisk? disk specifier f.path = some target)
    (hloaded : target.normalize ∈ p.files.map SourceFile.path) :
    ∃ g, (p.link? f specifier).bind p.fileAt? = some g ∧ g.path = target.normalize := by
  rw [normalize_of_resolve? hresolve] at hloaded ⊢
  have hlink : resolve? (fun path => (p.place? path).isSome) specifier f.path = some target := by
    refine resolve?_of_imp hresolve (fun path hpath => ?_) (isSome_place?_iff.mpr hloaded)
    obtain ⟨text, htext⟩ := Option.isSome_iff_exists.mp (hread _ (isSome_place?_iff.mp hpath))
    exact isFile_of_read? htext
  obtain ⟨place, hplace⟩ := exists_place? hloaded
  obtain ⟨g, hg, hpath⟩ := fileAt?_of_place? hplace
  exact ⟨g, by rw [link?, hlink, Option.bind_some, hplace, Option.bind_some, hg], hpath⟩

/-! ## The project -/

theorem Project.load_eq_error_iff {tabs : TabStops} {roots : List Path} {e : LoadError} :
    Project.load parse disk tabs roots = .error e ↔
      loadFiles parse disk (roots.map Path.normalize) = .error e := by
  rw [Project.load]
  cases loadFiles parse disk (roots.map Path.normalize) with
  | error e' =>
    constructor
    · exact fun h => congrArg Except.error (Except.error.inj h)
    · exact fun h => congrArg Except.error (Except.error.inj h)
  | ok files =>
    constructor
    · intro h
      contradiction
    · intro h
      contradiction

theorem loadFiles_of_load {tabs : TabStops} {roots : List Path} {p : Project}
    (h : Project.load parse disk tabs roots = .ok p) :
    loadFiles parse disk (roots.map Path.normalize) = .ok p.files := by
  rw [Project.load] at h
  cases hfiles : loadFiles parse disk (roots.map Path.normalize) with
  | error e =>
    rw [hfiles] at h
    contradiction
  | ok files =>
    rw [hfiles] at h
    obtain rfl : _ = p := Except.ok.inj h
    rfl

/-- The files of a project are what some roots reach on a disk. -/
structure Project.IsClosure (parse : Source.Reader) (disk : Disk) (roots : List Path)
    (p : Project) : Prop where
  /-- No file is there twice. -/
  nodup : (p.files.map SourceFile.path).Nodup
  /-- A file is there just if the roots reach it and it can be read. -/
  mem_iff : ∀ path, path ∈ p.files.map SourceFile.path ↔
    IsReached parse disk roots path ∧ (disk.read? path).isSome
  /-- Every file has its text on the disk. -/
  text : ∀ f ∈ p.files, ∃ text, disk.read? f.path = some text ∧ f = .ofText parse f.path text
  /-- A specifier that means one of the files on the disk means the same file in the project. -/
  link : ∀ place f, p.fileAt? place = some f → ∀ specifier ∈ f.facts.specifiers, ∀ target,
    resolveOnDisk? disk specifier f.path = some target →
    target.normalize ∈ p.files.map SourceFile.path →
    ∃ g, (p.link? f specifier).bind p.fileAt? = some g ∧ g.path = target.normalize

variable {tabs : TabStops} {roots : List Path}

theorem Project.exists_load_eq_error_iff
    (hroom : ∀ p, Project.load parse disk tabs roots = .ok p → p.files.length < maxFiles) :
    (∃ e, Project.load parse disk tabs roots = .error e) ↔
      ∃ path ∈ roots, disk.read? path.normalize = none := by
  constructor
  · rintro ⟨e, he⟩
    obtain ⟨path, hmem, hnone⟩ := exists_mem_of_loadFiles_eq_error (Project.load_eq_error_iff.mp he)
    obtain ⟨root, hroot, rfl⟩ := List.mem_map.mp hmem
    exact ⟨root, hroot, hnone⟩
  · rintro ⟨root, hroot, hnone⟩
    cases hload : Project.load parse disk tabs roots with
    | error e => exact ⟨e, rfl⟩
    | ok p =>
      have hread := (exists_drains_of_loadFiles (loadFiles_of_load hload) (hroom p hload)).1
      exact absurd (hread _ (List.mem_map_of_mem hroot)) (by simp [hnone])

theorem Project.isClosure_of_load {p : Project} (hroots : (roots.map Path.normalize).Nodup)
    (hload : Project.load parse disk tabs roots = .ok p) (hroom : p.files.length < maxFiles) :
    p.IsClosure parse disk roots := by
  obtain ⟨-, added, h⟩ := exists_drains_of_loadFiles (loadFiles_of_load hload) hroom
  have hmem : ∀ path, path ∈ p.files.map SourceFile.path ↔
      IsReached parse disk roots path ∧ (disk.read? path).isSome := by
    intro path
    rw [h.map_path_files, List.mem_filter, h.isReached_iff]
  refine ⟨?_, hmem, fun f hf => ?_, fun place f _ specifier _ target hresolve hloaded => ?_⟩
  · rw [h.map_path_files]
    refine List.Nodup.filter _ (List.nodup_append.mpr ⟨hroots, h.nodup, ?_⟩)
    rintro path hpath _ hadded rfl
    exact h.notMem_seen path hadded hpath
  · obtain ⟨path, hpath, hfile⟩ := List.mem_filterMap.mp (h.files_eq ▸ hf)
    have heq : f.path = path := path_of_fileOn? hfile (h.isReached_iff.mpr hpath).normalize_eq
    exact heq ▸ exists_read?_of_fileOn? hfile
  · exact Project.exists_link_of_resolveOnDisk? (fun path hpath => ((hmem path).mp hpath).2)
      hresolve hloaded

/-- **Loading gives what the roots reach.** As long as there is room, it fails if and only if a root
cannot be read, and otherwise ends with the files that the roots reach. -/
theorem Project.load_eq_importClosure (parse : Source.Reader) (disk : Disk) (tabs : TabStops)
    (roots : List Path) (hroots : (roots.map Path.normalize).Nodup)
    (hroom : ∀ p, Project.load parse disk tabs roots = .ok p → p.files.length < maxFiles) :
    ((∃ e, Project.load parse disk tabs roots = .error e) ↔
      ∃ path ∈ roots, disk.read? path.normalize = none) ∧
    ∀ p, Project.load parse disk tabs roots = .ok p → p.IsClosure parse disk roots :=
  ⟨Project.exists_load_eq_error_iff hroom, fun p hload =>
    Project.isClosure_of_load hroots hload (hroom p hload)⟩

/-- Two files that import from each other, one of them also from a file that is no text. -/
def circularDisk : Disk where
  entries :=
    [(["p".toList, "a.ts".toList], .file (some "import { y } from './b'; export let x".toList)),
      (["p".toList, "b.ts".toList],
        .file (some "import { x } from './a'; import './c'; export let y".toList)),
      (["p".toList, "c.ts".toList], .file none)]

theorem load_circularDisk :
    let roots : List Path := [⟨"/p/./a.ts"⟩]
    let loaded := Project.load Source.parse circularDisk ⟨8, by decide⟩ roots
    (roots.map Path.normalize).Nodup ∧ (∀ p, loaded = .ok p → p.files.length < maxFiles) ∧
    ∃ p, loaded = .ok p ∧ p.IsClosure Source.parse circularDisk roots := by
  intro roots loaded
  have hroots : (roots.map Path.normalize).Nodup := by decide +kernel
  have hread : ∀ path ∈ (roots.map Path.normalize).take maxFiles,
      (circularDisk.read? path).isSome := by decide +kernel
  have hroom : ∀ p, loaded = .ok p → p.files.length < maxFiles := by
    intro p hload
    have hqueue : freshTargets circularDisk (roots.map Path.normalize)
        (((roots.map Path.normalize).take maxFiles).filterMap (fileOn? Source.parse circularDisk)) =
          [⟨"/p/b.ts"⟩] := by decide +kernel
    have hb : circularDisk.read? ⟨"/p/b.ts"⟩ =
      some "import { x } from './a'; import './c'; export let y".toList := by decide +kernel
    have hfresh : freshTargets circularDisk (roots.map Path.normalize ++ [⟨"/p/b.ts"⟩])
      [.ofText Source.parse ⟨"/p/b.ts"⟩
        "import { x } from './a'; import './c'; export let y".toList] = [⟨"/p/c.ts"⟩] := by
      decide +kernel
    have hc : circularDisk.read? ⟨"/p/c.ts"⟩ = none := by decide +kernel
    have hlength : (((roots.map Path.normalize).take maxFiles).filterMap
      (fileOn? Source.parse circularDisk)).length = 1 := by decide +kernel
    have hfiles := Except.ok.inj ((loadFiles_of_forall hread).symm.trans (loadFiles_of_load hload))
    rw [← hfiles, hqueue, loadImports_cons_of_eq_some _ hb, hfresh, List.nil_append,
      loadImports_cons_of_eq_none _ hc, loadImports_nil, List.length_append, hlength]
    · decide
    · rw [hlength]
      decide
    · rw [hlength]
      decide
  obtain ⟨herror, hok⟩ :=
    Project.load_eq_importClosure Source.parse circularDisk ⟨8, by decide⟩ roots hroots hroom
  refine ⟨hroots, hroom, ?_⟩
  cases hload : loaded with
  | error e => exact absurd (herror.mp ⟨e, hload⟩) (by decide +kernel)
  | ok p => exact ⟨p, rfl, hok p hload⟩

end RootCause.Scope
