import RootCause.Proofs.Scope.Backing
import RootCause.Scope.Access

/-!
# What a position asks for

The nodes around a position say which symbol it is about: a name in its scopes, or a member of what
such a name stands for, at any depth (`Reference`, `SourceFile.referenceAt?`). To resolve a
reference is to follow the declaration of the name and then to ask for one member after the other,
where what one step has expanded is not expanded by the next one (`Project.Resolves`). What is found
on the way stands for something, so there is a file to be asked for every member, and a position is
resolved in finitely many steps (`Project.resolves_resolve`). They expand no request twice, and no
more requests than there are files and names that can be asked for
(`Project.resolution_terminates`).
-/

namespace RootCause.Scope

open Source (Tree)

/-! ## References -/

/-- What the text at a position says about the symbol that it means. -/
inductive Reference
  /-- A name in some scopes. -/
  | name (scopes : List ScopeKey) (text : String)
  /-- A member of an object. -/
  | member (object : Reference) (key : String)
  /-- An access to an object that does not say to which member. -/
  | keyless (object : Reference)
  deriving DecidableEq

/-- The members that a reference asks for. -/
def Reference.keys : Reference → List String
  | .name .. => []
  | .member object key => object.keys ++ [key]
  | .keyless object => object.keys

namespace SourceFile

variable (f : SourceFile)

/-- An access to an object. One to an element of which no key is known stands for the object. -/
def accessReference (t : Tree) (object : Reference) : Reference :=
  match f.accessKey? t with
  | some key => .member object key
  | none => if t.is .memberExpression then .keyless object else object

mutual

/-- The reference that an expression made of a name and accesses to members is. -/
def reference? (scopes : List ScopeKey) : Tree → Option Reference
  | .node l children =>
    match l.kind with
    | .named .identifier => some (.name scopes (textOf f.source (.node l children)))
    | .named .memberExpression | .named .subscriptExpression =>
      (objectReference? scopes children).map (f.accessReference (.node l children))
    | _ => none

/-- The reference that the object among the parts of an access is. -/
def objectReference? (scopes : List ScopeKey) : List Tree → Option Reference
  | [] => none
  | t :: ts =>
    if t.label.field = some .object then reference? scopes t else objectReference? scopes ts

end

/-- The reference that a type of a module is. -/
def typeReference? (scopes : List ScopeKey) (t : Tree) : Option Reference :=
  match t.child? .module, t.child? .name with
  | some module, some name =>
    if module.is .identifier then
      some (.member (.name scopes (textOf f.source module)) (textOf f.source name))
    else none
  | _, _ => none

/-- The reference at the smallest of some nodes around each other. -/
def referenceAmong? : List Tree → Option Reference
  | [] => none
  | t :: above =>
    match t.kind with
    | .named .identifier | .named .typeIdentifier | .named .shorthandPropertyIdentifier =>
      some (.name (scopesOf above) (textOf f.source t))
    | .named .propertyIdentifier =>
      match above with
      | parent :: outer =>
        if parent.is .memberExpression && t.label.field == some .property then
          f.reference? (scopesOf outer) parent
        else none
      | [] => none
    | .named .memberExpression | .named .subscriptExpression => f.reference? (scopesOf above) t
    | .named .nestedTypeIdentifier => f.typeReference? (scopesOf above) t
    | _ => referenceAmong? above

/-- The reference that a range of the file is. -/
def referenceAt? (start stop : Nat) : Option Reference :=
  f.referenceAmong? (nodesAround start stop [] f.tree)

end SourceFile

namespace Project

variable (p : Project) (f : PlacedFile)

/-! ## The search for what a reference stands for -/

/-- What a reference stands for. -/
def resolve : Reference → Search (Option Symbol)
  | .name scopes text => p.lookup f scopes text
  | .member object key => fun seen =>
    match resolve object seen with
    | (some base, seen) =>
      let (found, seen) := p.memberOf base key seen
      (some found, seen)
    | (none, seen) => (none, seen)
  | .keyless object => fun seen => (none, (resolve object seen).2)

/-- What a reference stands for, if there is one. -/
def resolveSome (ref : Option Reference) : Search (Option Symbol) :=
  ref.elim (fun seen => (none, seen)) (p.resolve f)

variable {p f} {seen : List Request}

theorem accessOf_resolve {t : Tree} {object : Reference} :
    p.accessOf f t (p.resolve f object seen).1 (p.resolve f object seen).2 =
      p.resolve f (f.accessReference t object) seen := by
  rw [SourceFile.accessReference]
  cases hbase : p.resolve f object seen with
  | mk base after =>
    cases hkey : f.accessKey? t with
    | some key => cases base <;> simp [accessOf, hkey, resolve, hbase]
    | none =>
      by_cases hmember : t.is .memberExpression
      · cases base <;> simp [accessOf, hkey, hmember, resolve, hbase]
      · cases base <;> simp [accessOf, hkey, hmember, hbase]

mutual

theorem access_eq_resolveSome (scopes : List ScopeKey) (seen : List Request) (t : Tree) :
    p.access f scopes t seen = p.resolveSome f (f.reference? scopes t) seen := by
  obtain ⟨l, children⟩ := t
  have haccess : p.accessOf f (.node l children) (p.accessObject f scopes children seen).1
      (p.accessObject f scopes children seen).2 = p.resolveSome f
        ((f.objectReference? scopes children).map (f.accessReference (.node l children))) seen := by
    rw [accessObject_eq_resolveSome scopes seen children]
    cases f.objectReference? scopes children with
    | none => rfl
    | some object => exact accessOf_resolve
  simp only [access, SourceFile.reference?]
  split
  next identifier => simp [identifier, resolveSome, resolve]
  next member => simpa only [member] using haccess
  next subscript => simpa only [subscript] using haccess
  next other => simp [resolveSome]

theorem accessObject_eq_resolveSome (scopes : List ScopeKey) (seen : List Request)
    (ts : List Tree) :
    p.accessObject f scopes ts seen = p.resolveSome f (f.objectReference? scopes ts) seen := by
  cases ts with
  | nil => rw [accessObject, SourceFile.objectReference?]; rfl
  | cons t ts =>
    rw [accessObject, SourceFile.objectReference?]
    split
    · exact access_eq_resolveSome scopes seen t
    · exact accessObject_eq_resolveSome scopes seen ts

end

theorem nestedType_eq_resolveSome {scopes : List ScopeKey} {t : Tree} :
    p.nestedType f scopes t seen = p.resolveSome f (f.typeReference? scopes t) seen := by
  rw [nestedType, SourceFile.typeReference?]
  cases t.child? .module with
  | none => rfl
  | some module =>
    cases t.child? .name with
    | none => rfl
    | some name =>
      dsimp only
      split
      · rfl
      · rfl

theorem symbolOf_eq_resolveSome {ts : List Tree} :
    p.symbolOf f ts seen = p.resolveSome f (f.referenceAmong? ts) seen := by
  induction ts with
  | nil => rfl
  | cons t above ih =>
    unfold symbolOf SourceFile.referenceAmong?
    split
    next identifier => simp [identifier, resolveSome, resolve]
    next typeIdentifier => simp [typeIdentifier, resolveSome, resolve]
    next shorthand => simp [shorthand, resolveSome, resolve]
    next property =>
      cases above with
      | nil => simp [property, resolveSome]
      | cons parent outer =>
        by_cases hpart : parent.is .memberExpression && t.label.field == some .property
        · simpa [property, hpart] using access_eq_resolveSome (scopesOf outer) seen parent
        · simp [property, hpart, resolveSome]
    next member => simpa only [member] using access_eq_resolveSome (scopesOf above) seen t
    next subscript => simpa only [subscript] using access_eq_resolveSome (scopesOf above) seen t
    next nestedType => simpa only [nestedType] using nestedType_eq_resolveSome
    next other => simpa only using ih

/-! ## Runs for references -/

/-- How to find a member of a symbol: by a request if the symbol is a module, and otherwise, or if
that finds nothing, it is the symbol itself. -/
def memberPlan : Symbol → String → Plan
  | .module target, key => (Plan.ofRequest ⟨target, key⟩).orElse (.module target)
  | .binding file scope name, _ => ⟨[], some (.binding file scope name)⟩

variable {ref : Reference} {base symbol : Symbol} {key : String} {r : Request}
  {queried : List String} {result : Option Symbol × List Request}

theorem memberOf_eq_run :
    (some (p.memberOf base key seen).1, (p.memberOf base key seen).2) =
      (memberPlan base key).run p.exportOf seen := by
  cases base with
  | binding => rfl
  | module target =>
    rw [memberPlan, run_orElse, run_ofRequest, memberOf]
    cases p.exportOf ⟨target, key⟩ seen with
    | mk found after => cases found <;> rfl

theorem mem_asked_memberPlan :
    r ∈ (memberPlan base key).asked ↔ base = .module r.file ∧ key = r.name := by
  obtain ⟨file, name⟩ := r
  cases base <;> simp [memberPlan, Plan.ofRequest, Plan.orElse, eq_comm]

theorem otherwise_memberPlan : (memberPlan base key).otherwise = some base := by
  cases base <;> rfl

/-- What a reference of a file stands for, with the requests that are expanded to find it. -/
inductive Resolves (p : Project) (f : PlacedFile) :
    Reference → Option Symbol × List Request → Prop
  /-- A name that no scope declares stands for nothing. -/
  | undeclared {scopes : List ScopeKey} {text : String}
    (absent : scopes.findSome? (fun scope => f.declaration? scope text) = none) :
    Resolves p f (.name scopes text) (none, [])
  /-- A name stands for what its innermost declaration stands for. -/
  | declared {scopes : List ScopeKey} {text : String} {d : Declaration}
    {result : Option Symbol × List Request}
    (first : scopes.findSome? (fun scope => f.declaration? scope text) = some d)
    (run : p.Runs (p.followPlan f d) [] result) : Resolves p f (.name scopes text) result
  /-- A member of nothing is nothing. -/
  | absent {object : Reference} {key : String} {expanded : List Request}
    (nothing : Resolves p f object (none, expanded)) :
    Resolves p f (.member object key) (none, expanded)
  /-- A member is asked for once its object is known. -/
  | member {object : Reference} {key : String} {base : Symbol} {expanded : List Request}
    {result : Option Symbol × List Request} (known : Resolves p f object (some base, expanded))
    (run : p.Runs (memberPlan base key) expanded result) :
    Resolves p f (.member object key) result
  /-- An access without a key is nothing, whatever its object is. -/
  | keyless {object : Reference} {found : Option Symbol} {expanded : List Request}
    (known : Resolves p f object (found, expanded)) :
    Resolves p f (.keyless object) (none, expanded)

theorem mem_declarations_of_findSome? {scopes : List ScopeKey} {text : String} {d : Declaration}
    (h : scopes.findSome? (fun scope => f.declaration? scope text) = some d) :
    d ∈ f.facts.declarations := by
  obtain ⟨scope, -, hd⟩ := List.exists_of_findSome?_eq_some h
  exact (SourceFile.declaration?_eq_some hd).1

namespace Resolves

/-- A reference stands for one thing at most. -/
theorem unique {result' : Option Symbol × List Request} (h : p.Resolves f ref result)
    (h' : p.Resolves f ref result') : result = result' := by
  induction h generalizing result' with
  | undeclared absent =>
    cases h' with
    | undeclared => rfl
    | declared first => cases absent.symm.trans first
  | declared first run =>
    cases h' with
    | undeclared absent => cases absent.symm.trans first
    | declared first' run' =>
      obtain rfl := Option.some.inj (first.symm.trans first')
      exact run.unique run'
  | absent _ ih =>
    cases h' with
    | absent nothing => exact ih nothing
    | member known => cases ih known
  | member _ run ih =>
    cases h' with
    | absent nothing => cases ih nothing
    | member known run' =>
      cases ih known
      exact run.unique run'
  | keyless _ ih =>
    cases h' with
    | keyless known =>
      cases ih known
      rfl

/-- **What a reference stands for is in the project.** -/
theorem isBacked (h : p.Resolves f ref result) (hf : p.fileAt? f.place = some f) :
    ∀ symbol ∈ result.1, p.IsBacked symbol := by
  induction h with
  | undeclared => simp
  | declared first run =>
    exact run.isBacked fun _ => isBacked_of_mem_followPlan hf (mem_declarations_of_findSome? first)
  | absent => simp
  | member _ run ih =>
    refine run.isBacked ?_
    rw [otherwise_memberPlan]
    exact ih
  | keyless => simp

theorem nodup (h : p.Resolves f ref result) : result.2.Nodup := by
  induction h with
  | undeclared => exact List.nodup_nil
  | declared _ run => exact run.nodup List.nodup_nil
  | absent _ ih => exact ih
  | member _ run ih => exact run.nodup ih
  | keyless _ ih => exact ih

/-- To resolve a reference, only files of the project are asked. -/
theorem exists_fileAt? (h : p.Resolves f ref result) :
    ∀ r ∈ result.2, ∃ g, p.fileAt? r.file = some g := by
  induction h with
  | undeclared => simp
  | declared _ run => exact run.exists_fileAt? (by simp)
  | absent _ ih => exact ih
  | member _ run ih => exact run.exists_fileAt? ih
  | keyless _ ih => exact ih

/-- A module that a reference stands for is a file that can be asked. -/
theorem file_lt_length {object : Reference} {expanded : List Request}
    (h : p.Resolves f object (some base, expanded)) (hf : p.fileAt? f.place = some f)
    (hr : r ∈ (memberPlan base key).asked) : r.file < p.files.length := by
  obtain ⟨rfl, rfl⟩ := mem_asked_memberPlan.mp hr
  obtain ⟨g, hg⟩ := exists_fileAt?_of_isBacked_module (h.isBacked hf _ rfl)
  exact lt_length_of_fileAt? hg

/-- To resolve a reference, no other names are asked for than its keys and those that files ask
for. -/
theorem mem_requests (h : p.Resolves f ref result) (hf : p.fileAt? f.place = some f)
    (hkeys : ref.keys ⊆ queried) : ∀ r ∈ result.2, r ∈ p.requests queried := by
  induction h with
  | undeclared => simp
  | declared first run =>
    refine run.mem_requests (fun r hr => ?_) (by simp)
    exact mem_requests_of_mem_followPlan (fileAt?_eq_some hf).1
      (mem_declarations_of_findSome? first) hr
  | absent _ ih => exact ih (List.append_subset.mp hkeys).1
  | member known run ih =>
    obtain ⟨hobject, hkey⟩ := List.append_subset.mp hkeys
    refine run.mem_requests (fun r hr => ?_) (ih hobject)
    obtain ⟨-, rfl⟩ := mem_asked_memberPlan.mp hr
    refine Project.mem_requests.mpr ⟨known.file_lt_length hf hr, ?_⟩
    exact List.mem_append_left _ (hkey List.mem_cons_self)
  | keyless _ ih => exact ih hkeys

theorem length_le (h : p.Resolves f ref result) (hf : p.fileAt? f.place = some f) :
    result.2.length ≤ p.files.length * (p.names ref.keys).toFinset.card := by
  calc result.2.length = result.2.toFinset.card := (List.toFinset_card_of_nodup h.nodup).symm
    _ ≤ (p.requests ref.keys).card := Finset.card_le_card fun r hr =>
        h.mem_requests hf (List.Subset.refl _) r (List.mem_toFinset.mp hr)
    _ ≤ _ := card_requests_le

end Resolves

/-- The search for what a reference stands for is one by these rules. -/
theorem resolves_resolve (hf : p.fileAt? f.place = some f) (ref : Reference) :
    p.Resolves f ref (p.resolve f ref []) := by
  induction ref with
  | name scopes text =>
    rw [resolve, lookup]
    cases hfirst : scopes.findSome? fun scope => f.declaration? scope text with
    | none => exact .undeclared hfirst
    | some d =>
      refine .declared hfirst ((runs_iff fun r hr => ?_).mpr follow_eq_run)
      exact (mem_asked_followPlan hr).1
  | member object key ih =>
    simp only [resolve]
    cases hobject : p.resolve f object [] with
    | mk base expanded =>
      rw [hobject] at ih
      cases base with
      | none => exact .absent ih
      | some base =>
        exact .member ih ((runs_iff fun r hr => ih.file_lt_length hf hr).mpr memberOf_eq_run)
  | keyless object ih => exact .keyless ih

/-! ## Positions -/

variable {path : Path} {start stop : Nat}

/-- The search at a position is one for the reference there. -/
theorem resolves_symbolOf (hf : p.file? path = some f)
    (href : f.referenceAt? start stop = some ref) :
    p.Resolves f ref (p.symbolOf f (nodesAround start stop [] f.tree) []) := by
  rw [symbolOf_eq_resolveSome, ← SourceFile.referenceAt?, href]
  exact resolves_resolve (fileAt?_of_file? hf) ref

theorem symbolOf_of_referenceAt?_eq_none (href : f.referenceAt? start stop = none) :
    p.symbolOf f (nodesAround start stop [] f.tree) [] = (none, []) := by
  rw [symbolOf_eq_resolveSome, ← SourceFile.referenceAt?, href]
  rfl

/-- What is found at a position is in the project. -/
theorem isBacked_of_symbolAt? (hf : p.file? path = some f)
    (h : p.symbolAt? f start stop = some symbol) : p.IsBacked symbol := by
  cases href : f.referenceAt? start stop with
  | none =>
    rw [symbolAt?, symbolOf_of_referenceAt?_eq_none href] at h
    cases h
  | some ref => exact (resolves_symbolOf hf href).isBacked (fileAt?_of_file? hf) symbol h

/-! ## Every search ends -/

theorem runs_ofRequest_iff (hr : r.file < p.files.length) :
    p.Runs (.ofRequest r) seen result ↔ result = p.exportOf r seen := by
  rw [runs_iff fun s hs => by rwa [List.mem_singleton.mp hs], run_ofRequest]

theorem runs_importPlan_iff {specifier : String} {what : Imported} :
    p.Runs (p.importPlan f specifier what) seen result ↔
      result = p.importOf p.exportOf f specifier what seen := by
  rw [runs_iff fun r hr => lt_length_of_link? (mem_asked_importPlan.mp hr).1, importOf_eq_run]

theorem runs_followPlan_iff {d : Declaration} :
    p.Runs (p.followPlan f d) seen result ↔
      result = (some (p.follow p.exportOf f d seen).1, (p.follow p.exportOf f d seen).2) := by
  rw [runs_iff fun r hr => (mem_asked_followPlan hr).1, follow_eq_run]

/-- At a position of a file there is nothing to ask for, or there is a reference, and to resolve it
these requests are expanded, each once. There are no more of them than files and names: those that
imports and exports of the project name, and those of the members that the position asks for. -/
inductive ResolvesAt (p : Project) (f : PlacedFile) (start stop : Nat) (expanded : List Request) :
    Prop
  | nothing (absent : f.referenceAt? start stop = none)
    (unknown : p.symbolAt? f start stop = none) (unasked : expanded = [])
  | reference (ref : Reference) (present : f.referenceAt? start stop = some ref)
    (resolves : p.Resolves f ref (p.symbolAt? f start stop, expanded)) (nodup : expanded.Nodup)
    (length_le : expanded.length ≤ p.files.length * (p.names ref.keys).toFinset.card)

theorem resolvesAt_symbolOf (hf : p.file? path = some f) (start stop : Nat) :
    p.ResolvesAt f start stop (p.symbolOf f (nodesAround start stop [] f.tree) []).2 := by
  cases href : f.referenceAt? start stop with
  | none =>
    have hnothing : p.symbolOf f (nodesAround start stop [] f.tree) [] = (none, []) :=
      symbolOf_of_referenceAt?_eq_none href
    exact .nothing href (congrArg Prod.fst hnothing) (congrArg Prod.snd hnothing)
  | some ref =>
    have hresolves := resolves_symbolOf hf href
    exact .reference ref href hresolves hresolves.nodup
      (hresolves.length_le (fileAt?_of_file? hf))

/-- Every search for a symbol ends: each question has one run, which the search carries out. -/
structure SearchesEnd (p : Project) : Prop where
  /-- What a file exports. -/
  exports : ∀ r seen result, r.file < p.files.length →
    (p.Runs (.ofRequest r) seen result ↔ result = p.exportOf r seen)
  /-- What is imported from a module. -/
  imports : ∀ f specifier what seen result, p.Runs (p.importPlan f specifier what) seen result ↔
    result = p.importOf p.exportOf f specifier what seen
  /-- What a declaration stands for. -/
  declarations : ∀ f d seen result, p.Runs (p.followPlan f d) seen result ↔
    result = (some (p.follow p.exportOf f d seen).1, (p.follow p.exportOf f d seen).2)
  /-- What a position is about. -/
  positions : ∀ path f start stop, p.file? path = some f → ∃ expanded,
    p.symbolOf f (nodesAround start stop [] f.tree) [] = (p.symbolAt? f start stop, expanded) ∧
    p.ResolvesAt f start stop expanded

/-- **The search for a symbol ends in every project**, in whatever circles its files import and
export from each other, and at a position it expands no request twice. -/
theorem resolution_terminates (p : Project) : p.SearchesEnd where
  exports _ _ _ hr := runs_ofRequest_iff hr
  imports _ _ _ _ _ := runs_importPlan_iff
  declarations _ _ _ _ := runs_followPlan_iff
  positions _ _ start stop hf := ⟨_, rfl, resolvesAt_symbolOf hf start stop⟩

/-- Two files that export a name from each other, which a third one imports. -/
def exportCircle : Project := .ofSources Source.parse .standard [
  (⟨"/p/a.ts"⟩, "export { x } from './b'".toList),
  (⟨"/p/b.ts"⟩, "export { x } from './a'".toList),
  (⟨"/p/c.ts"⟩, "import { x } from './a'; x".toList)]

theorem resolution_terminates_exportCircle :
    0 < exportCircle.files.length ∧
    exportCircle.Runs (.ofRequest ⟨0, "x"⟩) [] (exportCircle.exportOf ⟨0, "x"⟩ []) ∧
    ∃ f, exportCircle.file? ⟨"/p/c.ts"⟩ = some f ∧ ∃ ref expanded,
      f.referenceAt? 25 26 = some ref ∧
      exportCircle.Resolves f ref (exportCircle.symbolAt? f 25 26, expanded) ∧
      expanded.length ≤ exportCircle.files.length * (exportCircle.names ref.keys).toFinset.card := by
  have hends := resolution_terminates exportCircle
  have hlt : 0 < exportCircle.files.length := by decide
  have href : ((exportCircle.file? ⟨"/p/c.ts"⟩).bind (·.referenceAt? 25 26)).isSome := by
    decide +kernel
  obtain ⟨ref, href⟩ := Option.isSome_iff_exists.mp href
  obtain ⟨f, hfile, href⟩ := Option.bind_eq_some_iff.mp href
  obtain ⟨expanded, -, hposition⟩ := hends.positions _ f 25 26 hfile
  cases hposition with
  | nothing absent => simp [href] at absent
  | reference ref' href' hresolves _ hle =>
    exact ⟨hlt, (hends.exports ⟨0, "x"⟩ _ _ hlt).mpr rfl, f, hfile, ref', expanded, href',
      hresolves, hle⟩

/-- The name that leads into the circle stands for itself. -/
example : (exportCircle.file? ⟨"/p/c.ts"⟩).bind (exportCircle.symbolAt? · 25 26) =
    some (.binding 2 ⟨0, 26, .program⟩ "x") := by
  decide +kernel

end Project

end RootCause.Scope
