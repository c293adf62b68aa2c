import RootCause.Scope.SourceFile
import RootCause.Scope.Specifier

/-!
# Exports across files

What a name that a file exports stands for, wherever it is declared. A name exported explicitly is
the file's own or comes from another file; failing that, it is looked for in the files of which the
file exports all names, one after the other. Files may export from each other in circles, so a
search keeps the requests that it has expanded and expands none twice.

Within a project a file is known by its place among the files (`PlacedFile`). Symbols, requests and
links hold places, so that what they are depends on the order of the files.
-/

namespace RootCause.Scope

/-- Source files with the tab stops in which positions in them are counted. Of two files with the
same path the later one counts. -/
structure Project where
  files : List SourceFile
  tabs : TabStops

/-- A source file with its place among those of a project. -/
structure PlacedFile extends SourceFile where
  place : Nat

/-- What a name stands for. -/
inductive Symbol
  /-- A name declared in a scope of the file at a place. -/
  | binding (file : Nat) (scope : ScopeKey) (name : String)
  /-- The file at a place as a whole. -/
  | module (file : Nat)
  deriving DecidableEq, Repr

/-- The question what the file at a place exports under a name. -/
structure Request where
  file : Nat
  name : String
  deriving DecidableEq, Repr

/-- A search for a symbol: it takes the requests expanded before it to its result and the requests
expanded after it. -/
abbrev Search (α : Type) := List Request → α × List Request

namespace Project

/-- The project of these sources, read by `parse`. -/
def ofSources (parse : Source.Reader) (tabs : TabStops) (sources : List (Path × List Char)) :
    Project :=
  ⟨sources.map fun (path, text) => .ofText parse path text, tabs⟩

variable (p : Project)

/-- The file at a place. -/
def fileAt? (place : Nat) : Option PlacedFile := p.files[place]?.map (⟨·, place⟩)

/-- The place of the file with this path in normal form. -/
def place? (path : Path) : Option Nat :=
  (p.files.zipIdx.filter fun (f, _) => f.path = path).getLast?.map Prod.snd

/-- The file with this path. -/
def file? (path : Path) : Option PlacedFile := (p.place? path.normalize).bind p.fileAt?

/-- The place of the file that a specifier in a file means. -/
def link? (f : PlacedFile) (specifier : String) : Option Nat :=
  (resolve? (fun path => (p.place? path).isSome) specifier f.path).bind p.place?

/-- What is imported from a module, where `ask` answers requests. A module that is no file of the
project gives nothing. -/
def importOf (ask : Request → Search (Option Symbol)) (f : PlacedFile) (specifier : String)
    (what : Imported) : Search (Option Symbol) := fun seen =>
  match p.link? f specifier with
  | none => (none, seen)
  | some target =>
    match what with
    | .whole => (some (.module target), seen)
    | .default => ask ⟨target, "default"⟩ seen
    | .named name => ask ⟨target, name⟩ seen

/-- What a declared name stands for: itself, or what it imports if that is found. -/
def follow (ask : Request → Search (Option Symbol)) (f : PlacedFile) (d : Declaration) :
    Search Symbol := fun seen =>
  let itself := Symbol.binding f.place d.scope d.name
  match d.origin with
  | .here => (itself, seen)
  | .imported specifier what =>
    match p.importOf ask f specifier what seen with
    | (some found, seen) => (found, seen)
    | (none, seen) => (itself, seen)

/-- The first answer that some files give to the request for a name. -/
def askAll (ask : Request → Search (Option Symbol)) (name : String) :
    List Nat → Search (Option Symbol)
  | [], seen => (none, seen)
  | target :: targets, seen =>
    match ask ⟨target, name⟩ seen with
    | (some found, seen) => (some found, seen)
    | (none, seen) => askAll ask name targets seen

/-- The places of the files of which a file exports all names. -/
def starTargets (f : PlacedFile) : List Nat := f.starSpecifiers.filterMap (p.link? f)

/-- What a file exports under a name, where `ask` answers requests to other files. An explicit
export that leads nowhere is an end, and no default export comes with all names of a file. -/
def expand (ask : Request → Search (Option Symbol)) (f : PlacedFile) (name : String) :
    Search (Option Symbol) := fun seen =>
  match f.referent? name with
  | some (.own declared) =>
    match f.declaration? f.rootScope declared with
    | some d =>
      let (found, seen) := p.follow ask f d seen
      (some found, seen)
    | none => (none, seen)
  | some (.foreign specifier what) => p.importOf ask f specifier what seen
  | none =>
    if name = "default" then (none, seen) else askAll ask name (p.starTargets f) seen

/-- The answer to a request in a search of a limited depth. A request that has been expanded before
finds nothing. -/
def search : Nat → Request → Search (Option Symbol)
  | 0, _, seen => (none, seen)
  | depth + 1, r, seen =>
    if r ∈ seen then (none, seen)
    else
      match p.fileAt? r.file with
      | none => (none, seen)
      | some f => p.expand (search depth) f r.name (r :: seen)

/-- A depth that no search goes beyond: there are no more requests than files and names, and each
name but two comes from an export or a declaration. -/
def searchDepth : Nat :=
  let names := p.files.foldr
    (fun f count => f.facts.exports.length + f.facts.declarations.length + count) 2
  p.files.length * names + 1

/-- What a file exports under a name. -/
def exportOf : Request → Search (Option Symbol) := p.search p.searchDepth

end Project

end RootCause.Scope
