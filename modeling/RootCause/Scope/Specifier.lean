import RootCause.Path

/-!
# Module specifiers

A specifier that starts with `./` or `../` names a file by its place relative to the file it stands
in; any other one names a package, which is not looked for. The name may leave out the extension,
carry the extension of the compiled file, or name a directory with an index file, so that there is
a list of candidates, of which the first that exists is meant.
-/

namespace RootCause.Scope

/-- The extensions that a specifier may leave out, in the order in which they are tried. -/
def sourceExtensions : List String := ["ts", "tsx", "js", "jsx", "mts", "mjs"]

/-- Whether a specifier names a file relative to the one it stands in. -/
def isRelative (specifier : String) : Bool :=
  "./".toList.isPrefixOf specifier.toList || "../".toList.isPrefixOf specifier.toList

/-- The source file of this extension that a target without its extension, or with that of a
compiled file, may mean. -/
def sourceFor (target : Path) (extension : String) : Path :=
  if target.extension?.any sourceExtensions.contains then target.withExtension extension
  else target.addExtension extension

/-- The files that a specifier in the file `importer` may mean, the preferred one first. -/
def candidates (specifier : String) (importer : Path) : List Path :=
  match isRelative specifier, importer.parent? with
  | true, some directory =>
    let target := (directory.join specifier).normalize
    target :: sourceExtensions.map (sourceFor target) ++
      sourceExtensions.map fun e => target.join s!"index.{e}"
  | _, _ => []

/-- The file that a specifier means, where `isFile` says which files there are. -/
def resolve? (isFile : Path → Bool) (specifier : String) (importer : Path) : Option Path :=
  (candidates specifier importer).find? isFile

end RootCause.Scope
