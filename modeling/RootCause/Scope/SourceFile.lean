import RootCause.Path
import RootCause.Scope.Facts
import RootCause.Source.Rows

/-!
# Source files

A source file with its syntax tree and what the tree says about names. The tree is the one that a
reader of texts gives the file (`SourceFile.ofText`).
-/

namespace RootCause.Scope

open Source (Tree)

/-- The extensions of the files that can be read for their names. -/
def knownExtensions : List String := ["ts", "tsx", "mts", "cts", "js", "jsx", "mjs", "cjs"]

/-- The extensions of the files in which angle brackets open markup. -/
def markupExtensions : List String := ["tsx", "jsx", "js", "mjs", "cjs"]

/-- Whether a file can be read for its names. -/
def isSupported (path : Path) : Bool := path.extension?.any knownExtensions.contains

/-- Whether angle brackets open markup in a file. -/
def hasMarkup (path : Path) : Bool := path.extension?.any markupExtensions.contains

/-- A source file. -/
structure SourceFile where
  /-- Its path in normal form. -/
  path : Path
  source : List Char
  tree : Tree
  facts : FileFacts

namespace SourceFile

/-- The source file with this text, read by `parse`. -/
def ofText (parse : Source.Reader) (path : Path) (source : List Char) : SourceFile :=
  let path := path.normalize
  let tree := parse (hasMarkup path) source
  ⟨path, source, tree, .collect source tree⟩

/-- The scope of the whole file, as its tree has it. -/
def rootScope (f : SourceFile) : ScopeKey := ⟨f.tree.start, f.tree.stop, f.tree.nodeKind⟩

/-- The declarations of a name in a scope, the one that counts first. -/
def declarationsOf (f : SourceFile) (scope : ScopeKey) (name : String) : List Declaration :=
  f.facts.declarations.filter fun d => d.scope = scope ∧ d.name = name

/-- The declaration of a name in a scope that counts. -/
def declaration? (f : SourceFile) (scope : ScopeKey) (name : String) : Option Declaration :=
  f.facts.declarations.find? fun d => d.scope = scope ∧ d.name = name

/-- What the file's first export under a name stands for. -/
def referent? (f : SourceFile) (name : String) : Option Referent :=
  f.facts.exports.findSome? fun
    | .named exported referent => if exported = name then some referent else none
    | .star _ => none

/-- The modules of which the file exports all names. -/
def starSpecifiers (f : SourceFile) : List String :=
  f.facts.exports.filterMap fun
    | .star specifier => some specifier
    | .named .. => none

theorem head?_declarationsOf (f : SourceFile) (scope : ScopeKey) (name : String) :
    (f.declarationsOf scope name).head? = f.declaration? scope name := by
  simp [declarationsOf, declaration?]

end SourceFile

end RootCause.Scope
