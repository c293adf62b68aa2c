import RootCause.Text.Search

/-!
# Paths

Slash-separated paths as text, with their reading as a list of components: empty pieces and `.`
carry no meaning, except a `.` that a relative path starts with. Two paths are the same when their
components are. `normalize` cancels each `..` against the component before it.
-/

namespace RootCause

/-- A path, kept as it was written. -/
structure Path where
  text : String
  deriving DecidableEq, Inhabited, Repr

namespace Path

/-- What a path is made of. -/
inductive Component
  /-- The slash that an absolute path starts with. -/
  | root
  /-- A `.` at the start of a relative path. -/
  | current
  /-- A `..`. -/
  | parent
  /-- The name of a directory or file. -/
  | name (s : List Char)
  deriving DecidableEq

/-- How a component is written. -/
def Component.text : Component → List Char
  | .root => ['/']
  | .current => ['.']
  | .parent => ['.', '.']
  | .name s => s

/-- The component that a piece between slashes stands for, if any. -/
def Component.ofPiece? (piece : List Char) : Option Component :=
  if piece = [] ∨ piece = ['.'] then none
  else if piece = ['.', '.'] then some .parent
  else some (.name piece)

/-- The components of a path given as characters. -/
def componentsOf : List Char → List Component
  | '/' :: rest => .root :: (rest.splitOn '/').filterMap Component.ofPiece?
  | s =>
    match s.splitOn '/' with
    | ['.'] :: pieces => .current :: pieces.filterMap Component.ofPiece?
    | pieces => pieces.filterMap Component.ofPiece?

/-- The components of a path. -/
def components (p : Path) : List Component := componentsOf p.text.toList

/-- Whether two paths have the same components. -/
def same (p q : Path) : Bool := p.components == q.components

/-- Whether a path starts with a slash. -/
def isAbsolute (p : Path) : Bool := p.text.toList.head? == some '/'

/-- The order of two components: root, `.`, `..`, then names by code points. -/
def Component.compare : Component → Component → Ordering
  | .root, .root => .eq
  | .root, _ => .lt
  | _, .root => .gt
  | .current, .current => .eq
  | .current, _ => .lt
  | _, .current => .gt
  | .parent, .parent => .eq
  | .parent, _ => .lt
  | _, .parent => .gt
  | .name s, .name t => compareOfLessAndEq s t

/-- Lexicographic order by components. -/
def compareComponents : List Component → List Component → Ordering
  | [], [] => .eq
  | [], _ :: _ => .lt
  | _ :: _, [] => .gt
  | c :: cs, d :: ds => (c.compare d).then (compareComponents cs ds)

/-- Whether one path comes before another or at the same place in the order by components. -/
def le (p q : Path) : Bool := (compareComponents p.components q.components).isLE

/-! ## Building paths -/

/-- A text with a further piece: a slash goes between them unless there is one already, and an
absolute piece takes the place of the text. -/
def push (base piece : List Char) : List Char :=
  if piece.head? = some '/' then piece
  else if base = [] ∨ base.getLast? = some '/' then base ++ piece
  else base ++ '/' :: piece

/-- A path below another one; an absolute path stays what it is. -/
def join (p : Path) (s : String) : Path := ⟨String.ofList (push p.text.toList s.toList)⟩

/-- The path that is written from some components. -/
def write (cs : List Component) : List Char :=
  cs.foldl (fun text c => push text c.text) []

/-- The path of some components. -/
def ofComponents (cs : List Component) : Path := ⟨String.ofList (write cs)⟩

/-! ## Normal form -/

/-- Adds a component to a path in normal form, whose last component comes first: `.` changes
nothing, and `..` takes the last component away unless there is none or only the root, where it is
kept. -/
def Component.resolve (done : List Component) : Component → List Component
  | .current => done
  | .parent =>
    match done with
    | [] => [.parent]
    | .root :: rest => .parent :: .root :: rest
    | _ :: rest => rest
  | c => c :: done

/-- The components of the normal form. -/
def normalComponents (cs : List Component) : List Component :=
  (cs.foldl Component.resolve []).reverse

/-- The path without `.`, and with each `..` cancelled against the component before it. -/
def normalize (p : Path) : Path := ofComponents (normalComponents p.components)

/-! ## Names -/

/-- The path up to its last component, if that is not the root. -/
def parent? (p : Path) : Option Path :=
  match p.components.reverse with
  | [] => none
  | .root :: _ => none
  | _ :: rest => some (ofComponents rest.reverse)

/-- The last component, if it is a name. -/
def fileName? (p : Path) : Option (List Char) :=
  match p.components.getLast? with
  | some (.name s) => some s
  | _ => none

/-- The part of a file's name before its last dot, which is not the name's first character, and the
extension after it. -/
def splitExtension (name : List Char) : List Char × Option (List Char) :=
  match Text.splitLast? '.' name with
  | some ([], _) => (name, none)
  | some (stem, extension) => (stem, some extension)
  | none => (name, none)

/-- What follows the last dot of a file's name. -/
def extension? (p : Path) : Option String :=
  (p.fileName?.bind fun name => (splitExtension name).2).map String.ofList

/-- The path with another extension. -/
def withExtension (p : Path) (extension : String) : Path :=
  match p.components.reverse with
  | .name s :: rest =>
    ofComponents (.name ((splitExtension s).1 ++ '.' :: extension.toList) :: rest).reverse
  | _ => p

/-- The path with a dot and an extension after its last character. -/
def addExtension (p : Path) (extension : String) : Path :=
  ⟨p.text ++ "." ++ extension⟩

/-! ## Relative to a directory -/

/-- The pieces that carry no meaning in the middle of a path. -/
def isFiller (piece : List Char) : Bool := piece = [] ∨ piece = ['.']

/-- The pieces after the first `n` components, without the fillers around them. -/
def dropPieces : Nat → List (List Char) → List (List Char)
  | 0, pieces => ((pieces.dropWhile isFiller).reverse.dropWhile isFiller).reverse
  | _ + 1, [] => []
  | n + 1, piece :: pieces =>
    if isFiller piece then dropPieces (n + 1) pieces else dropPieces n pieces

/-- What is left of a path below the directory `base`, as it was written. A root or a `.` that a
path starts with is its first piece, which is a filler elsewhere and so is dropped by hand. -/
def relativeTo? (base p : Path) : Option Path :=
  let outer := base.components
  let pieces := p.text.toList.splitOn '/'
  if outer.isPrefixOf p.components then
    match outer with
    | [] => some p
    | .root :: inner | .current :: inner => some (written (dropPieces inner.length (pieces.drop 1)))
    | _ => some (written (dropPieces outer.length pieces))
  else none
where
  /-- The path with these pieces. -/
  written (pieces : List (List Char)) : Path := ⟨String.ofList (['/'].intercalate pieces)⟩

/-- The path as seen from the directory `base` if it lies below it, and else as it is. -/
def relativeTo (base p : Path) : Path := (relativeTo? base p).getD p

end Path

end RootCause
