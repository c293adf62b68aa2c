import RootCause.Path
import RootCause.Text.Utf8

/-!
# Disks

What stands on a disk, as a finite table of places. A place is the list of names that lead to it
from the root, and every place on the way to one in the table is a directory. A path is followed
name by name, so that `..` leaves the directory that was really entered, and whatever comes after a
file is an error.
-/

namespace RootCause

/-- A place on a disk: the names that lead to it from the root. -/
abbrev Place := List (List Char)

/-- What stands at a place. -/
inductive Entry
  /-- A file, with its text if its octets are UTF-8. -/
  | file (text : Option (List Char))
  | directory
  deriving DecidableEq, Repr

/-- The file with these octets. -/
def Entry.ofBytes (bytes : List UInt8) : Entry := .file (Text.decode? bytes)

/-- Why a path cannot be followed or read. -/
inductive DiskError
  | notFound
  | notDirectory
  | isDirectory
  | nameTooLong
  /-- There is a NUL character in the path. -/
  | nul
  /-- The file is not UTF-8. -/
  | notText
  deriving DecidableEq, Repr

/-- The text of a disk error. -/
def DiskError.message : DiskError → String
  | .notFound => "No such file or directory (os error 2)"
  | .notDirectory => "Not a directory (os error 20)"
  | .isDirectory => "Is a directory (os error 21)"
  | .nameTooLong => "File name too long (os error 36)"
  | .nul => "file name contained an unexpected NUL byte"
  | .notText => "stream did not contain valid UTF-8"

/-- A disk, and the directory at which relative paths start. -/
structure Disk where
  entries : List (Place × Entry)
  current : Place := []
  deriving DecidableEq

namespace Disk

/-- The number of octets that a name may have. -/
def maxName : Nat := 255

/-- What stands at a place: the first entry for it, or a directory if it is on the way to one. -/
def at? (d : Disk) (place : Place) : Option Entry :=
  match d.entries.find? fun e => e.1 = place with
  | some (_, entry) => some entry
  | none =>
    if place = [] ∨ d.entries.any (fun e => place.isPrefixOf e.1) then some .directory else none

/-- The place to which a piece of a path leads from another place. -/
def step (d : Disk) (place : Place) (piece : List Char) : Except DiskError Place :=
  match d.at? place with
  | some .directory =>
    if piece = ['.'] then .ok place
    else if piece = ['.', '.'] then .ok place.dropLast
    else if maxName < Text.byteLength piece then .error .nameTooLong
    else if (d.at? (place ++ [piece])).isSome then .ok (place ++ [piece])
    else .error .notFound
  | some (.file _) => .error .notDirectory
  | none => .error .notFound

/-- The place to which some pieces of a path lead. -/
def walk (d : Disk) (place : Place) : List (List Char) → Except DiskError Place
  | [] => .ok place
  | piece :: pieces => (d.step place piece).bind fun place => d.walk place pieces

/-- The place that a path names. A slash at its end asks for a directory. -/
def locate (d : Disk) (path : Path) : Except DiskError Place :=
  let s := path.text.toList
  if s.contains '\x00' then .error .nul
  else if s.isEmpty then .error .notFound
  else
    let pieces := (s.splitOn '/').filter fun piece => !piece.isEmpty
    let ending := if s.getLast? = some '/' then [['.']] else []
    d.walk (if path.isAbsolute then [] else d.current) (pieces ++ ending)

/-- What stands where a path leads. -/
def entry (d : Disk) (path : Path) : Except DiskError Entry :=
  (d.locate path).bind fun place =>
    match d.at? place with
    | some entry => .ok entry
    | none => .error .notFound

/-- The text of a file. -/
def read (d : Disk) (path : Path) : Except DiskError (List Char) :=
  (d.entry path).bind fun
    | .file (some text) => .ok text
    | .file none => .error .notText
    | .directory => .error .isDirectory

/-- The text of a file, if it can be read. -/
def read? (d : Disk) (path : Path) : Option (List Char) := (d.read path).toOption

/-- Whether a path names a file. -/
def isFile (d : Disk) (path : Path) : Bool :=
  match d.entry path with
  | .ok (.file _) => true
  | _ => false

/-- Fails unless a path names a directory. -/
def enter (d : Disk) (path : Path) : Except DiskError Unit :=
  (d.entry path).bind fun
    | .directory => .ok ()
    | .file _ => .error .notDirectory

/-- The path of a place from the root on. -/
def pathOf (place : Place) : Path :=
  .ofComponents (.root :: place.map .name)

/-- The path from the root on of what a path names. -/
def canonical (d : Disk) (path : Path) : Except DiskError Path := (d.locate path).map pathOf

end Disk

end RootCause
