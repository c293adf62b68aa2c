import RootCause.Json.Value

/-!
# TOML tables under construction

A table is defined once: by a header, by dotted keys, or by its parts alone until its header comes.
A header may add parts to a table of any kind, but a dotted key only to tables that dotted keys
define, except on the way to one; an array of tables is continued at its last element. Every key
has one value.
-/

namespace RootCause.Toml

/-- How a table came to be. -/
inductive Origin
  /-- By its header. -/
  | header
  /-- By the header of a part of it. -/
  | part
  /-- By a dotted key. -/
  | dotted
  deriving DecidableEq

/-- What a key stands for. -/
inductive Item
  | value (v : Json)
  | table (origin : Origin) (members : List (String × Item))
  /-- An array of tables: the elements that are complete, and the members of the last one. -/
  | tables (done : List Json) (members : List (String × Item))

/-- The members of a table. -/
abbrev Members := List (String × Item)

namespace Members

/-- The item of a key. -/
def get? (m : Members) (key : String) : Option Item := (m.find? fun e => e.1 == key).map (·.2)

/-- The members with a new item for a key, in the place of the old one or at the end. -/
def set (key : String) (item : Item) : Members → Members
  | [] => [(key, item)]
  | e :: m => if e.1 == key then (key, item) :: m else e :: set key item m

end Members

mutual

/-- An item as a value. -/
def Item.toJson : Item → Json
  | .value v => v
  | .table _ members => .obj (membersToJson members)
  | .tables done members => .arr (done ++ [.obj (membersToJson members)])

/-- Members as the members of an object. -/
def membersToJson : List (String × Item) → List (Json.Text × Json)
  | [] => []
  | (key, item) :: members => (some key, item.toJson) :: membersToJson members

end

/-- Gives a key with dots its value. -/
def assign (v : Json) : List String → Members → Option Members
  | [], _ => none
  | [key], m => if (m.get? key).isSome then none else some (m.set key (.value v))
  | key :: next :: rest, m =>
    match m.get? key with
    | none => (assign v (next :: rest) []).map fun inner => m.set key (.table .dotted inner)
    | some (.table origin inner) =>
      if origin = .header ∨ (rest = [] ∧ origin ≠ .dotted) then none
      else (assign v (next :: rest) inner).map fun inner => m.set key (.table origin inner)
    | some (.tables done inner) =>
      if rest = [] then none
      else (assign v (next :: rest) inner).map fun inner => m.set key (.tables done inner)
    | some (.value _) => none

/-- Changes the members of the table that a header path leads to. Tables on the way that are not
there yet are added. -/
def within (change : Members → Option Members) : List String → Members → Option Members
  | [], m => change m
  | key :: path, m =>
    match m.get? key with
    | none => (within change path []).map fun inner => m.set key (.table .part inner)
    | some (.table origin inner) =>
      (within change path inner).map fun inner => m.set key (.table origin inner)
    | some (.tables done inner) =>
      (within change path inner).map fun inner => m.set key (.tables done inner)
    | some (.value _) => none

/-- Defines the table of a key by a header. -/
def openTable (key : String) (m : Members) : Option Members :=
  match m.get? key with
  | none => some (m.set key (.table .header []))
  | some (.table .part inner) => some (m.set key (.table .header inner))
  | some _ => none

/-- Adds an element to the array of tables of a key. -/
def openElement (key : String) (m : Members) : Option Members :=
  match m.get? key with
  | none => some (m.set key (.tables [] []))
  | some (.tables done inner) =>
    some (m.set key (.tables (done ++ [.obj (membersToJson inner)]) []))
  | some _ => none

end RootCause.Toml
