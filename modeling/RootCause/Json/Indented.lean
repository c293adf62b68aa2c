import RootCause.Json.Printer

/-!
# Writing JSON over several lines

The indented form: every item and every member on a line of its own, two blanks further in than what
it belongs to, and a blank after the colon. Empty arrays and objects stay in one piece.
-/

namespace RootCause.Json

/-- The end of a line and the blanks before what is nested `depth` deep. -/
def lineBreak (depth : Nat) : List Char := '\n' :: List.replicate (2 * depth) ' '

mutual

/-- The indented form of a value that is nested `depth` deep. -/
def renderAt (depth : Nat) : Json → List Char
  | .arr (v :: vs) =>
    '[' :: lineBreak (depth + 1) ++ renderAt (depth + 1) v ++ renderItemsAt depth vs
  | .obj ((name, v) :: members) =>
    '{' :: lineBreak (depth + 1) ++ quote name ++ [':', ' '] ++ renderAt (depth + 1) v ++
      renderMembersAt depth members
  | v => v.render

/-- The rest of an array after an item. -/
def renderItemsAt (depth : Nat) : List Json → List Char
  | [] => lineBreak depth ++ [']']
  | v :: vs =>
    ',' :: lineBreak (depth + 1) ++ renderAt (depth + 1) v ++ renderItemsAt depth vs

/-- The rest of an object after a member. -/
def renderMembersAt (depth : Nat) : List (Text × Json) → List Char
  | [] => lineBreak depth ++ ['}']
  | (name, v) :: members =>
    ',' :: lineBreak (depth + 1) ++ quote name ++ [':', ' '] ++ renderAt (depth + 1) v ++
      renderMembersAt depth members

end

/-- The indented form of a value. -/
def renderIndented (v : Json) : List Char := renderAt 0 v

end RootCause.Json
