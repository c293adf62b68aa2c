/-!
# Lines

A newline ends a line, and so does a newline with one carriage return before it; text after the
last newline is a line of its own, in which a carriage return at the end is kept. So `"a\r\nb\r"`
has the lines `"a"` and `"b\r"`, and a text that ends in a newline has no empty line after it.
-/

namespace RootCause.Text

/-- The lines of a text, without their ends. -/
def lines : List Char → List (List Char)
  | [] => []
  | '\n' :: s => [] :: lines s
  | '\r' :: '\n' :: s => [] :: lines s
  | c :: s =>
    match lines s with
    | [] => [[c]]
    | l :: ls => (c :: l) :: ls

@[simp] theorem lines_nil : lines [] = [] := by simp [lines]

@[simp] theorem lines_newline (s : List Char) : lines ('\n' :: s) = [] :: lines s := by
  simp [lines]

/-- The text of some lines, with `sep` between neighbours. -/
def joinWith (sep : List Char) (ls : List (List Char)) : List Char :=
  sep.intercalate ls

end RootCause.Text
