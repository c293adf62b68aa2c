/-!
# Styled text

Text for a terminal: bold or not, in one of a few colours or in none. A style is switched on before
the text and off after it by control sequences, and a style that is neither bold nor coloured needs
none.
-/

namespace RootCause.Output

/-- The colours in use. -/
inductive Colour
  | red
  | green
  | yellow
  | blue
  | cyan
  deriving DecidableEq, Repr

/-- The code that switches a colour on. -/
def Colour.code : Colour → List Char
  | .red => "31".toList
  | .green => "32".toList
  | .yellow => "33".toList
  | .blue => "34".toList
  | .cyan => "36".toList

/-- A style. -/
structure Style where
  bold : Bool := false
  colour : Option Colour := none
  deriving DecidableEq, Repr

namespace Style

/-- Neither bold nor coloured. -/
def plain : Style := {}

/-- The codes that switch a style on. -/
def codes (s : Style) : List (List Char) :=
  (if s.bold then [['1']] else []) ++ (s.colour.map Colour.code).toList

/-- The character that starts a control sequence. -/
def escape : Char := '\x1b'

/-- The control sequence with these codes. -/
def sequence (codes : List (List Char)) : List Char :=
  escape :: '[' :: [';'].intercalate codes ++ ['m']

/-- A text in a style, or as it is if colours are off. -/
def paint (s : Style) (colours : Bool) (text : List Char) : List Char :=
  if colours && !s.codes.isEmpty then sequence s.codes ++ text ++ sequence [['0']] else text

@[simp] theorem paint_false (s : Style) (text : List Char) : s.paint false text = text := rfl

end Style

end RootCause.Output
