import RootCause.Source.Lexeme

/-!
# Levels of the grammar

The rules of the grammar refer to each other in circles. Each rule is written as a reading that is
given the rules one level further down, and the rules of a level are tied to those below it in
`Source.Parser`; a text of `n` characters never needs more than a fixed multiple of `n` levels.
-/

namespace RootCause.Source

/-- The rules that other rules refer to from above. -/
inductive Goal
  | statement
  /-- A block of statements in braces. -/
  | block
  /-- Expressions with commas between them. -/
  | expressions
  | expression
  /-- An expression that is neither an assignment nor an arrow function. -/
  | conditional
  /-- An operand with the operators in front of it and after it. -/
  | unary
  /-- An operand of member access or call. -/
  | operand
  /-- A `new` and what it constructs. -/
  | construction
  | decorator
  | pattern
  | type
  /-- A type without conditions. -/
  | typeUnion
  /-- A type without operators between types. -/
  | typeOperand
  /-- A markup element, without the gap after it. -/
  | markup
  deriving DecidableEq, Repr

/-- The rules one level further down. -/
structure Level where
  /-- Whether angle brackets around a name open markup; else they assert a type. -/
  allowsMarkup : Bool
  read : Goal → Parse Tree

/-- The initial value of a variable, parameter or field. -/
def initializer (l : Level) : Parse Tree := do
  Parse.sign "="
  l.read .expression

/-- A name in brackets that is computed. -/
def computedName (l : Level) : Parse Tree :=
  node .computedPropertyName do
    Parse.sign "["
    let e ← l.read .expression
    Parse.sign "]"
    return [e]

/-- The name of a property in a class, an object or a type. -/
def propertyName (l : Level) : Parse Tree :=
  propertyWord <|> privateName <|> string <|> number <|> computedName l

/-- A word that changes the meaning of the member or parameter after it: it is one only if a name
or pattern follows. -/
def modifier (ws : List String) : Parse Unit := do
  let _ ← Parse.oneWord ws
  match ← Parse.peekChar with
  | some c =>
    let s ← Parse.rest
    Parse.require
      (wordLength s ≠ 0 || isQuote c || "#*[\x7b".toList.contains c || numberLength s ≠ 0)
  | none => Parse.fail

/-- The arguments of a call. -/
def arguments (l : Level) : Parse Tree :=
  node .arguments do
    Parse.sign "("
    let items ← looseList
      (node .spreadElement (do Parse.sign "..."; return [← l.read .expression]) <|>
        l.read .expression)
    Parse.sign ")"
    return items

end RootCause.Source
