import RootCause.Source.Grammar.Access

/-!
# Patterns

What values are taken apart by: names, objects and arrays of patterns, defaults and rests. A place
that can be assigned to may stand in an assignment's pattern instead of a name.
-/

namespace RootCause.Source

/-- A pattern with or without a default value. -/
def patternWithDefault (l : Level) : Parse Tree := do
  let p ← l.read .pattern
  nodeAfter .assignmentPattern p (do let d ← initializer l; return [p.inField .left, d]) <|> pure p

/-- The rest of an array, an object or an argument list. -/
def restPattern (l : Level) : Parse Tree :=
  node .restPattern (do Parse.sign "..."; return [← l.read .pattern])

/-- A property of an object pattern: with a pattern for its value, by itself, or by itself with a
default value. -/
def propertyPattern (l : Level) : Parse Tree :=
  restPattern l <|>
  node .pairPattern (do
    let key ← propertyName l
    Parse.sign ":"
    let value ← patternWithDefault l
    return [key, value.inField .value]) <|>
  (do
    let name ← wordLeaf .shorthandPropertyIdentifierPattern
    nodeAfter .objectAssignmentPattern name
      (do let d ← initializer l; return [name.inField .left, d]) <|> pure name)

/-- An object pattern. -/
def objectPattern (l : Level) : Parse Tree :=
  node .objectPattern do
    Parse.sign "\x7b"
    let items ← looseList (propertyPattern l)
    Parse.sign "\x7d"
    return items

/-- An array pattern. -/
def arrayPattern (l : Level) : Parse Tree :=
  node .arrayPattern do
    Parse.sign "["
    let items ← looseList (restPattern l <|> patternWithDefault l)
    Parse.sign "]"
    return items

/-- A pattern that takes an object or an array apart. -/
def destructuring (l : Level) : Parse Tree := objectPattern l <|> arrayPattern l

/-- The `this` of an expression or a predicate. -/
def thisLeaf : Parse Tree := leaf .this (Parse.word "this")

/-- A place that can be assigned to: a name, or what is reached from it. -/
def assignable (l : Level) : Parse Tree := do
  chainAll (placeStep l) (← thisLeaf <|> identifier)

/-- A pattern. -/
def pattern (l : Level) : Parse Tree := destructuring l <|> restPattern l <|> assignable l

/-- What a declaration binds: a name or a pattern of names. -/
def bindingTarget (l : Level) : Parse Tree := destructuring l <|> identifier

end RootCause.Source
