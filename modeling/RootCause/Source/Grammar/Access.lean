import RootCause.Source.Grammar.Level

/-!
# Access

The ways to reach a part of a value: a member, an element, or the value said not to be null.
-/

namespace RootCause.Source

/-- A node for access to a member of `object`. -/
def memberOf (kind : NodeKind) (object property : Tree) : Tree :=
  .node ⟨.named kind, none, object.start, property.stop⟩
    [object.inField .object, property.inField .property]

/-- The readings of `step` that follow each other, at most `n`. -/
def chain (step : Tree → Parse Tree) : Nat → Tree → Parse Tree
  | 0, t => pure t
  | n + 1, t => (do chain step n (← step t)) <|> pure t

/-- The readings of `step` that follow each other, as many as there are. -/
def chainAll (step : Tree → Parse Tree) (t : Tree) : Parse Tree := do
  chain step (← Parse.rest).length t

/-- A member of an object. -/
def memberAccess (object : Tree) : Parse Tree := do
  let _ ← Parse.oneSign [".", "?."]
  let property ← privateName <|> propertyWord
  return memberOf .memberExpression object property

/-- An element of an object. -/
def elementAccess (l : Level) (object : Tree) : Parse Tree :=
  nodeAfter .subscriptExpression object do
    let _ ← Parse.option (Parse.sign "?.")
    Parse.sign "["
    let index ← l.read .expressions
    Parse.sign "]"
    return [object.inField .object, index.inField .index]

/-- An expression that is asserted not to be null. -/
def nonNull (e : Tree) : Parse Tree :=
  nodeAfter .nonNullExpression e do
    Parse.sameLine
    Parse.sign "!"
    return [e]

/-- What may follow a value to make a place that can be assigned to. -/
def placeStep (l : Level) (e : Tree) : Parse Tree :=
  memberAccess e <|> elementAccess l e <|> nonNull e

end RootCause.Source
