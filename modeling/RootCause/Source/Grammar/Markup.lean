import RootCause.Source.Grammar.Types

/-!
# Markup

Elements in angle brackets inside expressions. Their text is no part of the token grammar: up to the
next brace or angle bracket every character counts, and so an element ends without the gap after it.
-/

namespace RootCause.Source

/-- A name in markup, which may hold hyphens after its first character. -/
def markupName (k : NodeKind) : Parse Tree :=
  leaf k do
    let s ← Parse.rest
    Parse.require (wordLength s ≠ 0)
    Parse.take (s.takeWhile fun c => isWordPart c || c = '-').length

/-- A name with a namespace in front of it. -/
def markupNamespaceName : Parse Tree :=
  node .jsxNamespaceName do
    let space ← markupName .identifier
    Parse.sign ":"
    return [space, ← markupName .identifier]

/-- The name of an element: a name, a name in a namespace or a member of an object. -/
def elementName : Parse Tree :=
  markupNamespaceName <|>
  (do
    let first ← leaf .identifier Parse.anyWord
    let rest ← dottedRest
    Parse.require (!rest.isEmpty)
    return rest.foldl (memberOf .memberExpression) first) <|>
  markupName .identifier

/-- An expression in braces, or none; the closing brace is left to `close`. -/
def markupBraces (l : Level) (close : Parse Unit) : Parse Tree :=
  node .jsxExpression do
    Parse.sign "\x7b"
    let inner ← maybe
      (node .spreadElement (do Parse.sign "..."; return [← l.read .expression]) <|>
        l.read .expressions)
    close
    return inner

/-- A string in markup, in which nothing is escaped. -/
def markupString : Parse Tree :=
  leaf .string do
    match ← Parse.rest with
    | q :: s =>
      Parse.require (isQuote q)
      let n := (s.takeWhile (· ≠ q)).length
      Parse.require (n < s.length)
      Parse.take (n + 2)
    | [] => Parse.fail

/-- An attribute of an element. -/
def markupAttribute (l : Level) : Parse Tree :=
  markupBraces l (Parse.sign "\x7d") <|>
  node .jsxAttribute (do
    let name ← markupNamespaceName <|> markupName .propertyIdentifier
    let value ← maybe do
      Parse.sign "="
      markupString <|> markupBraces l (Parse.sign "\x7d") <|>
        (do let e ← l.read .markup; Parse.gap; return e)
    return name :: value)

/-- Name, type arguments and attributes of an element. -/
def elementHead (l : Level) : Parse (List Tree) := do
  let name ← elementName
  let generic ← maybe (typeArguments l)
  let attributes ← Parse.many (markupAttribute l)
  return name.inField .name :: generic ++ attributes

/-- A child of an element. -/
def markupChild (l : Level) : Parse Tree :=
  leaf .jsxText (do
    let n := ((← Parse.rest).takeWhile fun c => c ≠ '<' && c ≠ '\x7b').length
    Parse.require (n ≠ 0)
    Parse.takeRaw n) <|>
  markupBraces l (Parse.charRaw '\x7d') <|>
  (do
    Parse.require (((← Parse.rest).drop 1).head? != some '/')
    l.read .markup)

/-- An element, without the gap after it. -/
def markup (l : Level) : Parse Tree :=
  node .jsxSelfClosingElement (do
    Parse.char '<'
    let head ← elementHead l
    Parse.char '/'
    Parse.charRaw '>'
    return head) <|>
  node .jsxElement (do
    let opening ← node .jsxOpeningElement do
      Parse.char '<'
      let head ← elementHead l <|> pure []
      Parse.charRaw '>'
      return head
    let children ← Parse.many (markupChild l)
    let closing ← node .jsxClosingElement do
      Parse.char '<'
      Parse.char '/'
      let name ← maybe (within .name elementName)
      Parse.charRaw '>'
      return name
    return opening :: children ++ [closing])

end RootCause.Source
