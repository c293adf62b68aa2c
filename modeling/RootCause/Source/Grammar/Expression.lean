import RootCause.Source.Grammar.Markup

/-!
# Expressions

Expressions, from assignments down to names and literals. What stands in parentheses is first read
as the parameters of an arrow function, and what stands in braces or brackets as a pattern that is
assigned to; only if no arrow or equals sign follows is it read as a value.
-/

namespace RootCause.Source

/-! ## Functions, methods and classes -/

/-- A method: name, signature and body, with what may stand in front of the name. -/
def methodDefinition (l : Level) : Parse Tree :=
  node .methodDefinition do
    memberHead
    let name ← propertyName l
    let _ ← Parse.option (Parse.sign "?")
    let parts ← signature l
    return name.inField .name :: parts ++ [← l.read .block]

/-- The words with which a function starts; whether it is a generator. -/
def functionHead : Parse Bool := do
  let _ ← Parse.option (do Parse.word "async"; Parse.sameLine)
  Parse.word "function"
  return (← Parse.option (Parse.sign "*")).isSome

/-- A function as a value. -/
def functionExpression (l : Level) : Parse Tree := do
  let start := (← get).pos
  let isGenerator ← functionHead
  let name ← maybe (within .name identifier)
  let parts ← signature l
  let body ← l.read .block
  let kind := if isGenerator then .generatorFunction else .functionExpression
  return .node ⟨.named kind, none, start, (← get).stop⟩ (name ++ parts ++ [body])

/-- An arrow function. -/
def arrowFunction (l : Level) : Parse Tree :=
  node .arrowFunction do
    let _ ← Parse.option do
      Parse.word "async"
      Parse.sameLine
      let c ← Parse.peekChar
      Parse.require ((← Parse.peekWord) ≠ "" || c == some '(' || c == some '<')
    let head ←
      (do
        let p ← identifier
        Parse.require (← Parse.atSign "=>")
        return [p.inField .parameter]) <|> signature l
    Parse.sign "=>"
    let body ← l.read .block <|> l.read .expression
    return head ++ [body]

/-- A field of a class. -/
def fieldDefinition (l : Level) : Parse Tree :=
  node .publicFieldDefinition do
    let decorators ← Parse.many (l.read .decorator)
    memberHead
    let name ← propertyName l
    let _ ← Parse.option (Parse.oneSign ["?", "!"])
    let ascription ← maybe (typeAscription l)
    let value ← maybe (within .value (initializer l))
    return decorators ++ name.inField .name :: ascription ++ value

/-- What ends a member of a class that has no body. -/
def memberEnd : Parse Unit := Parse.sign "," <|> Parse.semicolon

/-- A method of a class without a body. -/
def bodilessMethod (l : Level) : Parse Tree :=
  node .methodSignature do
    memberHead
    let name ← propertyName l
    let _ ← Parse.option (Parse.sign "?")
    return name.inField .name :: (← signature l)

/-- Members of a class at one place, with their decorators. -/
def classMember (l : Level) : Parse (List Tree) :=
  (do Parse.sign ";"; return []) <|>
  (do
    let b ← node .classStaticBlock do
      Parse.word "static"
      return [← l.read .block]
    return [b]) <|>
  (do
    let s ← indexSignature l
    memberEnd
    return [s]) <|>
  (do
    let decorators ← Parse.many (l.read .decorator)
    let m ← methodDefinition l
    let _ ← Parse.option (Parse.sign ";")
    return decorators ++ [m]) <|>
  (do
    let decorators ← Parse.many (l.read .decorator)
    let m ← bodilessMethod l
    memberEnd
    return decorators ++ [m]) <|>
  (do
    let f ← fieldDefinition l
    memberEnd
    return [f])

/-- The body of a class. -/
def classBody (l : Level) : Parse Tree :=
  node .classBody do
    Parse.sign "\x7b"
    let members ← Parse.many (classMember l)
    Parse.sign "\x7d"
    return members.flatten

/-- What a class extends and implements. -/
def classHeritage (l : Level) : Parse Tree :=
  node .classHeritage do
    let superclass ← maybe <| node .extendsClause do
      Parse.word "extends"
      let value ← l.read .operand
      return value.inField .value :: (← maybe (typeArguments l))
    let interfaces ← maybe <| node .implementsClause do
      Parse.word "implements"
      let first ← l.read .type
      return first :: (← Parse.many (do Parse.sign ","; l.read .type))
    Parse.require (!superclass.isEmpty || !interfaces.isEmpty)
    return superclass ++ interfaces

/-- Type parameters, heritage and body of a class. -/
def classTail (l : Level) : Parse (List Tree) := do
  let generic ← maybe (typeParameters l)
  let heritage ← maybe (classHeritage l)
  return generic ++ heritage ++ [← classBody l]

/-- The name of a class, which is not the word that starts its heritage. -/
def className : Parse Tree := do
  Parse.require ((← Parse.peekWord) ≠ "implements")
  typeName

/-- A class as a value. -/
def classExpression (l : Level) : Parse Tree :=
  node .classExpression do
    let decorators ← Parse.many (l.read .decorator)
    Parse.word "class"
    let name ← maybe (within .name className)
    return decorators ++ name ++ (← classTail l)

/-! ## Primary expressions -/

/-- An item of an array or object that brings its own items. -/
def spread (l : Level) : Parse Tree :=
  node .spreadElement (do Parse.sign "..."; return [← l.read .expression])

/-- A property of an object. -/
def property (l : Level) : Parse Tree :=
  spread l <|> methodDefinition l <|>
  node .pair (do
    let key ← propertyName l
    Parse.sign ":"
    let value ← l.read .expression
    return [key, value.inField .value]) <|>
  wordLeaf .shorthandPropertyIdentifier

/-- An object. -/
def objectLiteral (l : Level) : Parse Tree :=
  node .object do
    Parse.sign "\x7b"
    let items ← looseList (property l)
    Parse.sign "\x7d"
    return items

/-- An array. -/
def arrayLiteral (l : Level) : Parse Tree :=
  node .array do
    Parse.sign "["
    let items ← looseList (spread l <|> l.read .expression)
    Parse.sign "]"
    return items

/-- Expressions in parentheses. -/
def parenthesized (l : Level) : Parse Tree :=
  node .parenthesizedExpression do
    Parse.sign "("
    let e ← l.read .expressions
    let ascription ← maybe (typeAscription l)
    Parse.sign ")"
    return e :: ascription

/-- A template with its holes. -/
def template (l : Level) : Parse Tree :=
  node .templateString (templatePieces .templateSubstitution (l.read .expressions))

/-- The words that are values, with their kinds. -/
def valueWords : List (String × NodeKind) :=
  [("this", .this), ("super", .super), ("true", .true), ("false", .false), ("null", .null)]

/-- An expression that needs no other one in front of it. -/
def primary (l : Level) : Parse Tree := do
  match ← Parse.peekChar with
  | some '(' => parenthesized l
  | some '[' => arrayLiteral l
  | some '\x7b' => objectLiteral l
  | some '\x60' => template l
  | some '/' => regex
  | some '#' => privateName
  | some '@' => classExpression l
  | some '<' =>
    Parse.require l.allowsMarkup
    let e ← l.read .markup
    Parse.gap
    return e
  | some c =>
    if isQuote c then string
    else if numberLength (← Parse.rest) ≠ 0 then number
    else
      let w ← Parse.peekWord
      match valueWords.lookup w with
      | some kind => leaf kind (Parse.word w)
      | none =>
        if w == "function" then functionExpression l
        else if w == "async" then functionExpression l <|> identifier
        else if w == "class" then classExpression l
        else if w == "import" then
          node .metaProperty (do
            let head ← wordNode "import"
            Parse.sign "."
            Parse.word "meta"
            return [head]) <|> wordNode "import"
        else identifier
  | none => Parse.fail

/-! ## Access and calls -/

/-- A call, with or without type arguments, or a template with the expression for its tag. -/
def call (l : Level) (f : Tree) : Parse Tree :=
  nodeAfter .callExpression f (do
    let _ ← Parse.option (Parse.sign "?.")
    let generic ← maybe (typeArguments l)
    return f :: generic ++ [← arguments l]) <|>
  nodeAfter .callExpression f (do
    let generic ← maybe (typeArguments l)
    return f :: generic ++ [← template l])

/-- Whether type arguments may end in front of a text that is no call. -/
def mayFollowInstantiation (s : List Char) : Bool :=
  match s with
  | [] => true
  | _ => (sign? s).any fun x =>
      [")", "]", ":", ";", ",", "\x7d", "==", "===", "!=", "!==", "&&", "||", "??"].contains x

/-- A generic function with its type arguments. -/
def instantiation (l : Level) (f : Tree) : Parse Tree :=
  nodeAfter .instantiationExpression f do
    let generic ← typeArguments l
    let c ← get
    Parse.require (c.newline || mayFollowInstantiation c.rest)
    return [f, generic]

/-- What may follow an operand of access or call. -/
def operandStep (l : Level) (e : Tree) : Parse Tree :=
  memberAccess e <|> elementAccess l e <|> call l e <|> nonNull e <|> instantiation l e

/-- A `new` and what it constructs. -/
def construction (l : Level) : Parse Tree :=
  node .metaProperty (do
    Parse.word "new"
    Parse.sign "."
    Parse.word "target"
    return []) <|>
  node .newExpression (do
    Parse.word "new"
    let c ← l.read .construction <|> primary l
    let c ← chainAll (placeStep l) c
    let generic ← maybe (typeArguments l)
    return c :: generic ++ (← maybe (arguments l)))

/-- An operand of access or call. -/
def operand (l : Level) : Parse Tree := do
  let first ← construction l <|> primary l
  chainAll (operandStep l) first

/-- A decorator. -/
def decorator (l : Level) : Parse Tree :=
  node .decorator do
    Parse.sign "@"
    let e ← parenthesized l <|> (do
      let first ← identifier
      let rest ← dottedRest
      let target := rest.foldl (memberOf .memberExpression) first
      nodeAfter .callExpression target (do
        let generic ← maybe (typeArguments l)
        return target :: generic ++ [← arguments l]) <|> pure target)
    return [e]

/-! ## Operators -/

/-- An operand with `++` or `--` after it, or without. -/
def update (l : Level) : Parse Tree := do
  let e ← operand l
  nodeAfter .updateExpression e (do
    Parse.sameLine
    let _ ← Parse.oneSign ["++", "--"]
    return [e]) <|> pure e

/-- An operand with the operators in front of it and after it. -/
def unary (l : Level) : Parse Tree :=
  node .updateExpression (do
    let _ ← Parse.oneSign ["++", "--"]
    return [← l.read .unary]) <|>
  node .unaryExpression (do
    let _ ← (do let _ ← Parse.oneSign ["!", "~", "-", "+"]) <|>
      (do let _ ← Parse.oneWord ["typeof", "void", "delete"])
    return [← l.read .unary]) <|>
  node .awaitExpression (do
    Parse.word "await"
    return [← l.read .unary]) <|>
  node .typeAssertion (do
    Parse.require (!l.allowsMarkup)
    let t ← typeArguments l
    return [t, ← l.read .unary]) <|>
  update l

/-- The signs and words between operands, the ones that bind least first. -/
def operatorLevels : List (List String) :=
  [["??", "||"], ["&&"], ["|"], ["^"], ["&"], ["==", "!=", "===", "!=="],
    ["<", ">", "<=", ">=", "in", "instanceof"], ["<<", ">>", ">>>"], ["+", "-"], ["*", "/", "%"],
    ["**"]]

/-- One of the operators of a level. -/
def operator (names : List String) : Parse Unit :=
  (do let _ ← Parse.oneSign names) <|> (do let _ ← Parse.oneWord names)

/-- A type that an expression is said to have, on the level of the words for it. -/
def typeClaim (l : Level) (names : List String) (e : Tree) : Parse Tree :=
  let claim (kind : NodeKind) (w : String) : Parse Tree := nodeAfter kind e do
    Parse.require (names.contains "in")
    Parse.sameLine
    Parse.word w
    return [e, ← l.read .type]
  claim .asExpression "as" <|> claim .satisfiesExpression "satisfies"

/-- Operands with the operators of some levels between them. -/
def binary (l : Level) : List (List String) → Parse Tree
  | [] => unary l
  | names :: levels => do
    let first ← binary l levels
    chainAll (fun e =>
      typeClaim l names e <|>
      nodeAfter .binaryExpression e (do
        operator names
        return [e, ← binary l levels])) first

/-- An expression that is neither an assignment nor an arrow function. If the first alternative of a
condition turns out to have swallowed the colon, as the return type of an arrow function, it is read
again without one. -/
def conditional (l : Level) : Parse Tree := do
  let condition ← binary l operatorLevels
  let choice (consequence : Goal) : Parse Tree := nodeAfter .ternaryExpression condition do
    Parse.sign "?"
    let yes ← l.read consequence
    Parse.sign ":"
    return [condition, yes, ← l.read .expression]
  choice .expression <|> choice .conditional <|> pure condition

/-- The signs that assign, other than the plain one. -/
def updatingSigns : List String :=
  ["+=", "-=", "*=", "/=", "%=", "&=", "|=", "^=", "**=", "<<=", ">>=", ">>>=", "&&=", "||=", "??="]

/-- An expression without commas between parts. The word `using` in front of an assignment says that
the value is disposed of when its block ends. -/
def expression (l : Level) : Parse Tree :=
  node .yieldExpression (do
    Parse.word "yield"
    let _ ← Parse.option (Parse.sign "*")
    maybe (do Parse.sameLine; l.read .expression)) <|>
  arrowFunction l <|>
  node .assignmentExpression (do
    let target ← destructuring l <|> (do Parse.word "using"; Parse.sameLine; identifier)
    return [target.inField .left, ← initializer l]) <|>
  (do
    let target ← conditional l
    nodeAfter .assignmentExpression target (do
      return [target.inField .left, ← initializer l]) <|>
    nodeAfter .augmentedAssignmentExpression target (do
      let _ ← Parse.oneSign updatingSigns
      return [target.inField .left, ← l.read .expression]) <|>
    pure target)

/-- Expressions with commas between them. -/
def expressions (l : Level) : Parse Tree := do
  let first ← expression l
  nodeAfter .sequenceExpression first (do
    let rest ← Parse.many (do Parse.sign ","; expression l)
    Parse.require (!rest.isEmpty)
    return first :: rest) <|> pure first

end RootCause.Source
