import RootCause.Source.Grammar.Pattern

/-!
# Types and signatures

Type annotations, the parameters of functions, and types themselves from the loosest operators to
the names they are made of. A bracket that comes after the end of a line belongs to no type before
it.
-/

namespace RootCause.Source

/-! ## Parameters and arguments of types -/

/-- Arguments of a generic type or function. -/
def typeArguments (l : Level) : Parse Tree :=
  node .typeArguments do
    Parse.char '<'
    let items ← commaList (l.read .type)
    Parse.char '>'
    return items

/-- A parameter of a generic type or function. -/
def typeParameter (l : Level) : Parse Tree :=
  node .typeParameter do
    let _ ← Parse.many (modifier ["const", "in", "out"])
    let name ← typeName
    let bound ← maybe (do Parse.word "extends"; l.read .type)
    let fallback ← maybe (do Parse.sign "="; l.read .type)
    return name.inField .name :: bound ++ fallback

/-- The parameters of a generic type or function. -/
def typeParameters (l : Level) : Parse Tree :=
  node .typeParameters do
    Parse.char '<'
    let items ← commaList (typeParameter l)
    Parse.char '>'
    return items

/-! ## Annotations and signatures -/

/-- A type after a colon. -/
def typeAscription (l : Level) : Parse Tree :=
  node .typeAscription do
    Parse.sign ":"
    return [← l.read .type]

/-- A predicate on a parameter. -/
def typePredicate (l : Level) : Parse Tree :=
  node .typePredicate do
    let subject ← thisLeaf <|> identifier
    Parse.sameLine
    Parse.word "is"
    return [subject.inField .name, ← l.read .type]

/-- What a function returns: a type, a predicate or an assertion. -/
def returnType (l : Level) : Parse Tree :=
  node .asserts (do
    Parse.word "asserts"
    Parse.sameLine
    return [← typePredicate l <|> thisLeaf <|> identifier]) <|>
  typePredicate l <|> l.read .type

/-- What a function returns, after a colon. -/
def resultType (l : Level) : Parse Tree :=
  node .typeAscription do
    Parse.sign ":"
    return [← returnType l]

/-- A parameter of a function. -/
def parameter (l : Level) : Parse Tree := do
  let start := (← get).pos
  let decorators ← Parse.many (l.read .decorator)
  let _ ← Parse.many
    (modifier ["public", "private", "protected", "override", "readonly", "accessor"])
  let target ← thisLeaf <|> restPattern l <|> bindingTarget l
  let isOptional := (← Parse.option (Parse.sign "?")).isSome
  let ascription ← maybe (typeAscription l)
  let value ← maybe (within .value (initializer l))
  let kind := if isOptional then .optionalParameter else .requiredParameter
  return .node ⟨.named kind, none, start, (← get).stop⟩
    (decorators ++ target.inField .pattern :: ascription ++ value)

/-- The parameters of a function. -/
def parameters (l : Level) : Parse Tree :=
  node .formalParameters do
    Parse.sign "("
    let items ← commaList (parameter l)
    Parse.sign ")"
    return items

/-- Type parameters, parameters and return type of a function. -/
def signature (l : Level) : Parse (List Tree) := do
  let generic ← maybe (typeParameters l)
  let params ← parameters l
  let result ← maybe (resultType l)
  return generic ++ params :: result

/-! ## Names and queries -/

/-- A dotted name as the module of a longer one: the innermost of several dots is a member
expression, the outermost a name of its own kind. -/
def dottedName : Tree → List Tree → Tree
  | first, [] => first
  | first, [property] => memberOf .nestedIdentifier first property
  | first, property :: rest => dottedName (memberOf .memberExpression first property) rest

/-- Names after dots. -/
def dottedRest : Parse (List Tree) := Parse.many (do Parse.sign "."; propertyWord)

/-- The name of a type, in the modules before its dots, with type arguments if it has any. -/
def namedType (l : Level) : Parse Tree := do
  let first ← wordLeaf .typeIdentifier
  let rest ← dottedRest
  let name := match rest.getLast? with
    | none => first
    | some last =>
      let module := dottedName (first.withKind .identifier) rest.dropLast
      .node ⟨.named .nestedTypeIdentifier, none, first.start, last.stop⟩
        [module.inField .module, (last.withKind .typeIdentifier).inField .name]
  nodeAfter .genericType name (do
    Parse.sameLine
    return [name.inField .name, ← typeArguments l]) <|> pure name

/-- A member or element of what a type query is about. -/
def queryStep (l : Level) (object : Tree) : Parse Tree :=
  (do
    let _ ← Parse.oneSign [".", "?."]
    let property ← privateName <|> propertyWord
    return memberOf .memberExpression object property) <|>
  nodeAfter .subscriptExpression object (do
    Parse.sameLine
    let _ ← Parse.option (Parse.sign "?.")
    Parse.sign "["
    let index ← string <|> number <|> leaf .predefinedType (Parse.oneWord
      ["any", "number", "boolean", "string", "symbol", "void", "unknown", "never", "object"])
    Parse.sign "]"
    return [object.inField .object, index.inField .index]) <|>
  nodeAfter .instantiationExpression object (do
    Parse.sameLine
    return [object, ← typeArguments l])

/-- A call of `import`, as the place that a type comes from. -/
def importCall (l : Level) : Parse Tree :=
  node .callExpression do
    let head ← wordNode "import"
    return [head, ← arguments l]

/-- The type of a value. -/
def typeQuery (l : Level) : Parse Tree :=
  node .typeQuery do
    Parse.word "typeof"
    let subject ← importCall l <|> thisLeaf <|> identifier
    return [← chainAll (queryStep l) subject]

/-- A type of another module, reached by a call of `import`. -/
def importedType (l : Level) : Parse Tree := do
  let call ← importCall l
  let t ← chainAll (fun object => do
    Parse.sign "."
    let property ← propertyWord
    return memberOf .memberExpression object property) call
  nodeAfter .genericType t (do Parse.sameLine; return [t.inField .name, ← typeArguments l]) <|>
    pure t

/-! ## Members of object types -/

/-- Annotation of an index signature or mapped type, with the sign that adds or takes away a
question mark. -/
def mappedType (l : Level) : Parse (List Tree) := do
  let _ ← Parse.option (do
    let _ ← Parse.option (Parse.oneSign ["+", "-"])
    Parse.sign "?")
  maybe (typeAscription l)

/-- An index signature or a mapped type. -/
def indexSignature (l : Level) : Parse Tree :=
  node .indexSignature do
    let _ ← Parse.option (do
      let _ ← Parse.option (Parse.oneSign ["+", "-"])
      Parse.word "readonly")
    Parse.sign "["
    let inner ←
      (do
        let name ← identifier
        Parse.sign ":"
        return [name.inField .name, ← l.read .type]) <|>
      (do
        let clause ← node .mappedTypeClause do
          let name ← typeName
          Parse.word "in"
          let source ← l.read .type
          let renamed ← maybe (do Parse.word "as"; l.read .type)
          return name.inField .name :: source :: renamed
        return [clause])
    Parse.sign "]"
    return inner ++ (← mappedType l)

/-- The modifiers of members of types and classes. -/
def memberModifiers : List String :=
  ["public", "private", "protected", "static", "override", "readonly", "abstract", "declare",
    "accessor", "async", "get", "set"]

/-- Modifiers and a star in front of a member's name. -/
def memberHead : Parse Unit := do
  let _ ← Parse.many (modifier memberModifiers)
  let _ ← Parse.option (Parse.sign "*")

/-- A method of an object type. -/
def methodSignature (l : Level) : Parse Tree :=
  node .methodSignature do
    memberHead
    let name ← propertyName l
    let _ ← Parse.option (Parse.sign "?")
    return name.inField .name :: (← signature l)

/-- A property of an object type. -/
def propertySignature (l : Level) : Parse Tree :=
  node .propertySignature do
    memberHead
    let name ← propertyName l
    let _ ← Parse.option (Parse.sign "?")
    return name.inField .name :: (← maybe (typeAscription l))

/-- A member of an object type. -/
def typeMember (l : Level) : Parse Tree :=
  node .callSignature (signature l) <|>
  node .constructSignature (do
    let _ ← Parse.option (Parse.word "abstract")
    Parse.word "new"
    signature l) <|>
  indexSignature l <|> methodSignature l <|> propertySignature l

/-- An object type. -/
def objectType (l : Level) : Parse Tree :=
  node .objectType do
    Parse.sign "\x7b"
    let _ ← Parse.option (Parse.oneSign [",", ";"])
    let members ← Parse.many do
      let m ← typeMember l
      let _ ← Parse.option (Parse.oneSign [",", ";"])
      return m
    Parse.sign "\x7d"
    return members

/-! ## Types -/

/-- The types that are words of the grammar. -/
def predefinedWords : List String :=
  ["any", "number", "boolean", "string", "symbol", "void", "unknown", "never", "object"]

/-- An element of a tuple type. A named one is a parameter whose name is no pattern. -/
def tupleMember (l : Level) : Parse Tree :=
  node .requiredParameter (do
    let name ← node .restPattern (do Parse.sign "..."; return [← identifier])
    return [name.inField .name, ← typeAscription l]) <|>
  node .requiredParameter (do
    let name ← identifier
    return [name.inField .name, ← typeAscription l]) <|>
  node .optionalParameter (do
    let name ← identifier
    Parse.sign "?"
    return [name.inField .name, ← typeAscription l]) <|>
  node .restType (do Parse.sign "..."; return [← l.read .type]) <|>
  (do
    let t ← l.read .type
    nodeAfter .optionalType t (do Parse.sign "?"; return [t]) <|> pure t)

/-- The pieces of a template between its backquotes: text up to a hole, and holes. -/
def templatePieces (hole : NodeKind) (inner : Parse Tree) : Parse (List Tree) := do
  Parse.charRaw '\x60'
  let holes ← Parse.many <|
    (do
      let h ← node hole do
        Parse.charRaw '$'
        Parse.charRaw '\x7b'
        Parse.gap
        let t ← inner
        Parse.charRaw '\x7d'
        return [t]
      return some h) <|>
    (do
      let n := fragment (← Parse.rest)
      Parse.require (n ≠ 0)
      let _ ← Parse.takeRaw n
      return none)
  Parse.charRaw '\x60'
  Parse.gap
  return holes.filterMap id
where
  /-- The length of the text up to a hole or the end of the template. -/
  fragment : List Char → Nat
    | [] => 0
    | '\\' :: _ :: s => fragment s + 2
    | '$' :: s => if s.head? = some '\x7b' then 0 else fragment s + 1
    | c :: s => if c = '\x60' then 0 else fragment s + 1

/-- A type that needs no other one in front of it. -/
def primaryType (l : Level) : Parse Tree := do
  match ← Parse.peekChar with
  | some '(' => node .parenthesizedType do
      Parse.sign "("
      let t ← l.read .type
      Parse.sign ")"
      return [t]
  | some '[' => node .tupleType do
      Parse.sign "["
      let items ← commaList (tupleMember l)
      Parse.sign "]"
      return items
  | some '\x7b' => objectType l
  | some '\x60' => node .templateLiteralType (templatePieces .templateSubstitution (l.read .type))
  | some '-' => leaf .literalType (do Parse.sign "-"; number)
  | some '*' => leaf .existentialType (Parse.sign "*")
  | some '?' => node .flowMaybeType (do Parse.sign "?"; return [← l.read .typeOperand])
  | some c =>
    if isQuote c then node .literalType (return [← string])
    else if '0' ≤ c && c ≤ '9' then leaf .literalType number
    else
      let w ← Parse.peekWord
      if w == "typeof" then typeQuery l
      else if w == "import" then importedType l
      else if w == "this" then leaf .thisType (Parse.word w)
      else if w == "void" || predefinedWords.contains w then leaf .predefinedType (Parse.word w)
      else if ["true", "false", "null", "undefined"].contains w then
        leaf .literalType (Parse.word w)
      else if w == "const" then wordNode w
      else namedType l
  | none => Parse.fail

/-- An array of a type, or the type of one of its members. -/
def typeSuffix (l : Level) (t : Tree) : Parse Tree :=
  nodeAfter .arrayType t (do
    Parse.sameLine
    Parse.sign "["
    Parse.sign "]"
    return [t]) <|>
  nodeAfter .lookupType t (do
    Parse.sameLine
    Parse.sign "["
    let i ← l.read .type
    Parse.sign "]"
    return [t, i])

/-- A type with the operators in front of it and after it. -/
def typeOperand (l : Level) : Parse Tree :=
  node .indexTypeQuery (do Parse.word "keyof"; return [← l.read .typeOperand]) <|>
  node .readonlyType (do Parse.word "readonly"; return [← l.read .typeOperand]) <|>
  leaf .predefinedType (do Parse.word "unique"; Parse.word "symbol") <|>
  node .inferType (do
    Parse.word "infer"
    let name ← typeName
    return name :: (← maybe (do Parse.word "extends"; l.read .typeUnion))) <|>
  (do chainAll (typeSuffix l) (← primaryType l))

/-- Types with an operator between them, which may also stand in front of the first one. -/
def typeOperation (kind : NodeKind) (operator : String) (p : Parse Tree) : Parse Tree := do
  let start := (← get).pos
  let leading ← Parse.option (Parse.sign operator)
  let first ← p
  let others ← Parse.many (do Parse.sign operator; p)
  if leading.isNone && others.isEmpty then return first
  else return .node ⟨.named kind, none, start, (← get).stop⟩ (first :: others)

/-- A type without conditions. -/
def typeUnion (l : Level) : Parse Tree :=
  typeOperation .unionType "|" (typeOperation .intersectionType "&" (typeOperand l))

/-- The type of a function or a constructor. -/
def functionType (l : Level) : Parse Tree := do
  let c ← Parse.peekChar
  let w ← Parse.peekWord
  Parse.require (c == some '(' || c == some '<' || w == "new" || w == "abstract")
  let kind := if w == "" then .functionType else .constructorType
  node kind do
    if w ≠ "" then
      let _ ← Parse.option (Parse.word "abstract")
      Parse.word "new"
    let generic ← maybe (typeParameters l)
    let params ← parameters l
    Parse.sign "=>"
    return generic ++ [params, ← returnType l]

/-- A type. -/
def type (l : Level) : Parse Tree :=
  functionType l <|>
  (do
    let left ← typeUnion l
    nodeAfter .conditionalType left (do
      Parse.word "extends"
      let right ← functionType l <|> typeUnion l
      Parse.sign "?"
      let consequence ← l.read .type
      Parse.sign ":"
      return [left, right, consequence, ← l.read .type]) <|> pure left)

end RootCause.Source
