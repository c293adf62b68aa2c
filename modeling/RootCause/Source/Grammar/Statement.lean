import RootCause.Source.Grammar.Expression

/-!
# Statements

Declarations, imports and exports, and the other statements. Words such as `type` or `namespace`
start a declaration only if the rest of one follows; else they are names in an expression.
-/

namespace RootCause.Source

/-! ## Declarations -/

/-- A variable with its type and initial value. -/
def declarator (l : Level) : Parse Tree :=
  node .variableDeclarator do
    let name ← bindingTarget l
    let _ ← Parse.option (Parse.sign "!")
    let ascription ← maybe (typeAscription l)
    let value ← maybe (within .value (initializer l))
    return name.inField .name :: ascription ++ value

/-- Variables up to the end of their declaration. -/
def declarators (l : Level) : Parse (List Tree) := do
  let first ← declarator l
  return first :: (← Parse.many (do Parse.sign ","; declarator l))

/-- The declaration of block variables. -/
def lexicalDeclaration (l : Level) : Parse Tree :=
  node .lexicalDeclaration do
    let _ ← Parse.oneWord ["let", "const"]
    let ds ← declarators l
    Parse.semicolon
    return ds

/-- The declaration of function variables. -/
def variableDeclaration (l : Level) : Parse Tree :=
  node .variableDeclaration do
    Parse.word "var"
    let ds ← declarators l
    Parse.semicolon
    return ds

/-- The declaration of a function, or of its signature alone. -/
def functionDeclaration (l : Level) : Parse Tree := do
  let start := (← get).pos
  let isGenerator ← functionHead
  let name ← within .name identifier
  let parts ← signature l
  let body ← Parse.option (l.read .block)
  if body.isNone then Parse.semicolon
  let kind := match body with
    | none => .functionSignature
    | some _ => if isGenerator then .generatorFunctionDeclaration else .functionDeclaration
  return .node ⟨.named kind, none, start, (← get).stop⟩ (name :: parts ++ body.toList)

/-- The declaration of a class. -/
def classDeclaration (l : Level) : Parse Tree := do
  let start := (← get).pos
  let decorators ← Parse.many (l.read .decorator)
  let isAbstract := (← Parse.option (Parse.word "abstract")).isSome
  Parse.word "class"
  let name ← within .name className
  let parts ← classTail l
  if !isAbstract then Parse.blockEnd
  let kind := if isAbstract then .abstractClassDeclaration else .classDeclaration
  return .node ⟨.named kind, none, start, (← get).stop⟩ (decorators ++ name :: parts)

/-- The declaration of an interface. -/
def interfaceDeclaration (l : Level) : Parse Tree :=
  node .interfaceDeclaration do
    Parse.word "interface"
    let name ← within .name typeName
    let generic ← maybe (typeParameters l)
    let parents ← maybe <| node .extendsTypeClause do
      Parse.word "extends"
      let first ← namedType l
      return first :: (← Parse.many (do Parse.sign ","; namedType l))
    return name :: generic ++ parents ++ [← objectType l]

/-- The declaration of a name for a type. -/
def typeAliasDeclaration (l : Level) : Parse Tree :=
  node .typeAliasDeclaration do
    Parse.word "type"
    Parse.sameLine
    let name ← within .name typeName
    let generic ← maybe (typeParameters l)
    Parse.sign "="
    let t ← l.read .type
    Parse.semicolon
    return name :: generic ++ [t.inField .value]

/-- The declaration of an enumeration. -/
def enumDeclaration (l : Level) : Parse Tree :=
  node .enumDeclaration do
    let _ ← Parse.option (Parse.word "const")
    Parse.word "enum"
    let name ← within .name identifier
    let body ← node .enumBody do
      Parse.sign "\x7b"
      let items ← commaList do
        let name ← propertyName l
        nodeAfter .enumAssignment name (do return [name, ← initializer l]) <|>
          pure (name.inField .name)
      Parse.sign "\x7d"
      return items
    return [name, body]

/-- The name of a namespace. -/
def namespaceName : Parse Tree :=
  string <|>
  (do
    let first ← identifier
    let rest ← dottedRest
    return dottedName first rest)

/-- A namespace. -/
def internalModule (l : Level) : Parse Tree :=
  node .internalModule do
    Parse.word "namespace"
    Parse.sameLine
    let name ← within .name namespaceName
    return [name, ← l.read .block]

/-- A module. -/
def moduleDeclaration (l : Level) : Parse Tree :=
  node .module do
    Parse.word "module"
    Parse.sameLine
    let name ← within .name namespaceName
    let body ← maybe (l.read .block)
    return name :: body

/-- Another name for something in a namespace. -/
def importAlias : Parse Tree :=
  node .importAlias do
    Parse.word "import"
    let _ ← Parse.option (do
      Parse.word "type"
      Parse.require (!(← Parse.atSign "=")))
    let name ← identifier
    Parse.sign "="
    let target ← namespaceName
    Parse.semicolon
    return [name, target]

/-- A declaration that nothing is said about how it is implemented. -/
def ambientDeclaration (l : Level) (declaration : Parse Tree) : Parse Tree :=
  node .ambientDeclaration do
    Parse.word "declare"
    Parse.sameLine
    (do return [← declaration]) <|>
      (do
        Parse.word "global"
        return [← l.read .block]) <|>
      (do
        Parse.word "module"
        Parse.sign "."
        let name ← propertyWord
        Parse.sign ":"
        let t ← l.read .type
        Parse.semicolon
        return [name, t])

/-- A declaration other than an ambient one. -/
def plainDeclaration (l : Level) : Parse Tree :=
  functionDeclaration l <|> classDeclaration l <|> enumDeclaration l <|> lexicalDeclaration l <|>
    variableDeclaration l <|> interfaceDeclaration l <|> typeAliasDeclaration l <|>
    internalModule l <|> moduleDeclaration l <|> importAlias

/-- A declaration. -/
def declaration (l : Level) : Parse Tree :=
  plainDeclaration l <|> ambientDeclaration l (plainDeclaration l)

/-! ## Imports -/

/-- The module that something comes from. -/
def fromClause : Parse Tree := do
  Parse.word "from"
  within .source string

/-- Attributes of an import. -/
def importAttribute (l : Level) : Parse Tree :=
  node .importAttribute do
    let _ ← Parse.oneWord ["with", "assert"]
    return [← objectLiteral l]

/-- The word that makes an import or export one of a type only, if something follows it that can be
imported or exported. -/
def typeOnly : Parse Unit := do
  let _ ← Parse.option do
    let _ ← Parse.oneWord ["type", "typeof"]
    let w ← Parse.peekWord
    let c ← Parse.peekChar
    Parse.require ((w ≠ "" && w ≠ "from" && w ≠ "as") || c == some '\x7b' || c == some '*' ||
      c.any isQuote)

/-- A name that is imported or exported: any word or a string. -/
def externalName : Parse Tree := leaf .identifier Parse.anyWord <|> string

/-- A name in a list of imports or exports, and the name it gets. -/
def specifier (kind : NodeKind) : Parse Tree :=
  node kind do
    typeOnly
    let name ← within .name externalName
    let asName ← maybe (do Parse.word "as"; within .asName externalName)
    return name :: asName

/-- The import of a whole module. -/
def namespaceImport : Parse Tree :=
  node .namespaceImport do
    Parse.sign "*"
    Parse.word "as"
    return [← identifier]

/-- Imports by name. -/
def namedImports : Parse Tree :=
  node .namedImports do
    Parse.sign "\x7b"
    let items ← commaList (specifier .importSpecifier)
    Parse.sign "\x7d"
    return items

/-- What is imported. -/
def importClause : Parse Tree :=
  node .importClause <|
    (do return [← namespaceImport]) <|> (do return [← namedImports]) <|>
    (do
      let name ← identifier
      let more ← maybe (do Parse.sign ","; namespaceImport <|> namedImports)
      return name :: more)

/-- The import of a module by a call. -/
def importRequireClause : Parse Tree :=
  node .importRequireClause do
    let name ← identifier
    Parse.sign "="
    Parse.word "require"
    Parse.sign "("
    let source ← within .source string
    Parse.sign ")"
    return [name, source]

/-- An import. -/
def importStatement (l : Level) : Parse Tree :=
  node .importStatement do
    Parse.word "import"
    let parts ← imported <|> (do typeOnly; imported)
    let options ← maybe (importAttribute l)
    Parse.semicolon
    return parts ++ options
where
  /-- What is imported, and from where. -/
  imported : Parse (List Tree) :=
    (do
      let clause ← importClause
      return [clause, ← fromClause]) <|>
    (do return [← importRequireClause]) <|>
    (do return [← within .source string])

/-! ## Exports -/

/-- Exports by name. -/
def exportClause : Parse Tree :=
  node .exportClause do
    Parse.sign "\x7b"
    let items ← commaList (specifier .exportSpecifier)
    Parse.sign "\x7d"
    return items

/-- The export of a whole module under a name. -/
def namespaceExport : Parse Tree :=
  node .namespaceExport do
    Parse.sign "*"
    Parse.word "as"
    return [← externalName]

/-- What is exported by name, and from where. -/
def exportedNames (l : Level) : Parse (List Tree) := do
  let _ ← Parse.option (do
    Parse.word "type"
    let c ← Parse.peekChar
    Parse.require (c == some '\x7b' || c == some '*'))
  let parts ←
    (do
      let what ← namespaceExport <|> signNode "*"
      return [what, ← fromClause]) <|>
    (do
      let clause ← exportClause
      return clause :: (← maybe fromClause))
  let options ← maybe (importAttribute l)
  Parse.semicolon
  return parts ++ options

/-- What is exported by default: a declaration with a name, or the value of an expression. -/
def exportedDefault (l : Level) : Parse (List Tree) := do
  let head ← wordNode "default"
  (do return [head, ← within .declaration (declaration l)]) <|>
    (do
      let e ← within .value (l.read .expression)
      Parse.semicolon
      return [head, e])

/-- What a module exports in ways of its own. -/
def exportedSpecially (l : Level) : Parse (List Tree) :=
  (do
    Parse.sign "="
    let e ← l.read .expression
    Parse.semicolon
    return [e]) <|>
  (do
    Parse.word "as"
    Parse.word "namespace"
    let name ← identifier
    Parse.semicolon
    return [name])

/-- An export. -/
def exportStatement (l : Level) : Parse Tree :=
  node .exportStatement do
    let decorators ← Parse.many (l.read .decorator)
    Parse.word "export"
    let parts ← exportedDefault l <|> exportedNames l <|> exportedSpecially l <|>
      (do return [← within .declaration (declaration l)])
    return decorators ++ parts

/-! ## Other statements -/

/-- A block of statements. -/
def block (l : Level) : Parse Tree :=
  node .statementBlock do
    Parse.sign "\x7b"
    let body ← Parse.many (l.read .statement)
    Parse.sign "\x7d"
    Parse.blockEnd
    return body

/-- A statement that is an expression. A namespace is one, too. -/
def expressionStatement (l : Level) : Parse Tree :=
  node .expressionStatement do
    let e ← internalModule l <|> l.read .expressions
    if e.is .internalModule then
      let _ ← Parse.option Parse.semicolon
    else Parse.semicolon
    return [e]

/-- A condition in parentheses. -/
def condition (l : Level) : Parse Tree := parenthesized l

/-- A conditional statement. -/
def ifStatement (l : Level) : Parse Tree :=
  node .ifStatement do
    Parse.word "if"
    let c ← condition l
    let yes ← l.read .statement
    let no ← maybe (node .elseClause (do Parse.word "else"; return [← l.read .statement]))
    return c :: yes :: no

/-- The header of a loop over the items or keys of a value. -/
def forInHeader (l : Level) : Parse (List Tree) := do
  let left ←
    (do
      let _ ← Parse.oneWord ["let", "const", "var"]
      bindingTarget l) <|>
    destructuring l <|> l.read .operand
  let value ← maybe (initializer l)
  let _ ← Parse.oneWord ["in", "of"]
  let right ← l.read .expressions
  Parse.sign ")"
  return left.inField .left :: value ++ [right]

/-- A loop over the items or keys of a value. -/
def forInStatement (l : Level) : Parse Tree :=
  node .forInStatement do
    Parse.word "for"
    let _ ← Parse.option (Parse.word "await")
    Parse.sign "("
    let header ← forInHeader l
    return header ++ [← l.read .statement]

/-- A loop with a start, a condition and a step. -/
def forStatement (l : Level) : Parse Tree :=
  node .forStatement do
    Parse.word "for"
    Parse.sign "("
    let start ← lexicalDeclaration l <|> variableDeclaration l <|>
      leaf .emptyStatement (Parse.sign ";") <|>
      (do let e ← l.read .expressions; Parse.sign ";"; return e)
    let c ← leaf .emptyStatement (Parse.sign ";") <|>
      (do let e ← l.read .expressions; Parse.sign ";"; return e)
    let step ← maybe (l.read .expressions)
    Parse.sign ")"
    return start :: c :: step ++ [← l.read .statement]

/-- A loop with its condition in front. -/
def whileStatement (l : Level) : Parse Tree :=
  node .whileStatement do
    Parse.word "while"
    return [← condition l, ← l.read .statement]

/-- A loop with its condition behind. -/
def doStatement (l : Level) : Parse Tree :=
  node .doStatement do
    Parse.word "do"
    let body ← l.read .statement
    Parse.word "while"
    let c ← condition l
    let _ ← Parse.option Parse.semicolon
    return [body, c]

/-- Statements for the members of an object. -/
def withStatement (l : Level) : Parse Tree :=
  node .withStatement do
    Parse.word "with"
    return [← condition l, ← l.read .statement]

/-- A choice between cases. -/
def switchStatement (l : Level) : Parse Tree :=
  node .switchStatement do
    Parse.word "switch"
    let value ← condition l
    let body ← node .switchBody do
      Parse.sign "\x7b"
      let cases ← Parse.many <|
        node .switchCase (do
          Parse.word "case"
          let e ← l.read .expressions
          Parse.sign ":"
          return e :: (← Parse.many (l.read .statement))) <|>
        node .switchDefault (do
          Parse.word "default"
          Parse.sign ":"
          Parse.many (l.read .statement))
      Parse.sign "\x7d"
      return cases
    return [value, body]

/-- Statements with others for the case that they fail. -/
def tryStatement (l : Level) : Parse Tree :=
  node .tryStatement do
    Parse.word "try"
    let body ← l.read .block
    let handler ← maybe <| node .catchClause do
      Parse.word "catch"
      let caught ← Parse.option do
        Parse.sign "("
        let p ← bindingTarget l
        let ascription ← maybe (typeAscription l)
        Parse.sign ")"
        return p.inField .parameter :: ascription
      return caught.getD [] ++ [← l.read .block]
    let finalizer ← maybe <| node .finallyClause do
      Parse.word "finally"
      return [← l.read .block]
    return body :: handler ++ finalizer

/-- A word with an expression on its line, or without one. -/
def jumpWithValue (kind : NodeKind) (w : String) (l : Level) : Parse Tree :=
  node kind do
    Parse.word w
    let e ← maybe (do Parse.sameLine; l.read .expressions)
    Parse.semicolon
    return e

/-- A word with a label on its line, or without one. -/
def jumpToLabel (kind : NodeKind) (w : String) : Parse Tree :=
  node kind do
    Parse.word w
    let target ← maybe (do Parse.sameLine; wordLeaf .statementIdentifier)
    Parse.semicolon
    return target

/-- A statement with a label. -/
def labeledStatement (l : Level) : Parse Tree :=
  node .labeledStatement do
    let name ← wordLeaf .statementIdentifier
    Parse.sign ":"
    return [name, ← l.read .statement]

/-- A statement that a word of the grammar starts. -/
def wordStatement (l : Level) (w : String) : Parse Tree :=
  match w with
  | "if" => ifStatement l
  | "for" => forInStatement l <|> forStatement l
  | "while" => whileStatement l
  | "do" => doStatement l
  | "with" => withStatement l
  | "switch" => switchStatement l
  | "try" => tryStatement l
  | "return" => jumpWithValue .returnStatement w l
  | "throw" => jumpWithValue .throwStatement w l
  | "break" => jumpToLabel .breakStatement w
  | "continue" => jumpToLabel .continueStatement w
  | "debugger" => leaf .debuggerStatement (do Parse.word w; Parse.semicolon)
  | "export" => exportStatement l
  | "import" => importStatement l <|> importAlias <|> expressionStatement l
  | "namespace" => expressionStatement l
  | _ => declaration l <|> labeledStatement l <|> expressionStatement l

/-- A statement. -/
def statement (l : Level) : Parse Tree := do
  match ← Parse.peekChar with
  | some '\x7b' => block l
  | some ';' => leaf .emptyStatement (Parse.sign ";")
  | some '@' => exportStatement l <|> classDeclaration l
  | some _ => wordStatement l (← Parse.peekWord)
  | none => Parse.fail

end RootCause.Source
