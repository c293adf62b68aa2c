/-!
# Syntax trees

A tree of nodes over the octets of a source file. A node has a kind, the range of octets it covers
and children in the order of the text; a child may stand in a field of its parent. Words and signs
of the grammar are nodes too, but no named ones.

Which tree a text has is up to what reads it (`Reader`). What is said of names holds for the trees
of any reader.
-/

namespace RootCause.Source

/-- The kinds of named nodes. -/
inductive NodeKind
  -- files and statements
  | program
  | hashBangLine
  | statementBlock
  | expressionStatement
  | emptyStatement
  | ifStatement
  | elseClause
  | forStatement
  | forInStatement
  | whileStatement
  | doStatement
  | withStatement
  | switchStatement
  | switchBody
  | switchCase
  | switchDefault
  | tryStatement
  | catchClause
  | finallyClause
  | returnStatement
  | throwStatement
  | breakStatement
  | continueStatement
  | debuggerStatement
  | labeledStatement
  -- declarations
  | lexicalDeclaration
  | variableDeclaration
  | variableDeclarator
  | functionDeclaration
  | generatorFunctionDeclaration
  | functionSignature
  | classDeclaration
  | abstractClassDeclaration
  | interfaceDeclaration
  | typeAliasDeclaration
  | enumDeclaration
  | enumBody
  | enumAssignment
  | internalModule
  | module
  | ambientDeclaration
  -- modules
  | importStatement
  | importClause
  | namedImports
  | importSpecifier
  | namespaceImport
  | importRequireClause
  | importAlias
  | importAttribute
  | exportStatement
  | exportClause
  | exportSpecifier
  | namespaceExport
  -- classes and objects
  | classBody
  | classHeritage
  | extendsClause
  | implementsClause
  | extendsTypeClause
  | classStaticBlock
  | methodDefinition
  | methodSignature
  | abstractMethodSignature
  | publicFieldDefinition
  | decorator
  | object
  | pair
  | spreadElement
  | computedPropertyName
  -- functions
  | functionExpression
  | generatorFunction
  | arrowFunction
  | formalParameters
  | requiredParameter
  | optionalParameter
  -- patterns
  | objectPattern
  | arrayPattern
  | pairPattern
  | restPattern
  | assignmentPattern
  | objectAssignmentPattern
  | shorthandPropertyIdentifierPattern
  -- expressions
  | identifier
  | propertyIdentifier
  | privatePropertyIdentifier
  | shorthandPropertyIdentifier
  | statementIdentifier
  | undefined
  | this
  | super
  | true
  | false
  | null
  | number
  | string
  | regex
  | templateString
  | templateSubstitution
  | array
  | classExpression
  | parenthesizedExpression
  | sequenceExpression
  | memberExpression
  | subscriptExpression
  | callExpression
  | newExpression
  | arguments
  | metaProperty
  | nonNullExpression
  | instantiationExpression
  | updateExpression
  | unaryExpression
  | awaitExpression
  | yieldExpression
  | typeAssertion
  | binaryExpression
  | asExpression
  | satisfiesExpression
  | ternaryExpression
  | assignmentExpression
  | augmentedAssignmentExpression
  -- markup
  | jsxElement
  | jsxSelfClosingElement
  | jsxOpeningElement
  | jsxClosingElement
  | jsxAttribute
  | jsxExpression
  | jsxNamespaceName
  | jsxText
  -- types
  | typeIdentifier
  | nestedIdentifier
  | nestedTypeIdentifier
  | genericType
  | typeArguments
  | typeParameters
  | typeParameter
  | typeAscription
  | typePredicate
  | asserts
  | predefinedType
  | literalType
  | templateLiteralType
  | parenthesizedType
  | arrayType
  | lookupType
  | tupleType
  | optionalType
  | restType
  | objectType
  | propertySignature
  | callSignature
  | constructSignature
  | indexSignature
  | mappedTypeClause
  | functionType
  | constructorType
  | unionType
  | intersectionType
  | conditionalType
  | inferType
  | readonlyType
  | indexTypeQuery
  | typeQuery
  | thisType
  | existentialType
  | flowMaybeType
  -- what may stand anywhere
  | comment
  /-- Any other kind, as that of a part of the text that does not follow the grammar. -/
  | other
  deriving DecidableEq, Repr, Inhabited

/-- The kind of a node: a named kind, or the word or sign that it is. -/
inductive Kind
  | named (k : NodeKind)
  | token (text : String)
  deriving DecidableEq, Repr, Inhabited

/-- The fields of a node that a child may stand in. -/
inductive Field
  | name
  | value
  | pattern
  | parameter
  | left
  | source
  | declaration
  | asName
  | object
  | property
  | index
  | module
  deriving DecidableEq, Repr

/-- A node without its children. -/
structure Label where
  kind : Kind
  /-- The field of the parent in which the node stands. -/
  field : Option Field
  /-- The offset of the first octet. -/
  start : Nat
  /-- The offset after the last octet. -/
  stop : Nat
  deriving DecidableEq, Repr, Inhabited

/-- A syntax tree. -/
inductive Tree
  | node (label : Label) (children : List Tree)
  deriving Repr, Inhabited

namespace Tree

/-- The node at the root of a tree. -/
def label : Tree → Label
  | node l _ => l

/-- The children of the root. -/
def children : Tree → List Tree
  | node _ cs => cs

/-- The kind of the root. -/
def kind (t : Tree) : Kind := t.label.kind

/-- The offset of the first octet. -/
def start (t : Tree) : Nat := t.label.start

/-- The offset after the last octet. -/
def stop (t : Tree) : Nat := t.label.stop

/-- Whether the root is of a named kind. -/
def isNamed (t : Tree) : Bool :=
  match t.kind with
  | .named _ => Bool.true
  | .token _ => Bool.false

/-- The named kind of the root. A word or sign has none of its own. -/
def nodeKind (t : Tree) : NodeKind :=
  match t.kind with
  | .named k => k
  | .token _ => .other

/-- Whether the root is of the named kind `k`. -/
def is (t : Tree) (k : NodeKind) : Bool := t.kind == .named k

/-- The children that are of a named kind. -/
def namedChildren (t : Tree) : List Tree := t.children.filter isNamed

/-- The first child in a field. -/
def child? (t : Tree) (f : Field) : Option Tree := t.children.find? fun c => c.label.field == some f

/-- The tree in a field of its parent. -/
def inField (f : Field) : Tree → Tree
  | node l cs => node { l with field := some f } cs

/-- The tree as another kind of node. -/
def withKind (k : NodeKind) : Tree → Tree
  | node l cs => node { l with kind := .named k } cs

end Tree

/-- What reads a text into its tree, given whether angle brackets open markup in it. Every text has
a tree, whether it follows the grammar or not. -/
abbrev Reader := Bool → List Char → Tree

end RootCause.Source
