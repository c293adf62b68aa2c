import RootCause.Distinct
import RootCause.Source.Tree
import RootCause.Text.Blank
import RootCause.Text.Utf8

/-!
# Facts of a file

What a syntax tree says about names: which ones it declares in which scope, which ones it imports
and exports, and which modules it mentions. The tree is walked from the root down, the last child
before the ones in front of it, so that the facts come in the reverse of the text's order; where a
name is declared twice in a scope, the first fact is the declaration that counts.
-/

namespace RootCause.Scope

open Source (Tree NodeKind Kind Field)

/-! ## Scopes -/

/-- The kinds of nodes that are scopes. -/
def scopeKinds : List NodeKind :=
  [.program, .statementBlock, .functionDeclaration, .generatorFunctionDeclaration,
    .functionExpression, .generatorFunction, .arrowFunction, .methodDefinition, .forStatement,
    .forInStatement, .catchClause]

/-- The kinds of declarations whose name is declared in the scope around them. -/
def declarationKinds : List NodeKind :=
  [.functionDeclaration, .generatorFunctionDeclaration, .functionSignature, .classDeclaration,
    .abstractClassDeclaration, .interfaceDeclaration, .typeAliasDeclaration, .enumDeclaration,
    .internalModule, .module]

/-- A scope, by its range and kind. -/
structure ScopeKey where
  start : Nat
  stop : Nat
  kind : NodeKind
  deriving DecidableEq, Repr

/-- The scope that a node is, if it is one. -/
def ScopeKey.of? (t : Tree) : Option ScopeKey :=
  match t.kind with
  | .named k => if scopeKinds.contains k then some ⟨t.start, t.stop, k⟩ else none
  | .token _ => none

/-- The scopes among some nodes. -/
def scopesOf (above : List Tree) : List ScopeKey := above.filterMap ScopeKey.of?

/-- The innermost scope among the nodes around a node, the nearest of which is the first. -/
def enclosing? (above : List Tree) : Option ScopeKey := (scopesOf above).head?

/-! ## Facts -/

/-- What is imported from a module. -/
inductive Imported
  | named (name : String)
  | default
  /-- The module as a whole. -/
  | whole
  deriving DecidableEq, Repr

/-- What a name stands for that is imported from a module. -/
def Imported.ofName (name : String) : Imported :=
  if name = "default" then .default else .named name

/-- Where a declared name comes from. -/
inductive Origin
  /-- It is declared in the file itself. -/
  | here
  | imported (specifier : String) (what : Imported)
  deriving DecidableEq, Repr

/-- A declaration of a name in a scope. -/
structure Declaration where
  name : String
  scope : ScopeKey
  start : Nat
  stop : Nat
  origin : Origin
  deriving DecidableEq, Repr

/-- What an exported name stands for. -/
inductive Referent
  /-- A name that the file declares. -/
  | own (declared : String)
  /-- Something of another module. -/
  | foreign (specifier : String) (what : Imported)
  deriving DecidableEq, Repr

/-- An export of a file. -/
inductive Export
  | named (exported : String) (referent : Referent)
  /-- All names of another module. -/
  | star (specifier : String)
  deriving DecidableEq, Repr

/-- What a node says. -/
inductive Fact
  | declares (d : Declaration)
  | exports (e : Export)
  | mentions (specifier : String)
  deriving DecidableEq, Repr

/-! ## Names in patterns -/

/-- The text of a node. -/
def textOf (source : List Char) (t : Tree) : String :=
  String.ofList (Text.slice t.start t.stop source)

/-- A text without the quotes around it. -/
def unquoted (s : String) : String :=
  String.ofList (Text.trimMatches (fun c => c = '\x22' || c = '\x27' || c = '\x60') s.toList)

/-- The unquoted text of a node. -/
def unquotedText (source : List Char) (t : Tree) : String := unquoted (textOf source t)

mutual

/-- The names that a pattern binds, in the order of the text. -/
def patternNames (source : List Char) : Tree → List String
  | .node l children =>
    match l.kind with
    | .named .identifier | .named .shorthandPropertyIdentifierPattern =>
      [textOf source (.node l children)]
    | .named .pairPattern => namesInField source .value children
    | .named .assignmentPattern | .named .objectAssignmentPattern =>
      namesInField source .left children
    | .named .objectPattern | .named .arrayPattern | .named .restPattern =>
      namesInAll source children
    | _ => []

/-- The names that the first tree in a field binds. -/
def namesInField (source : List Char) (f : Field) : List Tree → List String
  | [] => []
  | c :: cs => if c.label.field = some f then patternNames source c else namesInField source f cs

/-- The names that named trees bind. -/
def namesInAll (source : List Char) : List Tree → List String
  | [] => []
  | c :: cs => (if c.isNamed then patternNames source c else []) ++ namesInAll source cs

end

/-! ## What a node says -/

/-- Declarations of some names in a scope, all with the range of `extent`. -/
def declareAll (names : List String) (scope : ScopeKey) (extent : Tree) : List Fact :=
  names.map fun name => .declares ⟨name, scope, extent.start, extent.stop, .here⟩

/-- The extent of a declaration: that of the export it is part of, or its own. -/
def extentOf (above : List Tree) (t : Tree) : Tree :=
  match above.head? with
  | some parent => if parent.is .exportStatement then parent else t
  | none => t

/-- The name of a declaration, if it has one that is an identifier. -/
def declaredName? (source : List Char) (t : Tree) : Option String :=
  (t.child? .name).bind fun name =>
    if name.is .identifier || name.is .typeIdentifier then some (textOf source name) else none

/-- A declaration with a name. -/
def factsOfDeclaration (source : List Char) (above : List Tree) (t : Tree) : List Fact :=
  match declaredName? source t, enclosing? above with
  | some name, some scope => declareAll [name] scope (extentOf above t)
  | _, _ => []

/-- The names that the pattern in a field of a node binds in the scope around the node. -/
def factsOfPattern (source : List Char) (above : List Tree) (t : Tree) (f : Field) : List Fact :=
  match t.child? f, enclosing? above with
  | some pattern, some scope => declareAll (patternNames source pattern) scope t
  | _, _ => []

/-- The parameter of an arrow function without parentheses, in the scope of the function. -/
def factsOfArrow (source : List Char) (t : Tree) : List Fact :=
  match t.child? .parameter, ScopeKey.of? t with
  | some p, some scope =>
    if p.is .identifier then declareAll [textOf source p] scope p else []
  | _, _ => []

/-- The parameter of a catch clause, in the scope of the clause. -/
def factsOfCatch (source : List Char) (t : Tree) : List Fact :=
  match t.child? .parameter, ScopeKey.of? t with
  | some p, some scope => declareAll (patternNames source p) scope p
  | _, _ => []

/-- The names that part of an import clause binds: name, extent and what it stands for. -/
def importBindings (source : List Char) (part : Tree) : List (String × Tree × Imported) :=
  match part.kind with
  | .named .identifier => [(textOf source part, part, .default)]
  | .named .namespaceImport =>
    match part.namedChildren.find? (·.is .identifier) with
    | some name => [(textOf source name, part, .whole)]
    | none => []
  | .named .namedImports =>
    (part.namedChildren.filter (·.is .importSpecifier)).filterMap fun s =>
      (s.child? .name).map fun name =>
        let imported := unquotedText source name
        let bound := ((s.child? .asName).map (textOf source)).getD imported
        (bound, s, .ofName imported)
  | _ => []

/-- An import. -/
def factsOfImport (source : List Char) (above : List Tree) (t : Tree) : List Fact :=
  match t.child? .source with
  | none => []
  | some s =>
    let specifier := unquotedText source s
    let bindings :=
      match enclosing? above, t.namedChildren.find? (·.is .importClause) with
      | some scope, some clause =>
        (clause.namedChildren.flatMap (importBindings source)).map fun (name, extent, what) =>
          Fact.declares ⟨name, scope, extent.start, extent.stop, .imported specifier what⟩
      | _, _ => []
    .mentions specifier :: bindings

/-- The names that an exported declaration declares. -/
def declaredNames (source : List Char) (t : Tree) : List String :=
  if t.is .lexicalDeclaration || t.is .variableDeclaration then
    (t.namedChildren.filter (·.is .variableDeclarator)).flatMap fun d =>
      match d.child? .name with
      | some name => patternNames source name
      | none => []
  else (declaredName? source t).toList

/-- A default export without a name declares one that only imports can reach. -/
def factsOfAnonymous (above : List Tree) (t : Tree) : List Fact :=
  match enclosing? above with
  | some scope => declareAll ["default"] scope t ++ [.exports (.named "default" (.own "default"))]
  | none => []

/-- The exports in a list of names, of this file or of the module `specifier`. -/
def factsOfExportClause (source : List Char) (specifier : Option String) (clause : Tree) :
    List Fact :=
  (clause.namedChildren.filter (·.is .exportSpecifier)).filterMap fun s =>
    (s.child? .name).map fun name =>
      let declared := unquotedText source name
      let exported := ((s.child? .asName).map (unquotedText source)).getD declared
      match specifier with
      | some specifier => .exports (.named exported (.foreign specifier (.ofName declared)))
      | none => .exports (.named exported (.own declared))

/-- A part of an export that is neither a declaration nor a value. -/
def factsOfExportPart (source : List Char) (specifier : Option String) (part : Tree) :
    List Fact :=
  match part.kind with
  | .named .exportClause => factsOfExportClause source specifier part
  | .named .namespaceExport =>
    match part.namedChildren.getLast?, specifier with
    | some name, some specifier =>
      [.exports (.named (unquotedText source name) (.foreign specifier .whole))]
    | _, _ => []
  | .token "*" =>
    match specifier with
    | some specifier => [.exports (.star specifier)]
    | none => []
  | _ => []

theorem exists_exports_of_mem_factsOfExportClause {source : List Char} {specifier : Option String}
    {clause : Tree} {fact : Fact} (h : fact ∈ factsOfExportClause source specifier clause) :
    ∃ e, fact = .exports e := by
  obtain ⟨s, -, hs⟩ := List.mem_filterMap.mp h
  obtain ⟨name, -, rfl⟩ := Option.map_eq_some_iff.mp hs
  cases specifier <;> exact ⟨_, rfl⟩

/-- All that such a part says is what it exports. -/
theorem exists_exports_of_mem_factsOfExportPart {source : List Char} {specifier : Option String}
    {part : Tree} {fact : Fact} (h : fact ∈ factsOfExportPart source specifier part) :
    ∃ e, fact = .exports e := by
  unfold factsOfExportPart at h
  split at h
  · exact exists_exports_of_mem_factsOfExportClause h
  · split at h
    · exact ⟨_, List.mem_singleton.mp h⟩
    · cases h
  · split at h
    · exact ⟨_, List.mem_singleton.mp h⟩
    · cases h
  · cases h

/-- An export. -/
def factsOfExport (source : List Char) (above : List Tree) (t : Tree) : List Fact :=
  let specifier := (t.child? .source).map (unquotedText source)
  let isDefault := t.children.any fun c => c.kind == .token "default"
  let mentioned := specifier.toList.map Fact.mentions
  let parts :=
    match t.child? .declaration with
    | some d =>
      let names := declaredNames source d
      if isDefault then
        match names.head? with
        | some name => [.exports (.named "default" (.own name))]
        | none => factsOfAnonymous above t
      else names.map fun name => .exports (.named name (.own name))
    | none =>
      match t.child? .value with
      | some v =>
        if v.is .identifier then [.exports (.named "default" (.own (textOf source v)))]
        else factsOfAnonymous above t
      | none => t.children.flatMap (factsOfExportPart source specifier)
  mentioned ++ parts

/-- What a node says, given the nodes around it, the nearest of which is the first. -/
def factsOfNode (source : List Char) (above : List Tree) (t : Tree) : List Fact :=
  match t.kind with
  | .token _ => []
  | .named k =>
    if declarationKinds.contains k then factsOfDeclaration source above t
    else
      match k with
      | .variableDeclarator => factsOfPattern source above t .name
      | .requiredParameter | .optionalParameter => factsOfPattern source above t .pattern
      | .arrowFunction => factsOfArrow source t
      | .catchClause => factsOfCatch source t
      | .importStatement => factsOfImport source above t
      | .exportStatement => factsOfExport source above t
      | _ => []

mutual

/-- What a tree says: the root first, then the last child before the ones in front of it. -/
def factsOfTree (source : List Char) (above : List Tree) : Tree → List Fact
  | .node l children =>
    factsOfNode source above (.node l children) ++
      factsOfTrees source (.node l children :: above) children

/-- What the named trees of a list say, the last one first. -/
def factsOfTrees (source : List Char) (above : List Tree) : List Tree → List Fact
  | [] => []
  | c :: cs =>
    factsOfTrees source above cs ++ (if c.isNamed then factsOfTree source above c else [])

end

/-- The facts of a file by what they are about. -/
structure FileFacts where
  declarations : List Declaration
  exports : List Export
  /-- The modules that are mentioned, each once. -/
  specifiers : List String
  deriving DecidableEq, Repr

/-- Facts sorted by what they are about. -/
def FileFacts.ofFacts (facts : List Fact) : FileFacts where
  declarations := facts.filterMap fun | .declares d => some d | _ => none
  exports := facts.filterMap fun | .exports e => some e | _ => none
  specifiers := distinct (facts.filterMap fun | .mentions s => some s | _ => none)

/-- The facts of the tree of a file. -/
def FileFacts.collect (source : List Char) (tree : Tree) : FileFacts :=
  .ofFacts (factsOfTree source [] tree)

end RootCause.Scope
