import RootCause.Scope.Exports

/-!
# The symbol at a position

The smallest node around a position decides what is asked: a name is looked up in the scopes around
it, from the inside out, and an access to a member of a module asks for what the module exports. On
any other node the question goes to the node around it.
-/

namespace RootCause.Scope

open Source (Tree)

/-! ## Nodes around a range -/

/-- Whether a node ends too early to have a range inside it. A node that ends where the range
starts does so unless it is empty. -/
def endsBefore (start stop : Nat) (t : Tree) : Bool :=
  t.stop < stop || if t.start = t.stop then t.stop < start else t.stop ≤ start

mutual

/-- The nodes around a range in a tree, the smallest one first, followed by those above the tree. -/
def nodesAround (start stop : Nat) (above : List Tree) : Tree → List Tree
  | .node l children => nodesAmong start stop (.node l children :: above) children

/-- The nodes around a range in the first of some trees that does not end before it, if that does
not start after it, followed by those above the trees. -/
def nodesAmong (start stop : Nat) (above : List Tree) : List Tree → List Tree
  | [] => above
  | t :: ts =>
    if endsBefore start stop t then nodesAmong start stop above ts
    else if start < t.start then above
    else nodesAround start stop above t

end

/-! ## Names and members -/

/-- The key of an access: the text of a name, or that of a string between square brackets. -/
def SourceFile.accessKey? (f : SourceFile) (t : Tree) : Option String :=
  match t.kind with
  | .named .memberExpression => (t.child? .property).map (textOf f.source)
  | .named .subscriptExpression =>
    match t.child? .index with
    | some index =>
      if index.is .string then
        some (String.ofList (Text.trimMatches (fun c => c = '\x22' || c = '\x27')
          (textOf f.source index).toList))
      else none
    | none => none
  | _ => none

namespace Project

variable (p : Project) (f : PlacedFile)

/-- What a name stands for in the innermost of some scopes that declares it. -/
def lookup (scopes : List ScopeKey) (name : String) : Search (Option Symbol) := fun seen =>
  match scopes.findSome? fun scope => f.declaration? scope name with
  | some d =>
    let (found, seen) := p.follow p.exportOf f d seen
    (some found, seen)
  | none => (none, seen)

/-- What a member of a symbol stands for: an export if the symbol is a module that has it, and else
the symbol itself. -/
def memberOf (base : Symbol) (key : String) : Search Symbol := fun seen =>
  match base with
  | .module target =>
    match p.exportOf ⟨target, key⟩ seen with
    | (some found, seen) => (found, seen)
    | (none, seen) => (base, seen)
  | .binding .. => (base, seen)

/-- What an access to a member, or to an element by its key, stands for, given what its object
stands for. An element without a string for its key stands for the object. -/
def accessOf (t : Tree) (base : Option Symbol) : Search (Option Symbol) := fun seen =>
  match base with
  | none => (none, seen)
  | some base =>
    match f.accessKey? t with
    | some key =>
      let (found, seen) := p.memberOf base key seen
      (some found, seen)
    | none => (if t.is .memberExpression then none else some base, seen)

mutual

/-- What an expression made of a name and accesses to members stands for. -/
def access (scopes : List ScopeKey) : Tree → Search (Option Symbol)
  | .node l children => fun seen =>
    match l.kind with
    | .named .identifier => p.lookup f scopes (textOf f.source (.node l children)) seen
    | .named .memberExpression | .named .subscriptExpression =>
      let (base, seen) := accessObject scopes children seen
      p.accessOf f (.node l children) base seen
    | _ => (none, seen)

/-- What the object among the parts of an access stands for. -/
def accessObject (scopes : List ScopeKey) : List Tree → Search (Option Symbol)
  | [], seen => (none, seen)
  | t :: ts, seen =>
    if t.label.field = some .object then access scopes t seen else accessObject scopes ts seen

end

/-- What a type of a module stands for. -/
def nestedType (scopes : List ScopeKey) (t : Tree) : Search (Option Symbol) := fun seen =>
  match t.child? .module, t.child? .name with
  | some module, some name =>
    if module.is .identifier then
      match p.lookup f scopes (textOf f.source module) seen with
      | (some base, seen) =>
        let (found, seen) := p.memberOf base (textOf f.source name) seen
        (some found, seen)
      | (none, seen) => (none, seen)
    else (none, seen)
  | _, _ => (none, seen)

/-- The symbol that the smallest of some nodes around each other is about. The name of a property is
about a member where it is accessed, and about nothing elsewhere. -/
def symbolOf : List Tree → Search (Option Symbol)
  | [], seen => (none, seen)
  | t :: above, seen =>
    match t.kind with
    | .named .identifier | .named .typeIdentifier | .named .shorthandPropertyIdentifier =>
      p.lookup f (scopesOf above) (textOf f.source t) seen
    | .named .propertyIdentifier =>
      match above with
      | parent :: outer =>
        if parent.is .memberExpression && t.label.field == some .property then
          p.access f (scopesOf outer) parent seen
        else (none, seen)
      | [] => (none, seen)
    | .named .memberExpression | .named .subscriptExpression =>
      p.access f (scopesOf above) t seen
    | .named .nestedTypeIdentifier => p.nestedType f (scopesOf above) t seen
    | _ => symbolOf above seen

/-- The symbol that a range of a file is about. -/
def symbolAt? (start stop : Nat) : Option Symbol :=
  (p.symbolOf f (nodesAround start stop [] f.tree) []).1

end Project

end RootCause.Scope
