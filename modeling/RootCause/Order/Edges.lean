import RootCause.Order.Model

/-!
# Dependency edges

An edge leads from a diagnostic to one that is to be shown after it. There are two kinds: from a
problem inside the declaration of a symbol to a problem where the symbol is used, and from the
first problem of a file to the problems of the files that import it. Edges connect identities, and
none leads from an identity to itself.
-/

namespace RootCause.Order

/-- The diagnostic `source` is shown before `target`. -/
structure Edge where
  source : Id
  target : Id
  deriving DecidableEq, Repr

/-- The order of edges by source and then by target. -/
def Edge.le (e f : Edge) : Bool :=
  e.source < f.source || (e.source == f.source && !(f.target < e.target))

/-- What the edges of a diagnostic depend on. -/
structure Node where
  id : Id
  /-- The file in normal form. -/
  file : Path
  line : Nat
  column : Nat
  range : Option (Nat × Nat)
  deriving DecidableEq

variable {σ : Type}

/-- The node of a diagnostic. -/
def Node.of (m : SemanticModel σ) (d : Diagnostic) : Node :=
  ⟨d.id, d.file.normalize, d.line, d.column, m.rangeOf d⟩

/-- Whether the extent of a declaration covers a node. -/
def Node.isIn (n : Node) (s : Span) : Bool :=
  n.file = s.file.normalize && n.range.any fun (start, stop) => s.covers start stop

/-- Whether a node comes before another one of its file, by line, column and identity. -/
def Node.precedes (a b : Node) : Bool :=
  a.line < b.line ∨ (a.line = b.line ∧
    (a.column < b.column ∨ (a.column = b.column ∧ a.id < b.id)))

/-- The first node of a list, by line, column and identity. -/
def Node.first? : List Node → Option Node
  | [] => none
  | n :: ns =>
    match first? ns with
    | none => some n
    | some best => if best.precedes n then some best else some n

/-- The edge between two identities, unless they are one. -/
def Edge.between (a b : Id) : List Edge := if a = b then [] else [⟨a, b⟩]

/-- The edges to a diagnostic from the nodes inside the declarations of its symbols. -/
def usageEdges [DecidableEq σ] (m : SemanticModel σ) (nodes : List Node) (usage : Diagnostic) :
    List Edge :=
  (m.symbolsOf usage).flatMap fun symbol =>
    (m.spans symbol).flatMap fun span =>
      (nodes.filter (·.isIn span)).flatMap fun n => Edge.between n.id usage.id

/-- The edges to the nodes of a file from the first nodes of the files that it imports. -/
def importEdges (m : SemanticModel σ) (nodes : List Node) (file : Path) : List Edge :=
  (m.imports file).flatMap fun imported =>
    let target := imported.normalize
    if target = file then []
    else
      match Node.first? (nodes.filter (·.file = target)) with
      | none => []
      | some first => (nodes.filter (·.file = file)).flatMap fun n => Edge.between first.id n.id

/-- Edges in their order, each once. -/
def Edge.sorted (es : List Edge) : List Edge := (distinct es).mergeSort Edge.le

/-- The dependency edges between some diagnostics, in order. -/
def edges [DecidableEq σ] (m : SemanticModel σ) (ds : List Diagnostic) : List Edge :=
  let nodes := ds.map (Node.of m)
  Edge.sorted
    (ds.flatMap (usageEdges m nodes) ++
      (distinct (nodes.map (·.file))).flatMap (importEdges m nodes))

end RootCause.Order
