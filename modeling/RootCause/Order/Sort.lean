import RootCause.Order.Rank

/-!
# Presentation order

Diagnostics are sorted by rank, then the most severe first, then by file, line and column. The sort
is stable: diagnostics that agree on all of these keep the order in which they came.
-/

namespace RootCause.Order

/-- What diagnostics are sorted by. -/
structure SortKey where
  rank : Nat
  severity : Nat
  file : String
  line : Nat
  column : Nat
  deriving DecidableEq, Repr

/-- The order of keys: by rank, falling severity, file, line and column. -/
def SortKey.compare (a b : SortKey) : Ordering :=
  (Ord.compare a.rank b.rank).then <|
    (Ord.compare b.severity a.severity).then <|
      (Ord.compare a.file b.file).then <|
        (Ord.compare a.line b.line).then (Ord.compare a.column b.column)

/-- Whether a key comes before another or is equal to it. -/
def SortKey.le (a b : SortKey) : Bool := (a.compare b).isLE

/-- The rank that a diagnostic is sorted by. Without a ranking all are alike, and an identity that
has no rank comes after all that have one. -/
def sortRank (ranking : Option Ranking) (d : Diagnostic) : Nat :=
  match ranking with
  | none => 0
  | some r => (r.get? d.id).getD r.size

/-- The key of a diagnostic. -/
def sortKey (ranking : Option Ranking) (d : Diagnostic) : SortKey :=
  ⟨sortRank ranking d, d.severity.level, d.file.text, d.line, d.column⟩

/-- The diagnostics in presentation order. -/
def sort (ranking : Option Ranking) (ds : List Diagnostic) : List Diagnostic :=
  ((ds.map fun d => (sortKey ranking d, d)).mergeSort fun a b => a.1.le b.1).map (·.2)

/-- The order by severity, file, line and column alone. -/
def byPosition (ds : List Diagnostic) : List Diagnostic := sort none ds

variable {σ : Type} [DecidableEq σ]

/-- The ranking of some diagnostics in a model. -/
def rankingOf (m : SemanticModel σ) (ds : List Diagnostic) : Ranking :=
  rank (ds.map Diagnostic.id) (edges m ds)

/-- The order in which causes come before what they cause; without a model, the order by
position. -/
def order (model : Option (SemanticModel σ)) (ds : List Diagnostic) : List Diagnostic :=
  match model with
  | none => byPosition ds
  | some m => sort (some (rankingOf m ds)) ds

end RootCause.Order
