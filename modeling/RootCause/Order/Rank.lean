import RootCause.Order.Edges

/-!
# Ranking

The identities of a list, put into an order that respects the edges between them. A machine places
one identity at a time: of those whose predecessors are all placed it takes the smallest. What it
cannot place lies on a cycle or behind one, and follows in the order of the list.
-/

namespace RootCause.Order

/-- Identities in the order of their ranks. -/
structure Ranking where
  order : List Id
  deriving DecidableEq, Repr

namespace Ranking

/-- The rank of an identity. -/
def get? (r : Ranking) (id : Id) : Option Nat := position? id r.order

/-- How many identities have a rank. -/
def size (r : Ranking) : Nat := r.order.length

/-- Whether no identity has a rank. -/
def isEmpty (r : Ranking) : Bool := r.order.isEmpty

end Ranking

/-- The edges between different identities of a list, each once. -/
def innerEdges (ids : List Id) (es : List Edge) : List Edge :=
  distinct (es.filter fun e => e.source ≠ e.target ∧ e.source ∈ ids ∧ e.target ∈ ids)

/-- An identity put into a list in ascending order. -/
def insertSorted (id : Id) : List Id → List Id
  | [] => [id]
  | a :: l => if id < a then id :: a :: l else a :: insertSorted id l

/-- Where the machine stands. -/
structure Placement where
  /-- The identities placed so far, in order. -/
  placed : List Id
  /-- The identities that can be placed next, in ascending order. -/
  ready : List Id
  /-- How many predecessors of each identity are not placed yet. -/
  waiting : List (Id × Nat)
  deriving DecidableEq

namespace Placement

/-- How many edges lead to an identity. -/
def inDegree (es : List Edge) (id : Id) : Nat := (es.filter (·.target = id)).length

/-- Nothing is placed yet. -/
def start (ids : List Id) (es : List Edge) : Placement :=
  let waiting := ids.map fun id => (id, inDegree es id)
  ⟨[], ((waiting.filter (·.2 = 0)).map (·.1)).foldr insertSorted [], waiting⟩

/-- Whether an edge leads from one identity to another. -/
def leadsTo (es : List Edge) (source target : Id) : Bool := es.contains ⟨source, target⟩

/-- Places the smallest identity that can be placed: its successors wait for one predecessor less,
and those that wait for no other can be placed from now on. -/
def step (es : List Edge) (p : Placement) : Placement :=
  match p.ready with
  | [] => p
  | next :: ready =>
    let waiting := p.waiting.map fun (id, n) => if leadsTo es next id then (id, n - 1) else (id, n)
    let freed := (waiting.filter fun (id, n) => leadsTo es next id ∧ n = 0).map (·.1)
    ⟨p.placed ++ [next], freed.foldr insertSorted ready, waiting⟩

/-- So many steps. -/
def run (es : List Edge) : Nat → Placement → Placement
  | 0, p => p
  | n + 1, p => run es n (p.step es)

end Placement

/-- The ranking of the identities of a list. -/
def rank (ids : List Id) (es : List Edge) : Ranking :=
  let known := distinct ids
  let inner := innerEdges known es
  let placed := ((Placement.start known inner).run inner known.length).placed
  ⟨placed ++ known.filter fun id => id ∉ placed⟩

end RootCause.Order
