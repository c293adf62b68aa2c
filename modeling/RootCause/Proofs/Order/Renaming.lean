import Mathlib.Data.List.Basic
import RootCause.Order.Sort

/-!
# Models with other symbols

What a model uses for its symbols is its own affair: edges depend on which positions have the same
symbols and on where these are declared. So a model that gives the answers of another one, with
each symbol replaced by its image under an injective map (`SemanticModel.Renames`), cannot be told
from it by any question (`SemanticModel.Agrees`), and leads to the same edges and the same order.
-/

namespace RootCause.Order

variable {σ τ : Type}

/-- The model `m'` answers as `m` does, with `rename` applied to every symbol. -/
structure SemanticModel.Renames (rename : σ → τ) (m : SemanticModel σ) (m' : SemanticModel τ) :
    Prop where
  injective : Function.Injective rename
  symbolsAt : ∀ l, m'.symbolsAt l = (m.symbolsAt l).map rename
  spans : ∀ symbol, m'.spans (rename symbol) = m.spans symbol
  offsetAt : ∀ path line column, m'.offsetAt path line column = m.offsetAt path line column
  imports : ∀ path, m'.imports path = m.imports path

namespace SemanticModel.Renames

variable {rename : σ → τ} {m : SemanticModel σ} {m' : SemanticModel τ}

theorem symbolsAt_eq_iff (h : m.Renames rename m') (l l' : Location) :
    m.symbolsAt l = m.symbolsAt l' ↔ m'.symbolsAt l = m'.symbolsAt l' := by
  have hmap : Function.Injective (List.map rename) := List.map_injective_iff.mpr h.injective
  rw [h.symbolsAt, h.symbolsAt, hmap.eq_iff]

theorem map_spans_eq (h : m.Renames rename m') (l : Location) :
    (m.symbolsAt l).map m.spans = (m'.symbolsAt l).map m'.spans := by
  rw [h.symbolsAt, List.map_map]
  exact List.map_congr_left fun symbol _ => (h.spans symbol).symm

theorem nodeOf_eq (h : m.Renames rename m') : Node.of m' = Node.of m := by
  funext d
  simp only [Node.of, rangeOf, h.offsetAt]

theorem importEdges_eq (h : m.Renames rename m') : importEdges m' = importEdges m := by
  funext nodes file
  simp only [importEdges, h.imports]

variable [DecidableEq σ] [DecidableEq τ]

theorem usageEdges_eq (h : m.Renames rename m') : usageEdges m' = usageEdges m := by
  funext nodes d
  simp only [usageEdges, symbolsOf, h.symbolsAt, distinct_map h.injective, List.flatMap_map,
    h.spans]

theorem edges_eq (h : m.Renames rename m') : edges m' = edges m := by
  funext ds
  simp only [edges, h.nodeOf_eq, h.usageEdges_eq, h.importEdges_eq]

theorem order_eq (h : m.Renames rename m') : order (some m') = order (some m) := by
  funext ds
  simp only [order, rankingOf, h.edges_eq]

end SemanticModel.Renames

/-- Two models agree in all that can be asked of them, whatever their symbols are. -/
structure SemanticModel.Agrees [DecidableEq σ] [DecidableEq τ] (m : SemanticModel σ)
    (m' : SemanticModel τ) : Prop where
  /-- The symbols at a position are declared at the same extents, in the same order. -/
  extents : ∀ l, (m.symbolsAt l).map m.spans = (m'.symbolsAt l).map m'.spans
  /-- The same positions have the same symbols. -/
  symbolsAt_eq_iff : ∀ l l', m.symbolsAt l = m.symbolsAt l' ↔ m'.symbolsAt l = m'.symbolsAt l'
  offsetAt : ∀ path line column, m.offsetAt path line column = m'.offsetAt path line column
  imports : ∀ path, m.imports path = m'.imports path
  edges : ∀ ds, edges m ds = edges m' ds
  order : ∀ ds, order (some m) ds = order (some m') ds

theorem SemanticModel.Renames.agrees [DecidableEq σ] [DecidableEq τ] {rename : σ → τ}
    {m : SemanticModel σ} {m' : SemanticModel τ} (h : m.Renames rename m') : m.Agrees m' where
  extents := h.map_spans_eq
  symbolsAt_eq_iff := h.symbolsAt_eq_iff
  offsetAt path line column := (h.offsetAt path line column).symm
  imports path := (h.imports path).symm
  edges _ := by rw [h.edges_eq]
  order _ := by rw [h.order_eq]

end RootCause.Order
