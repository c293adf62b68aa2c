import RootCause.Output.Format
import RootCause.Path

/-!
# Layers of values

A value may be given in several layers, of which a later one covers those before it. Where it gives
nothing, an optional value shows what lies below; all other values cover each other completely.
-/

namespace RootCause

/-- Values that can be given in layers. -/
class Overlay (α : Type) where
  /-- What shows of two layers, the second of which lies on top. -/
  overlay : α → α → α

export Overlay (overlay)

namespace Overlay

/-- Values of which only the topmost shows. -/
abbrev topmost {α : Type} : Overlay α := ⟨fun _ upper => upper⟩

instance : Overlay Bool := topmost
instance : Overlay Nat := topmost
instance : Overlay String := topmost
instance : Overlay Path := topmost
instance : Overlay Output.ColourMode := topmost

/-- A list is covered as a whole. -/
instance {α : Type} : Overlay (List α) := topmost

/-- Nothing on top leaves what lies below. -/
instance {α : Type} [Overlay α] : Overlay (Option α) where
  overlay
    | some a, some b => some (overlay a b)
    | none, b => b
    | a, none => a

variable {α : Type} [Overlay α]

@[simp] theorem overlay_none (a : Option α) : overlay a none = a := by cases a <;> rfl

@[simp] theorem none_overlay (a : Option α) : overlay none a = a := by cases a <;> rfl

/-- What shows of some layers, the last of which lies on top. -/
def all? : List α → Option α
  | [] => none
  | a :: layers => some (layers.foldl overlay a)

end Overlay

end RootCause
