import RootCause.Settings.Basic

/-!
# Layers of settings

Settings are a value or none for each of nine names (`Setting`), and agree if they agree under all
of them (`ext_get`). Laying one layer over another chooses between two values under each name
(`Setting.get_overlay`), so what some layers lead to is under each name the value of the last one
that has any (`Setting.get_ofLayers`). Layers are therefore laid over each other in whatever groups
(`ofLayers_flatten`), and one that sets nothing changes nothing.
-/

namespace RootCause

/-- Of two values that cover each other completely, the upper one shows if it is given. -/
theorem Overlay.overlay_eq_or {α : Type} [Overlay α] (h : ∀ a b : α, overlay a b = b)
    (lower upper : Option α) : overlay lower upper = upper.or lower := by
  cases upper with
  | none => exact overlay_none lower
  | some b =>
    cases lower with
    | none => rfl
    | some a => exact congrArg some (h a b)

namespace Settings

/-- The names of the settings, by the types of their values. -/
inductive Setting : Type → Type
  | semantic : Setting Bool
  | tabWidth : Setting Nat
  | limit : Setting Nat
  | blame : Setting Bool
  | history : Setting Nat
  | usesGit : Setting Bool
  | base : Setting String
  | pretty : Setting Bool
  | colours : Setting Output.ColourMode

variable {α : Type}

/-- What a layer sets a setting to, if it sets it. -/
def Setting.get : Setting α → Settings → Option α
  | .semantic, s => s.ordering.semantic
  | .tabWidth, s => s.display.tabWidth
  | .limit, s => s.display.limit
  | .blame, s => s.display.blame
  | .history, s => s.display.history
  | .usesGit, s => s.git.enabled
  | .base, s => s.git.base
  | .pretty, s => s.pretty.enabled
  | .colours, s => s.pretty.colours

/-- Layers that set the same values are the same. -/
theorem ext_get {s t : Settings} (h : ∀ (α : Type) (k : Setting α), k.get s = k.get t) : s = t := by
  obtain ⟨⟨_⟩, ⟨_, _, _, _⟩, ⟨_, _⟩, ⟨_, _⟩⟩ := s
  obtain ⟨⟨_⟩, ⟨_, _, _, _⟩, ⟨_, _⟩, ⟨_, _⟩⟩ := t
  cases h _ .semantic
  cases h _ .tabWidth
  cases h _ .limit
  cases h _ .blame
  cases h _ .history
  cases h _ .usesGit
  cases h _ .base
  cases h _ .pretty
  cases h _ .colours
  rfl

/-! ## Two layers -/

namespace Setting

variable (k : Setting α)

@[simp] theorem get_default : k.get {} = none := by
  cases k <;> rfl

/-- A setting has the value of the upper layer, or else that of the lower one. -/
@[simp] theorem get_overlay (lower upper : Settings) :
    k.get (overlay lower upper) = (k.get upper).or (k.get lower) := by
  cases k <;> exact Overlay.overlay_eq_or (fun _ _ => rfl) _ _

end Setting

theorem overlay_assoc (a b c : Settings) :
    overlay (overlay a b) c = overlay a (overlay b c) :=
  ext_get fun _ k => by simp [Option.or_assoc]

instance : Std.Associative (overlay : Settings → Settings → Settings) := ⟨overlay_assoc⟩

theorem overlay_default (s : Settings) : overlay s {} = s :=
  ext_get fun _ k => by simp

theorem default_overlay (s : Settings) : overlay {} s = s :=
  ext_get fun _ k => by simp

/-! ## Many layers -/

theorem foldl_overlay (s : Settings) (layers : List Settings) :
    layers.foldl overlay s = overlay s (ofLayers layers) := by
  calc layers.foldl overlay s
      = layers.foldl overlay (overlay s {}) := by rw [overlay_default]
    _ = overlay s (ofLayers layers) := List.foldl_assoc

theorem ofLayers_cons (s : Settings) (layers : List Settings) :
    ofLayers (s :: layers) = overlay s (ofLayers layers) := by
  rw [ofLayers, List.foldl_cons, default_overlay, foldl_overlay]

theorem ofLayers_append (below above : List Settings) :
    ofLayers (below ++ above) = overlay (ofLayers below) (ofLayers above) := by
  rw [ofLayers, List.foldl_append, foldl_overlay]
  rfl

/-- Layers may be laid over each other in groups. -/
theorem ofLayers_flatten (groups : List (List Settings)) :
    ofLayers (groups.map ofLayers) = ofLayers groups.flatten := by
  induction groups with
  | nil => rfl
  | cons group groups ih =>
    rw [List.map_cons, ofLayers_cons, ih, List.flatten_cons, ofLayers_append]

namespace Setting

variable (k : Setting α)

/-- A setting has the value of the first layer from above that sets it. -/
theorem get_ofLayers (layers : List Settings) :
    k.get (ofLayers layers) = layers.reverse.findSome? k.get := by
  induction layers with
  | nil => exact k.get_default
  | cons s layers ih =>
    rw [ofLayers_cons, get_overlay, ih, List.reverse_cons, List.findSome?_append,
      List.findSome?_singleton]

/-- The last of some layers that set a setting sets it to `v`. -/
def LastSets (layers : List Settings) (v : α) : Prop :=
  ∃ below layer above, layers = below ++ layer :: above ∧ k.get layer = some v ∧
    ∀ l ∈ above, k.get l = none

theorem get_ofLayers_eq_some_iff {layers : List Settings} {v : α} :
    k.get (ofLayers layers) = some v ↔ k.LastSets layers v := by
  rw [get_ofLayers, List.findSome?_eq_some_iff]
  constructor
  · rintro ⟨above, layer, below, hlayers, hlayer, habove⟩
    refine ⟨below.reverse, layer, above.reverse, ?_, hlayer, fun l hl => ?_⟩
    · simpa using congrArg List.reverse hlayers
    · exact habove l (List.mem_reverse.mp hl)
  · rintro ⟨below, layer, above, rfl, hlayer, habove⟩
    refine ⟨above.reverse, layer, below.reverse, by simp, hlayer, fun l hl => ?_⟩
    exact habove l (List.mem_reverse.mp hl)

theorem get_ofLayers_eq_none_iff {layers : List Settings} :
    k.get (ofLayers layers) = none ↔ ∀ l ∈ layers, k.get l = none := by
  rw [get_ofLayers, List.findSome?_eq_none_iff]
  simp only [List.mem_reverse]

end Setting

/-- **Each setting is taken from the last layer that sets it**, and is not set if no layer sets it.
Laying layers over each other is associative with the layer that sets nothing as its identity, so
that layers may be grouped in any way. -/
theorem layers_cover :
    (∀ (layers : List Settings) (α : Type) (k : Setting α),
      (∀ v, k.get (ofLayers layers) = some v ↔ k.LastSets layers v) ∧
        (k.get (ofLayers layers) = none ↔ ∀ l ∈ layers, k.get l = none)) ∧
    (∀ a b c : Settings, overlay (overlay a b) c = overlay a (overlay b c)) ∧
    (∀ s : Settings, overlay s {} = s ∧ overlay {} s = s) ∧
    ∀ groups : List (List Settings), ofLayers (groups.map ofLayers) = ofLayers groups.flatten :=
  ⟨fun _ _ k => ⟨fun _ => k.get_ofLayers_eq_some_iff, k.get_ofLayers_eq_none_iff⟩, overlay_assoc,
    fun s => ⟨overlay_default s, default_overlay s⟩, ofLayers_flatten⟩

end Settings

end RootCause
