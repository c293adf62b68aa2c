import RootCause.Settings.Overlay
import RootCause.TabStops

/-!
# Settings

What can be set, each setting optional, and the values in force where nothing is set. Settings are
given in layers, and each of them is taken from the topmost layer that sets it.
-/

namespace RootCause

namespace Settings

/-- Settings of the order. -/
structure OrderSection where
  /-- Whether causes are ranked before their effects. -/
  semantic : Option Bool := none
  deriving DecidableEq, Inhabited, Repr

/-- Settings of what is shown. -/
structure DisplaySection where
  /-- The tab width that the reporting tools use. -/
  tabWidth : Option Nat := none
  /-- The number of diagnostics that are shown at most. -/
  limit : Option Nat := none
  /-- Whether the last commit of a line is shown. -/
  blame : Option Bool := none
  /-- The number of commits of a line's history that are shown. -/
  history : Option Nat := none
  deriving DecidableEq, Inhabited, Repr

/-- Settings of the use of git. -/
structure GitSection where
  enabled : Option Bool := none
  /-- What to compare files with, instead of the branch that the current one follows. -/
  base : Option String := none
  deriving DecidableEq, Inhabited, Repr

end Settings

/-- A layer of settings. -/
structure Settings where
  ordering : Settings.OrderSection := {}
  display : Settings.DisplaySection := {}
  git : Settings.GitSection := {}
  pretty : Output.PrettySettings := {}
  deriving DecidableEq, Inhabited, Repr

namespace Settings

instance : Overlay OrderSection where
  overlay a b := ⟨overlay a.semantic b.semantic⟩

instance : Overlay DisplaySection where
  overlay a b :=
    ⟨overlay a.tabWidth b.tabWidth, overlay a.limit b.limit, overlay a.blame b.blame,
      overlay a.history b.history⟩

instance : Overlay GitSection where
  overlay a b := ⟨overlay a.enabled b.enabled, overlay a.base b.base⟩

instance : Overlay Output.PrettySettings where
  overlay a b := ⟨overlay a.enabled b.enabled, overlay a.colours b.colours⟩

instance : Overlay Settings where
  overlay a b :=
    ⟨overlay a.ordering b.ordering, overlay a.display b.display, overlay a.git b.git,
      overlay a.pretty b.pretty⟩

/-- The settings that some layers lead to, the last of which lies on top. -/
def ofLayers (layers : List Settings) : Settings := layers.foldl overlay {}

variable (s : Settings)

/-- Whether causes are ranked before their effects. -/
def semantic : Bool := s.ordering.semantic.getD true

/-- The tab width in force. -/
def tabWidth : Nat := s.display.tabWidth.getD TabStops.standard.width

/-- The number of diagnostics that are shown at most. -/
def limit : Option Nat := s.display.limit

/-- Whether the last commit of a line is shown. -/
def blame : Bool := s.display.blame.getD false

/-- The number of commits of a line's history that are shown. -/
def history : Nat := s.display.history.getD 0

/-- Whether git is used. -/
def usesGit : Bool := s.git.enabled.getD true

/-- What to compare files with, if it is set. -/
def base : Option String := s.git.base

end Settings

end RootCause
