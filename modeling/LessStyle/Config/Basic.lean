import LessStyle.Dict

/-!
# Configurations

A configuration gives rules their settings: on or off, a list of items, or a text, which counts as a
list of one. A name that no rule has is kept and does nothing.
-/

namespace LessStyle

/-- The setting of a rule. -/
inductive Setting where
  | flag (on : Bool)
  | items (names : List Text)
  | text (value : Text)
  deriving DecidableEq, Repr

namespace Setting

/-- A rule runs with this setting: it is not off and not empty. -/
def isEnabled : Setting → Bool
  | flag on => on
  | items names => !names.isEmpty
  | text value => !value.isEmpty

/-- The setting covers `item`: everything if it is on. -/
def includes (s : Setting) (item : Text) : Bool :=
  match s with
  | flag on => on
  | items names => names.contains item
  | text value => value == item

end Setting

/-- Settings by the name of the rule. -/
abbrev Config := Dict Setting

/-- No settings. -/
def Config.empty : Config := []

end LessStyle
