import LessStyle.Number.Binary64
import LessStyle.Text.Basic

/-!
# JSON values

The values that configurations are read from and reports are written as. A number that is not whole,
or too large for 64 bits, is a double.
-/

namespace LessStyle

/-- A JSON value. The fields of an object stand in the order they are written in. -/
inductive Json where
  | null
  | bool (value : Bool)
  | integer (value : Int)
  | float (value : Binary64)
  | string (value : Text)
  | list (items : List Json)
  | object (fields : List (Text × Json))
  deriving Repr

end LessStyle
