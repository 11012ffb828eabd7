import LessStyle.Json.Basic
import LessStyle.Number.Shortest
import LessStyle.Text.Quoted

/-!
# Writing JSON

Two layouts: all on one line, or one item a line with two more spaces for every level. In a string only
the quote, the backslash and the control characters below U+0020 are escaped.
-/

namespace LessStyle.Json

/-- One character inside a string. -/
def escape (c : Char) : Text :=
  match c with
  | '"' => ['\\', '"']
  | '\\' => ['\\', '\\']
  | '\x08' => ['\\', 'b']
  | '\t' => ['\\', 't']
  | '\n' => ['\\', 'n']
  | '\x0c' => ['\\', 'f']
  | '\r' => ['\\', 'r']
  | c =>
    if c.toNat < 0x20 then
      let digits := Text.hex c.toNat
      ['\\', 'u'] ++ List.replicate (4 - digits.length) '0' ++ digits
    else [c]

/-- A string with its quotes. -/
def quote (s : Text) : Text := '"' :: s.flatMap escape ++ ['"']

/-- A whole number. -/
def integerText (n : Int) : Text :=
  if n < 0 then '-' :: Text.decimal n.natAbs else Text.decimal n.natAbs

mutual

/-- The value on one line without blanks. -/
def compact : Json → Text
  | null => "null".toList
  | bool b => (if b then "true" else "false").toList
  | integer n => integerText n
  | float x => x.text
  | string s => quote s
  | list [] => ['[', ']']
  | list (j :: js) => '[' :: j.compact ++ compactItems js ++ [']']
  | object [] => ['{', '}']
  | object ((name, j) :: fs) =>
    '{' :: quote name ++ ':' :: j.compact ++ compactFields fs ++ ['}']

/-- Further items of a list. -/
def compactItems : List Json → Text
  | [] => []
  | j :: js => ',' :: j.compact ++ compactItems js

/-- Further fields of an object. -/
def compactFields : List (Text × Json) → Text
  | [] => []
  | (name, j) :: fs => ',' :: quote name ++ ':' :: j.compact ++ compactFields fs

end

/-- A line break and two spaces for each level. -/
def breakAt (level : Nat) : Text := '\n' :: List.replicate (2 * level) ' '

mutual

/-- The value over several lines; it begins on a line of the given level. -/
def pretty (level : Nat) : Json → Text
  | list (j :: js) =>
    '[' :: breakAt (level + 1) ++ j.pretty (level + 1) ++ prettyItems (level + 1) js ++
      breakAt level ++ [']']
  | object ((name, j) :: fs) =>
    '{' :: breakAt (level + 1) ++ quote name ++ ':' :: ' ' :: j.pretty (level + 1) ++
      prettyFields (level + 1) fs ++ breakAt level ++ ['}']
  | list [] => ['[', ']']
  | object [] => ['{', '}']
  | null => "null".toList
  | bool b => (if b then "true" else "false").toList
  | integer n => integerText n
  | float x => x.text
  | string s => quote s

/-- Further items of a list. -/
def prettyItems (level : Nat) : List Json → Text
  | [] => []
  | j :: js => ',' :: breakAt level ++ j.pretty level ++ prettyItems level js

/-- Further fields of an object. -/
def prettyFields (level : Nat) : List (Text × Json) → Text
  | [] => []
  | (name, j) :: fs =>
    ',' :: breakAt level ++ quote name ++ ':' :: ' ' :: j.pretty level ++ prettyFields level fs

end

end LessStyle.Json
