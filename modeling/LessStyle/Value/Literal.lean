import LessStyle.Text.Basic

/-!
# Literals in a value

A quoted string and the argument of `url(` are literals: a pattern must not be found inside them.
`mask` blanks them out, one space for each byte, so that offsets in the masked text are offsets in the
value.
-/

namespace LessStyle

open Text

/-- The text starts with `url(`, in upper or lower case. -/
def startsUrl (s : Text) : Bool := sameIgnoringCase (s.take 4) ['u', 'r', 'l', '(']

/-- A double or a single quote. -/
def isQuote (c : Char) : Bool := c == '"' || c == '\''

/-- The number of characters of `s` that belong to the string that the quote `q` before `s` opens, to
the end if it is not closed. -/
def stringWidth (q : Char) (s : Text) : Nat := (closing? q false s).getD s.length

/-- The number of characters of `s` that belong to the `url(` that a character before `s` begins, to
the end if it is not closed. -/
def urlWidth (s : Text) : Nat := (through? ')' s).getD s.length

/-- The number of characters of `s` that belong to the literal that begins with `c`, if one does. -/
def literalWidth? (c : Char) (s : Text) : Option Nat :=
  if isQuote c then some (stringWidth c s)
  else if startsUrl (c :: s) then some (urlWidth s)
  else none

/-- As many spaces as the text has bytes. -/
def spacesFor (s : Text) : Text := List.replicate s.byteLength ' '

/-- The value with its literals blanked out. -/
def mask (s : Text) : Text :=
  match s with
  | [] => []
  | c :: s =>
    match literalWidth? c s with
    | some n => spacesFor (c :: s.take n) ++ mask (s.drop n)
    | none => c :: mask s
termination_by s.length
decreasing_by all_goals simp only [List.length_drop, List.length_cons]; omega

end LessStyle
