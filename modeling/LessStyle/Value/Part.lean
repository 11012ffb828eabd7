import LessStyle.Text.Blank

/-!
# Parts of a value

A value is split at separators, as lists are in a stylesheet: a separator inside quotes or parentheses,
or after a backslash, does not count. `Nesting` follows quotes and parentheses along a text, and
`split` cuts where a separator meets the top level.
-/

namespace LessStyle

/-- Where a character stands: how deep in parentheses, in which quotes, and after a backslash or
not. -/
structure Nesting where
  depth : Nat
  quote : Option Char
  escaped : Bool
  deriving DecidableEq, Repr

namespace Nesting

/-- At the start of a value. -/
def start : Nesting := ⟨0, none, false⟩

/-- After the character `c`. A closing parenthesis too many is not counted. -/
def step (n : Nesting) (c : Char) : Nesting :=
  if n.escaped then { n with escaped := false }
  else if c == '\\' then { n with escaped := true }
  else
    match n.quote with
    | some q => if c == q then { n with quote := none } else n
    | none =>
      if c == '"' || c == '\'' then { n with quote := some c }
      else if c == '(' then { n with depth := n.depth + 1 }
      else if c == ')' then { n with depth := n.depth - 1 }
      else n

/-- Outside quotes and parentheses, and not escaped. -/
def isTop (n : Nesting) : Bool := n.depth == 0 && n.quote.isNone && !n.escaped

/-- One of the characters that `step` acts on. -/
def isMark (c : Char) : Bool := c == '\\' || c == '"' || c == '\'' || c == '(' || c == ')'

/-- The character `c` after a text that left the nesting `n` is a separator. -/
def separates (n : Nesting) (separators : List Char) (c : Char) : Bool :=
  n.isTop && !isMark c && separators.contains c

end Nesting

/-- A piece of a value and its offset in bytes. -/
structure Part where
  offset : Nat
  text : Text
  deriving DecidableEq, Repr

namespace Part

/-- The piece without white space around it, if anything is left. -/
def trim? (p : Part) : Option Part :=
  let front : Text := p.text.takeWhile Text.isWhite
  let text := p.text.trim
  if text.isEmpty then none else some ⟨p.offset + front.byteLength, text⟩

/-- The piece with `c` in front of it, at the offset of `c`. -/
def cons (offset : Nat) (c : Char) : List Part → List Part
  | p :: ps => ⟨offset, c :: p.text⟩ :: ps
  | [] => [⟨offset, [c]⟩]

/-- The pieces between separators of a text at `offset` that follows one with nesting `n`. -/
def segments (separators : List Char) (n : Nesting) (offset : Nat) : Text → List Part
  | [] => [⟨offset, []⟩]
  | c :: s =>
    let rest := segments separators (n.step c) (offset + c.utf8Size) s
    if n.separates separators c then ⟨offset, []⟩ :: rest else cons offset c rest

end Part

/-- The parts of a value between separators at the top level, without white space around them and
without empty ones. -/
def split (separators : List Char) (value : Text) : List Part :=
  (Part.segments separators .start 0 value).filterMap Part.trim?

/-- The parts between blanks. -/
def splitSpace (value : Text) : List Part := split [' ', '\n', '\t', '\r', '\x0c'] value

/-- The parts between commas. -/
def splitComma (value : Text) : List Part := split [','] value

end LessStyle
