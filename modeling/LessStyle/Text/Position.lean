import LessStyle.Text.Basic

/-!
# Positions

A position is a line and a column, both counted from one; a column counts characters. The position
reached after a text depends on the text alone (`Position.after`), which is what ties every span of
this library to the source.
-/

namespace LessStyle

/-- A line and a column, both counted from one. -/
structure Position where
  line : Nat
  column : Nat
  deriving DecidableEq, Repr, Inhabited

namespace Position

/-- Where a text starts. -/
def start : Position := ⟨1, 1⟩

/-- The position after the character `c` at `p`. -/
def next (p : Position) (c : Char) : Position :=
  if c == '\n' then ⟨p.line + 1, 1⟩ else ⟨p.line, p.column + 1⟩

/-- The position after the text `s` that begins at `p`. -/
def advance (p : Position) (s : Text) : Position := s.foldl next p

@[simp] theorem advance_nil (p : Position) : p.advance [] = p := rfl

@[simp] theorem advance_cons (p : Position) (c : Char) (s : Text) :
    p.advance (c :: s) = (p.next c).advance s := rfl

@[simp] theorem advance_append (p : Position) (s t : Text) :
    p.advance (s ++ t) = (p.advance s).advance t := List.foldl_append

/-- The position after the text `s` that begins a file. -/
def after (s : Text) : Position := start.advance s

/-- The position behind the text `s` that begins at `p`, counted at once: the line breaks of the text,
and the characters behind the last of them. -/
def behind (p : Position) (s : Text) : Position :=
  match s.reverse.findIdx? (· == '\n') with
  | some n => ⟨p.line + s.count '\n', n + 1⟩
  | none => ⟨p.line, p.column + s.length⟩

end Position

/-- The positions of the first and of the last character of a piece of text. -/
structure Span where
  first : Position
  last : Position
  deriving DecidableEq, Repr, Inhabited

/-- The span of the piece `s` that begins at `p`. -/
def Span.of (p : Position) (s : Text) : Span := ⟨p, p.advance s.dropLast⟩

end LessStyle
