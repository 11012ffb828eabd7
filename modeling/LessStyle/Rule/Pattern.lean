import LessStyle.Text.WordChar

/-!
# Patterns with a boundary

The first place in a text where a pattern matches and the character before it, if any, lets it start.
-/

namespace LessStyle

/-- The offset in bytes and the text of the first match. A match starts where the character before it
satisfies `opens` or there is none, and `width?` gives its width. `previous` stands before the text,
which begins at `offset`. -/
def findFrom? (opens : Char → Bool) (width? : Text → Option Nat) (previous : Option Char)
    (offset : Nat) : Text → Option (Nat × Text)
  | [] => none
  | c :: s =>
    match if previous.all opens then width? (c :: s) else none with
    | some n => some (offset, (c :: s).take n)
    | none => findFrom? opens width? (some c) (offset + c.utf8Size) s

/-- The first match in a text. -/
def findPattern? (opens : Char → Bool) (width? : Text → Option Nat) (s : Text) :
    Option (Nat × Text) :=
  findFrom? opens width? none 0 s

/-- The text is empty or its first character satisfies `p`. -/
def endsOr (p : Char → Bool) : Text → Bool
  | [] => true
  | c :: _ => p c

end LessStyle
