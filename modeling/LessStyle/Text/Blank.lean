import LessStyle.Text.Basic

/-!
# Blanks and white space

Two classes of empty characters. The five *blanks* separate tokens and items. *White space* is the
property `White_Space` of the Unicode standard; trimming goes by it, so it also removes a no-break
space, which is not a blank.
-/

namespace LessStyle.Text

/-- Space, line feed, tab, carriage return or form feed. -/
def isBlank (c : Char) : Bool :=
  c == ' ' || c == '\n' || c == '\t' || c == '\r' || c == '\x0c'

/-- The Unicode property `White_Space`. -/
def isWhite (c : Char) : Bool :=
  let n := c.toNat
  (0x9 ≤ n && n ≤ 0xd) || n == 0x20 || n == 0x85 || n == 0xa0 || n == 0x1680 ||
    (0x2000 ≤ n && n ≤ 0x200a) || n == 0x2028 || n == 0x2029 || n == 0x202f || n == 0x205f ||
    n == 0x3000

/-- Every blank is white space. -/
theorem isWhite_of_isBlank {c : Char} (h : isBlank c = true) : isWhite c = true := by
  simp only [isBlank, Bool.or_eq_true, beq_iff_eq] at h
  rcases h with (((rfl | rfl) | rfl) | rfl) | rfl <;> decide

/-- Without white space in front. -/
def trimStart (s : Text) : Text := s.dropWhile isWhite

/-- Without white space at the end. -/
def trimEnd (s : Text) : Text := dropEndWhile isWhite s

/-- Without white space on both sides. -/
def trim (s : Text) : Text := trimEnd (trimStart s)

/-- Nothing but white space. -/
def isWhiteOnly (s : Text) : Bool := s.all isWhite

end LessStyle.Text
