import LessStyle.Text.Position

/-!
# Faults

Why a text is not a stylesheet. A fault names the cause; where it arose is kept beside it in a
`SyntaxError`. The wording of every cause is in one place, `Fault.message`.
-/

namespace LessStyle

/-- Why a text cannot be read as a stylesheet. -/
inductive Fault where
  /-- A quote without its closing quote. -/
  | unclosedQuote
  /-- The bracket of an unquoted `url(` without its `)`. -/
  | unclosedUrl
  /-- A `/*` without `*/`. -/
  | unclosedComment
  /-- An `@` and an opening brace without the closing one. -/
  | unclosedInterpolation
  /-- A closing brace with no open block. -/
  | unexpectedClose
  /-- A block that is still open at the end. -/
  | unclosedBlock
  /-- A parenthesis that its statement does not close. -/
  | unclosedParen
  /-- A statement that is neither declaration, rule nor call of a known mixin; `word` begins it. -/
  | unknownWord (word : Text)
  /-- A bare `@`. -/
  | unnamedAtRule
  deriving DecidableEq, Repr

/-- The wording of a fault. -/
def Fault.message : Fault → Text
  | unclosedQuote => "unclosed quote".toList
  | unclosedUrl => "unclosed bracket".toList
  | unclosedComment => "unclosed comment".toList
  | unclosedInterpolation => "unclosed interpolation".toList
  | unexpectedClose => "unexpected '\x7d'".toList
  | unclosedBlock => "unclosed block".toList
  | unclosedParen => "unclosed bracket".toList
  | unknownWord word => "unknown word '".toList ++ word ++ ['\'']
  | unnamedAtRule => "at-rule without name".toList

/-- A fault and the position it is reported at. -/
structure SyntaxError where
  fault : Fault
  position : Position
  deriving DecidableEq, Repr

/-- The decimal digits of a number. -/
def Text.decimal (n : Nat) : Text := Nat.toDigits 10 n

/-- ` at line L, column C`, which ends every message about a position. -/
def Position.phrase (p : Position) : Text :=
  " at line ".toList ++ Text.decimal p.line ++ ", column ".toList ++ Text.decimal p.column

/-- The fault with its position. -/
def SyntaxError.message (e : SyntaxError) : Text := e.fault.message ++ e.position.phrase

end LessStyle
