import LessStyle.Text.Position

/-!
# Tokens

The pieces a stylesheet is cut into. Nothing is dropped: blanks and comments are tokens too, so the
texts of all tokens together are the source.
-/

namespace LessStyle

/-- What a token is. -/
inductive Token.Kind where
  /-- A run of blanks. -/
  | space
  /-- A selector, a property, a number, a lone comma, an escape, an interpolation. -/
  | word
  /-- `@name` outside parentheses, with a colon if one follows directly. -/
  | atWord
  /-- `@name` inside parentheses; `rest` if it ends in three dots. -/
  | param (rest : Bool)
  /-- A quoted string. -/
  | string
  /-- Parentheses and their contents, where the contents have no structure. -/
  | brackets
  | openParen
  | closeParen
  | openBrace
  | closeBrace
  | colon
  | semicolon
  /-- `//` to the end of the line. -/
  | lineComment
  /-- `/* ... */`. -/
  | blockComment
  deriving DecidableEq, Repr

namespace Token.Kind

/-- A comment of either form. -/
def isComment : Kind → Bool
  | lineComment | blockComment => true
  | _ => false

/-- A comment or blanks. -/
def isTrivia : Kind → Bool
  | space | lineComment | blockComment => true
  | _ => false

end Token.Kind

/-- A piece of the source with its span. -/
structure Token where
  kind : Token.Kind
  text : Text
  span : Span
  deriving DecidableEq, Repr

/-- The text of consecutive tokens. -/
def Token.join (ts : List Token) : Text := ts.flatMap Token.text

@[simp] theorem Token.join_nil : Token.join [] = [] := rfl

@[simp] theorem Token.join_cons (t : Token) (ts : List Token) :
    Token.join (t :: ts) = t.text ++ Token.join ts := by
  simp [Token.join]

@[simp] theorem Token.join_append (ts us : List Token) :
    Token.join (ts ++ us) = Token.join ts ++ Token.join us := by
  simp [Token.join]

end LessStyle
