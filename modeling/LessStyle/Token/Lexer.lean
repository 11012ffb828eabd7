import LessStyle.Fault
import LessStyle.Text.Blank
import LessStyle.Token

/-!
# Cutting a text into tokens

`lexeme` looks at the start of the remaining text and answers with the kind of the next token and
its width; `tokenize` takes that many characters and goes on with the rest. So the texts of the
tokens together are the source, and each step makes the rest shorter.

What a `(` or an `@` means depends on two facts about the tokens before it: how many parentheses are
open, and the text of the last token that is not blank. `Context` holds them.
-/

namespace LessStyle.Token

open Text

/-- What the tokens so far say about the next one. -/
structure Context where
  /-- The number of open parentheses; a closing one too many is not counted. -/
  depth : Nat
  /-- The text of the last token that is not blank, empty if there is none. -/
  last : Text
  deriving DecidableEq, Repr

namespace Context

/-- Before the first token. -/
def start : Context := ⟨0, []⟩

/-- After one more token. -/
def step (cx : Context) (kind : Kind) (text : Text) : Context where
  depth :=
    match kind with
    | .openParen => cx.depth + 1
    | .closeParen => cx.depth - 1
    | _ => cx.depth
  last := if kind = .space then cx.last else text

end Context

/-! ## Widths -/

/-- The text starts with `//` or `/*`. -/
def startsComment : Text → Bool
  | '/' :: '/' :: _ => true
  | '/' :: '*' :: _ => true
  | _ => false

/-- Where a word ends: a blank, one of the characters that begin another token, or a block
comment. A line comment does not end a word, so that a path with `//` stays whole. -/
def endsWord : Text → Bool
  | '/' :: '*' :: _ => true
  | c :: _ =>
    isBlank c || ['(', ')', '{', '}', ':', ';', '@', '!', '\'', '"', '\\', '#'].contains c
  | [] => true

/-- Where an at-word ends: a blank, a bracket, a quote, a backslash, a semicolon or a comment. A
colon does not end it. -/
def endsAtWord (s : Text) : Bool :=
  match s with
  | [] => true
  | c :: _ =>
    isBlank c || ['{', '}', '(', ')', '\'', '"', '\\', ';'].contains c || startsComment s

/-- A character that parentheses may hold and still be one token: no variable, line break, quote or
escape begins there, and no parenthesis stands there. -/
def isPlain (c : Char) : Bool :=
  c ∉ ['@', '\n', '\'', '"', '\\', '(', ')']

/-- The width of an escape after its first backslash: the run of backslashes, and the character
after it if the run is of odd length and the character is neither a slash nor a blank. -/
def escapeWidth (s : Text) : Nat :=
  let run := (s.takeWhile (· == '\\')).length
  if run % 2 == 0 then
    match s.drop run with
    | c :: _ => if c == '/' || isBlank c then run else run + 1
    | [] => run
  else run

/-- A `(` with `s` after it begins an address: it follows `url`, and neither a quote nor a blank comes
next. -/
def opensUrl (cx : Context) (s : Text) : Bool :=
  cx.last == ['u', 'r', 'l'] &&
    match s with
    | c :: _ => !(c == '\'' || c == '"' || isBlank c)
    | [] => true

/-- The kind and width of what a `(` begins, with `s` the text after it. An address after `url` runs to
the closing parenthesis. Elsewhere the parentheses and what they hold are one token if all of that is
plain; empty ones and those of a rest parameter are cut into tokens of their own. -/
def parenLexeme (cx : Context) (s : Text) : Except Fault (Kind × Nat) :=
  if opensUrl cx s then
    match closing? ')' false s with
    | some n => .ok (.brackets, n)
    | none => .error .unclosedUrl
  else
    let inner := s.takeWhile isPlain
    match s.drop inner.length with
    | ')' :: _ =>
      if inner.isEmpty || inner == ['.', '.', '.'] then .ok (.openParen, 0)
      else .ok (.brackets, inner.length + 1)
    | _ => .ok (.openParen, 0)

/-- The width, or the fault of a piece that is never closed. -/
def closed (fault : Fault) (kind : Kind) (extra : Nat) (width : Option Nat) :
    Except Fault (Kind × Nat) :=
  match width with
  | some n => .ok (kind, n + extra)
  | none => .error fault

/-- The kind of the token that begins with `c`, and how many characters of the text `s` after `c`
belong to it. -/
def lexeme (cx : Context) (c : Char) (s : Text) : Except Fault (Kind × Nat) :=
  if isBlank c then .ok (.space, (s.takeWhile isBlank).length)
  else
    match c with
    | '{' => .ok (.openBrace, 0)
    | '}' => .ok (.closeBrace, 0)
    | ':' => .ok (.colon, 0)
    | ';' => .ok (.semicolon, 0)
    | ',' => .ok (.word, 0)
    | '(' => parenLexeme cx s
    | ')' => .ok (.closeParen, 0)
    | '\'' => closed .unclosedQuote .string 0 (closing? '\'' false s)
    | '"' => closed .unclosedQuote .string 0 (closing? '"' false s)
    | '\\' => .ok (.word, escapeWidth s)
    | '@' =>
      match s with
      | '{' :: r => closed .unclosedInterpolation .word 1 (through? '}' r)
      | _ =>
        let n := widthUntil endsAtWord s
        if cx.depth > 0 then .ok (.param (endsWith ('@' :: s.take n) ['.', '.', '.']), n)
        else .ok (.atWord, n)
    | '/' =>
      match s with
      | '*' :: r => closed .unclosedComment .blockComment 3 (find? ['*', '/'] r)
      | '/' :: r => .ok (.lineComment, 1 + (r.takeWhile (· != '\n')).length)
      | _ => .ok (.word, widthUntil endsWord s)
    | _ => .ok (.word, widthUntil endsWord s)

/-! ## The loop -/

/-- The tokens of the text `s`, which begins at `p` after tokens that left the context `cx`. -/
def tokensFrom (cx : Context) (p : Position) (s : Text) : Except SyntaxError (List Token) :=
  match s with
  | [] => .ok []
  | c :: s =>
    match lexeme cx c s with
    | .error fault => .error ⟨fault, p⟩
    | .ok (kind, n) =>
      let text := c :: s.take n
      match tokensFrom (cx.step kind text) (p.advance text) (s.drop n) with
      | .error e => .error e
      | .ok ts => .ok (⟨kind, text, Span.of p text⟩ :: ts)
termination_by s.length
decreasing_by simp only [List.length_drop, List.length_cons]; omega

/-- The tokens of a text. -/
def tokenize (s : Text) : Except SyntaxError (List Token) :=
  tokensFrom .start .start s

end LessStyle.Token
