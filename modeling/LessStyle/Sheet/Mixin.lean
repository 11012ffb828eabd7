import LessStyle.Sheet.Basic
import LessStyle.Text.WordChar
import LessStyle.Token

/-!
# Mixins

A selector defines a mixin if it is a single class or id, followed by a parenthesis. Between the
parentheses stand the parameters.
-/

namespace LessStyle.Mixin

open Text

/-- The text of the words that begin a statement. An escape cuts a name into several words. -/
def leadingName (ts : List Token) : Text :=
  Token.join (ts.takeWhile (·.kind = .word))

/-- Word characters, dashes and escaped characters up to the end. -/
def isNameTail : Text → Bool
  | [] => true
  | '\\' :: c :: s => c != '\n' && isNameTail s
  | c :: s => (isWord c || c == '-') && isNameTail s

/-- A single class or id: `.` or `#`, then at least one word character, dash or escape. -/
def isName : Text → Bool
  | c :: s => (c == '.' || c == '#') && !s.isEmpty && isNameTail s
  | [] => false

/-- The tokens up to the parenthesis that closes the one before them, if there is one; `depth` more
are open inside. -/
def inParens? (depth : Nat) : List Token → Option (List Token)
  | [] => none
  | t :: ts =>
    match t.kind, depth with
    | .closeParen, 0 => some []
    | .closeParen, depth + 1 => (inParens? depth ts).map (t :: ·)
    | .openParen, depth => (inParens? (depth + 1) ts).map (t :: ·)
    | _, depth => (inParens? depth ts).map (t :: ·)

/-! ## Parameters -/

/-- Without any number of `...` in front. -/
def dropDots : Text → Text
  | '.' :: '.' :: '.' :: s => dropDots s
  | s => s

/-- The name in the text of a parameter: without commas at the end, then without `...` at the
end. -/
def bareName (s : Text) : Text :=
  (dropDots (s.reverse.dropWhile (· == ','))).reverse

/-- A fallback value without white space around it and without commas at the end. -/
def bareFallback (s : Text) : Text := trimEnd (dropEndWhile (· == ',') (trim s))

/-- A parameter that is being read; its `after` holds the blanks since its last token. -/
def finish (p : Param) : Param := { p with fallback := p.fallback.map bareFallback }

/-- The parameter that a token with a name begins. -/
def named (before : Text) (t : Token) (variadic : Bool) : Param :=
  let s : Text := t.text.dropWhile (· == '@')
  let (name, fallback) :=
    match s.cutAt? ':' with
    | some (name, rest) => (name, some rest)
    | none => (s, none)
  ⟨bareName name, variadic, fallback, before, [], t.span⟩

/-- The parameter that a bare `...` begins. -/
def unnamed (before : Text) (t : Token) : Param :=
  ⟨[], true, none, before, [], t.span⟩

/-- A parameter with one more token of its fallback value. A parameter without a fallback value
leaves the token out. -/
def extend (p : Param) (t : Token) : Param :=
  match p.fallback with
  | some v =>
    { p with fallback := some (v ++ p.after ++ t.text), after := [], span.last := t.span.last }
  | none => p

/-- The parameters in a list of tokens. `current` is the parameter that is being read, `leading` the
blanks that the next one starts with. -/
def paramsFrom (current : Option Param) (leading : Text) : List Token → List Param
  | [] => (current.map finish).toList
  | t :: ts =>
    match t.kind, current with
    | .param rest, _ => (current.map finish).toList ++ paramsFrom (some (named leading t rest)) [] ts
    | .semicolon, _ => (current.map finish).toList ++ paramsFrom none leading ts
    | .space, some p => paramsFrom (some { p with after := p.after ++ t.text }) leading ts
    | .space, none => paramsFrom none (leading ++ t.text) ts
    | _, some p => paramsFrom (some (extend p t)) leading ts
    | .word, none =>
      if t.text == ['.', '.', '.'] then paramsFrom (some (unnamed leading t)) [] ts
      else paramsFrom none leading ts
    | _, none => paramsFrom none leading ts

/-- The parameters between the parentheses of a definition. -/
def paramList (ts : List Token) : List Param := paramsFrom none [] ts

/-- The name and the parameters of the mixin that a selector defines. -/
def definition? (selector : List Token) : Option (Text × List Param) :=
  let name := leadingName selector
  if isName name then
    match (selector.dropWhile (·.kind = .word)).dropWhile (·.kind = .space) with
    | t :: ts =>
      if t.kind = .openParen then (inParens? 0 ts).map fun inner => (name, paramList inner) else none
    | [] => none
  else none

end LessStyle.Mixin
