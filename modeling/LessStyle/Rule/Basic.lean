import LessStyle.Config.Basic
import LessStyle.Diagnostic
import LessStyle.Highlight
import LessStyle.Sheet.Parser

/-!
# Rules

A rule looks at a file and lists its findings. Most read the tree, some the tokens; none sees what
another found. A finding says where and what, with the line of the source highlighted; the name of the
rule is added when the rule runs.
-/

namespace LessStyle

/-- The lines of a source. -/
structure Page where
  lines : Array Text
  deriving DecidableEq, Repr

/-- The page of a text. -/
def Page.of (s : Text) : Page := ⟨s.lines.toArray⟩

/-- The line with number `n`, counted from one; empty if there is none. -/
def Page.line (p : Page) (n : Nat) : Text :=
  if n = 0 then [] else (p.lines[n - 1]?).getD []

/-- A source that was read: its lines, its tokens and its tree. -/
structure File where
  page : Page
  tokens : List Token
  sheet : Sheet
  deriving Repr

/-- Read a source. -/
def File.read (s : Text) : Except SyntaxError File :=
  match Token.tokenize s with
  | .error e => .error e
  | .ok tokens =>
    match Sheet.ofTokens tokens with
    | .error e => .error e
    | .ok sheet => .ok ⟨.of s, tokens, sheet⟩

/-- What a rule found, and where. -/
structure Finding where
  line : Nat
  column : Nat
  message : Text
  highlighted : Text
  key : Option Text
  deriving DecidableEq, Repr

namespace Finding

/-- The record of a finding of the rule with this name. -/
def toDiagnostic (f : Finding) (rule : Text) : Diagnostic :=
  ⟨rule, f.line, some f.column, f.message, some f.highlighted, f.key⟩

/-- The finding with a key. -/
def withKey (f : Finding) (key : Text) : Finding := { f with key := some key }

/-- Without the findings on the line of the last one kept, which at first is line `last`. -/
def onePerLine (last : Nat) : List Finding → List Finding
  | [] => []
  | f :: fs => if f.line = last then onePerLine last fs else f :: onePerLine f.line fs

end Finding

namespace Page

/-- A finding on `line` with `h` as the line. -/
def plain (line column : Nat) (h : Highlight) (message : Text) : Finding :=
  ⟨line, column, message, h.render message, none⟩

/-- A finding whose message quotes the line. -/
def quoting (p : Page) (line column : Nat) (h : Highlight) (message : Text) : Finding :=
  ⟨line, column, '`' :: p.line line ++ '`' :: ' ' :: message, h.render message, none⟩

/-- A finding with the first occurrence of `segment` marked. -/
def reportSegment (p : Page) (line column : Nat) (segment message : Text) : Finding :=
  plain line column (.segment (p.line line) segment) message

/-- The same, with the line quoted. -/
def quoteSegment (p : Page) (line column : Nat) (segment message : Text) : Finding :=
  p.quoting line column (.segment (p.line line) segment) message

/-- A finding with `width` characters from its column on marked. -/
def reportColumns (p : Page) (line column width : Nat) (message : Text) : Finding :=
  plain line column (.columns (p.line line) column width) message

/-- The same, with the line quoted. -/
def quoteColumns (p : Page) (line column width : Nat) (message : Text) : Finding :=
  p.quoting line column (.columns (p.line line) column width) message

end Page

/-- How a rule reads a file. -/
inductive Rule.Check where
  | sheet (findings : Setting → Page → Sheet → List Finding)
  | tokens (findings : Page → List Token → List Finding)

/-- A rule and its name. -/
structure Rule where
  name : Text
  check : Rule.Check

namespace Rule

/-- The records of a rule with a given setting. -/
def apply (r : Rule) (s : Setting) (file : File) : List Diagnostic :=
  let findings :=
    match r.check with
    | .sheet f => f s file.page file.sheet
    | .tokens f => f file.page file.tokens
  findings.map (·.toDiagnostic r.name)

/-- The records of a rule under a configuration: none unless it gives the rule an enabled setting. -/
def run (r : Rule) (config : Config) (file : File) : List Diagnostic :=
  match config.get? r.name with
  | some s => if s.isEnabled then r.apply s file else []
  | none => []

end Rule

end LessStyle
