import LessStyle.Rule.Basic

/-!
# Rules on layout

`oneSelectorPerLine`: the selectors of a group stand on lines of their own. `blockIndent`: four columns
for every level. `lineComments`: a comment on one line is written with `//`.
-/

namespace LessStyle.Rule

open Text

/-- `name:line:column`, a key for the place of a finding. -/
def placeKey (name : Text) (p : Position) : Text :=
  name ++ ':' :: decimal p.line ++ ':' :: decimal p.column

/-! ## Selectors -/

/-- Only blanks stand before the next line break. -/
def isBeforeBreak (s : Text) : Bool :=
  match s.dropWhile fun c => c == ' ' || c == '\t' || c == '\r' || c == '\x0c' with
  | c :: _ => c == '\n'
  | [] => false

/-- How many characters stand before the first comma between selectors that no line break follows. A
comma in quotes, parentheses or square brackets separates no selectors; `depth` brackets are open
before the text, and the quote `quote`. -/
def inlineCommaFrom? (depth : Nat) (quote : Option Char) : Text → Option Nat
  | [] => none
  | c :: s =>
    match quote with
    | some q => (inlineCommaFrom? depth (if c == q then none else some q) s).map (· + 1)
    | none =>
      if c == '"' || c == '\'' then (inlineCommaFrom? depth (some c) s).map (· + 1)
      else if c == '(' || c == '[' then (inlineCommaFrom? (depth + 1) none s).map (· + 1)
      else if c == ')' || c == ']' then (inlineCommaFrom? (depth - 1) none s).map (· + 1)
      else if c == ',' && depth == 0 && !isBeforeBreak s then some 0
      else (inlineCommaFrom? depth none s).map (· + 1)

/-- The text before the first comma between selectors that no line break follows. -/
def inlineComma? (selector : Text) : Option Text :=
  (inlineCommaFrom? 0 none selector).map selector.take

/-- The first line of a text, without a carriage return before the line break. -/
def firstLine (s : Text) : Text :=
  match s.cutAt? '\n' with
  | some (l, _) => if l.getLast? = some '\r' then l.dropLast else l
  | none => s

def oneSelectorMessage : Text :=
  ("When multiple selectors share a statement block, each selector statement must be per " ++
    "line").toList

/-- The findings on blocks, mixin definitions apart, with two selectors on a line. -/
def oneSelectorPerLine (page : Page) (sheet : Sheet) : List Finding :=
  (sheet.blocks.filter (·.params.isNone)).filterMap fun b =>
    (inlineComma? b.selector).map fun front =>
      let p := b.span.first
      (page.reportSegment (p.line + front.count '\n') p.column (firstLine b.selector)
        oneSelectorMessage).withKey (placeKey "require-newline".toList p)

/-! ## Indentation -/

/-- The columns for each level. -/
def indentWidth : Nat := 4

def indentMessage (expected actual : Nat) : Text :=
  "Bad indentation, Expected `".toList ++ decimal expected ++ "` but saw `".toList ++
    decimal actual ++ ['`']

/-- The width of the white space before a column, if nothing else stands before it. -/
def leadingWidth? (line : Text) (column : Nat) : Option Nat :=
  let front := line.take (column - 1)
  if front.all isWhite then some front.length else none

/-- The finding on the start of a node at `p` that should have `expected` columns before it. -/
def startFinding? (page : Page) (p : Position) (expected : Nat) : Option Finding :=
  let line := page.line p.line
  match leadingWidth? line p.column with
  | some actual =>
    if actual = expected then none
    else some (page.quoteColumns p.line p.column line.length (indentMessage expected actual))
  | none => none

/-- The findings on further lines of a selector, the first of which is line `line`. -/
def continuationFindings (page : Page) (expected line : Nat) : List Text → List Finding
  | [] => []
  | s :: ss =>
    let actual := (s.takeWhile isWhite).length
    (if actual = expected ∨ (trim s).isEmpty then []
      else [page.quoteColumns line (actual + 1) (trim s).length (indentMessage expected actual)]) ++
      continuationFindings page expected (line + 1) ss

/-- The findings on a node: blocks, calls and declarations are indented, and so is every line of a
selector. -/
def indentFindings (page : Page) (n : Node) (depth : Nat) : List Finding :=
  let expected := depth * indentWidth
  let start (p : Position) : List Finding := (startFinding? page p expected).toList
  let further (p : Position) (selector : Text) : List Finding :=
    continuationFindings page expected (p.line + 1) (selector.lines.drop 1)
  match n with
  | .block b _ => start b.span.first ++ further b.span.first b.selector
  | .call c => start c.span.first ++ further c.span.first c.selector
  | .declaration d => start d.span.first
  | _ => []

/-- The findings on indentation; one for a line. -/
def blockIndent (page : Page) (sheet : Sheet) : List Finding :=
  Finding.onePerLine 0 <| sheet.walk.flatMap fun (n, depth) => indentFindings page n depth

/-! ## Comments -/

def lineCommentMessage : Text := "Single Comment should be use `//`".toList

/-- The findings on block comments that begin and end on one line. -/
def lineComments (page : Page) (ts : List Token) : List Finding :=
  (ts.filter fun t => t.kind = .blockComment && t.span.first.line = t.span.last.line).map fun t =>
    let p := t.span.first
    (page.quoteSegment p.line p.column t.text lineCommentMessage).withKey
      (placeKey "single-comment".toList p)

end LessStyle.Rule
