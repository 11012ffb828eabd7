import LessStyle.Fault
import LessStyle.Sheet.Mixin
import LessStyle.Token.Lexer

/-!
# Reading a stylesheet

Tokens become a tree one statement at a time. A `Draft` holds what has been read: the finished nodes
of the root, a frame for every open block, and the blanks that the next node or closing brace will
own. `Draft.step` reads one statement and answers with the number of tokens it took after the first,
so the rest is shorter at every step.
-/

namespace LessStyle

/-- What has been opened and not yet closed. -/
inductive Opening where
  | atRule (rule : AtRule)
  | block (block : Block)
  deriving Repr

/-- Where the block starts. -/
def Opening.start : Opening → Position
  | atRule r => r.span.first
  | block b => b.span.first

/-- The finished node. -/
def Opening.close (o : Opening) (children : List Node) (after : Text) (last : Position) : Node :=
  match o with
  | atRule r => .atBlock { r with after, span.last := last } children
  | block b => .block { b with after, span.last := last } children

/-- An open block and the nodes inside it so far, the latest first. -/
structure Frame where
  opening : Opening
  children : List Node
  deriving Repr

/-- A stylesheet that is being read. -/
structure Draft where
  /-- The nodes of the root, the latest first. -/
  roots : List Node
  /-- The open blocks, the innermost first. -/
  frames : List Frame
  /-- Blanks and stray semicolons since the last node. -/
  spaces : Text
  /-- The mixins defined so far. -/
  mixins : Dict Mixin
  deriving Repr

/-! ## Statements -/

/-- What ends a statement. -/
inductive Statement.Stop where
  | semicolon (token : Token)
  | openBrace
  | closeBrace
  | inputEnd
  /-- The input ends inside parentheses, of which `paren` is the outermost. -/
  | unclosed (paren : Token)
  deriving DecidableEq, Repr

/-- How far a statement reaches. -/
structure Statement.Extent where
  /-- The number of tokens before the stop. -/
  width : Nat
  stop : Statement.Stop
  /-- A colon stands outside all parentheses. -/
  colon : Bool
  deriving DecidableEq, Repr

/-- One token further. -/
def Statement.Extent.succ (e : Statement.Extent) : Statement.Extent := { e with width := e.width + 1 }

/-- The extent of the statement that the tokens continue. The parentheses in `opened` are open, the
innermost first; a semicolon, a brace or a colon inside them does not count. -/
def Statement.extent (opened : List Token) (colon : Bool) : List Token → Statement.Extent
  | [] =>
    match opened.getLast? with
    | some paren => ⟨0, .unclosed paren, colon⟩
    | none => ⟨0, .inputEnd, colon⟩
  | t :: ts =>
    match t.kind, opened with
    | .openParen, opened => (extent (t :: opened) colon ts).succ
    | .closeParen, _ :: opened => (extent opened colon ts).succ
    | _, p :: opened => (extent (p :: opened) colon ts).succ
    | .semicolon, [] => ⟨0, .semicolon t, colon⟩
    | .openBrace, [] => ⟨0, .openBrace, colon⟩
    | .closeBrace, [] => ⟨0, .closeBrace, colon⟩
    | .colon, [] => (extent [] true ts).succ
    | _, [] => (extent [] colon ts).succ

/-- The tokens without blanks and comments at the end, and these. -/
def splitTrivia (ts : List Token) : List Token × List Token :=
  let tail := (ts.reverse.takeWhile (·.kind.isTrivia)).reverse
  (ts.take (ts.length - tail.length), tail)

/-- The last position of a statement of the tokens `first :: rest`: its semicolon, or its last
token. -/
def statementEnd (first : Token) (rest : List Token) (semicolon : Option Token) : Position :=
  match semicolon with
  | some t => t.span.first
  | none => (rest.getLastD first).span.last

/-! ## Nodes from tokens -/

/-- White space, text and white space of a comment. White space alone counts as the first. -/
def Comment.padding (body : Text) : Text × Text × Text :=
  let text := body.trim
  if text.isEmpty then (body, [], [])
  else
    let left := body.takeWhile Text.isWhite
    (left, text, body.drop (left.length + text.length))

/-- The comment of a token. -/
def Comment.ofToken (before : Text) (t : Token) : Comment :=
  let inline : Bool := t.kind = .lineComment
  let body := t.text.drop 2
  let (left, text, right) := padding (if inline then body else body.take (body.length - 2))
  ⟨text, inline, left, right, before, t.span⟩

/-- Where the property and the text before the value end. -/
structure Declaration.Head where
  prop : Text
  between : Text
  /-- The start of the value, if it is part of the first token. -/
  valueHead : Text
  /-- The tokens of the value. -/
  rest : List Token
  deriving Repr

/-- The tokens up to and including the first colon, and the tokens after it. -/
def throughColon (ts : List Token) : List Token × List Token :=
  (ts.takeWhile (·.kind ≠ .colon) ++ (ts.dropWhile (·.kind ≠ .colon)).take 1,
    (ts.dropWhile (·.kind ≠ .colon)).drop 1)

/-- A token that ends the property. -/
def endsProperty (t : Token) : Bool := t.kind.isTrivia || t.kind = .colon

/-- The head of a declaration. An at-word can hold its colon and the start of the value; else the
property ends at the first blank, comment or colon. Blanks and comments before the value belong to
the text between. -/
def Declaration.head (first : Token) (ts : List Token) : Head :=
  match if first.kind = .atWord then first.text.cutAt? ':' else none with
  | some (prop, []) =>
    ⟨prop, ':' :: Token.join (ts.takeWhile (·.kind.isTrivia)), [], ts.dropWhile (·.kind.isTrivia)⟩
  | some (prop, value) => ⟨prop, [':'], value, ts⟩
  | none =>
    let all := first :: ts
    let (colon, rest) := throughColon (all.dropWhile (!endsProperty ·))
    ⟨Token.join (all.takeWhile (!endsProperty ·)),
      Token.join (colon ++ rest.takeWhile (·.kind.isTrivia)), [],
      rest.dropWhile (·.kind.isTrivia)⟩

/-- The declaration of the tokens `first :: ts`. -/
def Declaration.ofTokens (before : Text) (first : Token) (ts : List Token)
    (semicolon : Option Token) : Declaration :=
  let h := head first ts
  { prop := h.prop
    between := h.between
    value := (h.valueHead ++ Token.join (h.rest.filter (!·.kind.isComment))).trimEnd
    rawValue := h.valueHead ++ Token.join h.rest
    semicolon := semicolon.isSome
    before
    span := ⟨first.span.first, statementEnd first ts semicolon⟩ }

/-- An at-rule from its first token and the tokens up to what ends it. Only blanks around the
parameters are kept apart from them. -/
def AtRule.ofTokens (before : Text) (first : Token) (ts : List Token) : AtRule :=
  let lead := ts.takeWhile (·.kind = .space)
  let tail := ts.dropWhile (·.kind = .space)
  let trail := (tail.reverse.takeWhile (·.kind = .space)).reverse
  let body := tail.take (tail.length - trail.length)
  { name := first.text.drop 1
    params := Token.join body
    afterName := Token.join lead
    between := Token.join trail
    semicolon := false
    before
    after := []
    span := ⟨first.span.first, (body.getLastD first).span.last⟩ }

/-! ## Steps -/

namespace Draft

/-- Before the first token. -/
def start : Draft := ⟨[], [], [], []⟩

/-- The number of open blocks. -/
def level (d : Draft) : Nat := d.frames.length

/-- With one more node, which owns the blanks before it. -/
def push (d : Draft) (n : Node) : Draft :=
  match d.frames with
  | [] => { d with roots := n :: d.roots, spaces := [] }
  | f :: fs => { d with frames := { f with children := n :: f.children } :: fs, spaces := [] }

/-- With one more open block, which owns the blanks before it. -/
def enter (d : Draft) (o : Opening) : Draft :=
  { d with frames := ⟨o, []⟩ :: d.frames, spaces := [] }

/-- The closing brace `t`. -/
def close (d : Draft) (t : Token) : Except SyntaxError Draft :=
  match d.frames with
  | [] => .error ⟨.unexpectedClose, t.span.first⟩
  | f :: fs =>
    .ok ({ d with frames := fs }.push
      (f.opening.close f.children.reverse d.spaces t.span.first))

/-- The block whose selector is `first :: ts`, up to its opening brace. A mixin that it defines is
remembered. -/
def enterBlock (d : Draft) (first : Token) (ts : List Token) : Draft :=
  let (selector, between) := splitTrivia (first :: ts)
  let definition := Mixin.definition? selector
  let mixins :=
    match definition with
    | some (name, params) => d.mixins.insert name ⟨params, first.span.first⟩
    | none => d.mixins
  { d with mixins }.enter <| .block
    { selector := Token.join selector
      between := Token.join between
      params := definition.map Prod.snd
      level := d.level
      before := d.spaces
      after := []
      span := ⟨first.span.first, first.span.first⟩ }

/-- The block without a selector that the brace `t` opens. -/
def enterBare (d : Draft) (t : Token) : Draft :=
  d.enter <| .block ⟨[], [], none, d.level, d.spaces, [], ⟨t.span.first, t.span.first⟩⟩

/-- The statement `first :: ts` without a block: a declaration if it has a colon outside
parentheses, else the call of a mixin defined before. -/
def simple (d : Draft) (colon : Bool) (first : Token) (ts : List Token)
    (semicolon : Option Token) : Except SyntaxError Draft :=
  if colon then .ok (d.push (.declaration (.ofTokens d.spaces first ts semicolon)))
  else if d.mixins.contains (Mixin.leadingName (first :: ts)) then
    .ok <| d.push <| .call
      { selector := Token.join (first :: ts)
        semicolon := semicolon.isSome
        level := d.level
        before := d.spaces
        span := ⟨first.span.first, statementEnd first ts semicolon⟩ }
  else .error ⟨.unknownWord first.text, first.span.first⟩

/-- The statement that begins with `first` and is no at-rule. Blanks and comments at its end are left
to the next step if no semicolon follows. -/
def statement (d : Draft) (first : Token) (ts : List Token) : Except SyntaxError (Draft × Nat) :=
  let e := Statement.extent [] (first.kind = .atWord && first.text.contains ':') (first :: ts)
  let body := ts.take (e.width - 1)
  match e.stop with
  | .unclosed paren => .error ⟨.unclosedParen, paren.span.first⟩
  | .openBrace => .ok (d.enterBlock first body, e.width)
  | .semicolon t => (d.simple e.colon first body (some t)).map (·, e.width)
  | .closeBrace | .inputEnd =>
    let core := (splitTrivia body).1
    (d.simple e.colon first core none).map (·, core.length)

/-- A token that ends the parameters of an at-rule. -/
def endsParams (t : Token) : Bool :=
  t.kind = .semicolon || t.kind = .openBrace || t.kind = .closeBrace

/-- The at-rule that begins with `first`. At the end of the input the blanks after it belong to the
sheet. -/
def atRule (d : Draft) (first : Token) (ts : List Token) : Except SyntaxError (Draft × Nat) :=
  if first.text.drop 1 = [] then .error ⟨.unnamedAtRule, first.span.first⟩
  else
    let params := ts.takeWhile (!endsParams ·)
    let r := AtRule.ofTokens d.spaces first params
    match ts.drop params.length with
    | [] => .ok ({ d.push (.atRule { r with between := [] }) with spaces := r.between }, params.length)
    | t :: _ =>
      match t.kind with
      | .semicolon =>
        .ok (d.push (.atRule { r with semicolon := true, span.last := t.span.first }),
          params.length + 1)
      | .openBrace => .ok (d.enter (.atRule r), params.length + 1)
      | _ => ((d.push (.atRule r)).close t).map (·, params.length + 1)

/-- An at-word that begins the definition of a variable: it holds a colon, or one follows after
blanks. -/
def startsVariable (first : Token) (ts : List Token) : Bool :=
  first.text.contains ':' ||
    match ts.dropWhile (·.kind = .space) with
    | t :: _ => t.kind = .colon
    | [] => false

/-- Read one statement, and answer with the number of tokens it took after `t`. -/
def step (d : Draft) (t : Token) (ts : List Token) : Except SyntaxError (Draft × Nat) :=
  match t.kind with
  | .space | .semicolon => .ok ({ d with spaces := d.spaces ++ t.text }, 0)
  | .closeBrace => (d.close t).map (·, 0)
  | .lineComment | .blockComment => .ok (d.push (.comment (.ofToken d.spaces t)), 0)
  | .openBrace => .ok (d.enterBare t, 0)
  | .atWord => if startsVariable t ts then d.statement t ts else d.atRule t ts
  | _ => d.statement t ts

/-- Read all tokens. -/
def read (d : Draft) (ts : List Token) : Except SyntaxError Draft :=
  match ts with
  | [] => .ok d
  | t :: ts =>
    match d.step t ts with
    | .error e => .error e
    | .ok (d, n) => read d (ts.drop n)
termination_by ts.length
decreasing_by simp only [List.length_drop, List.length_cons]; omega

/-- The finished sheet, if no block is open. -/
def finish (d : Draft) : Except SyntaxError Sheet :=
  match d.frames with
  | [] => .ok ⟨d.roots.reverse, d.spaces, d.mixins⟩
  | f :: _ => .error ⟨.unclosedBlock, f.opening.start⟩

end Draft

namespace Sheet

/-- The stylesheet of a list of tokens. -/
def ofTokens (ts : List Token) : Except SyntaxError Sheet :=
  match Draft.start.read ts with
  | .error e => .error e
  | .ok d => d.finish

/-- The stylesheet of a text. -/
def parse (s : Text) : Except SyntaxError Sheet :=
  match Token.tokenize s with
  | .error e => .error e
  | .ok ts => ofTokens ts

end Sheet

end LessStyle
