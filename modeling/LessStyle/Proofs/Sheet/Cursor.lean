import LessStyle.Sheet.Parser
import Mathlib.Data.Nat.PSub

/-!
# Reading by index

`Draft.step` reads lists of tokens. The reader of this module holds all tokens and a `Cursor`, the index
of the next one. It looks at single tokens, moves the cursor forwards and backwards, and cuts tokens from
one index to another and texts from one byte to another. All this happens in `Option`: there is no answer
if an index is out of range, if the ends of a slice are not in order, if an offset falls inside a
character, or if a number is subtracted from a smaller one (`Nat.psub`).

The reader goes round a loop, a statement in every round (`Cursor.round`). `Cursor.run` goes round as
often as it is allowed to and says if that was enough. The loops inside a round end by themselves: the
index they count with stays in range.
-/

namespace LessStyle

open Text
open Token (join)

/-- The tokens from index `a` to index `b`, if both are in range and in order. -/
def Token.slice? (ts : List Token) (a b : Nat) : Option (List Token) :=
  if a ≤ b ∧ b ≤ ts.length then some ((ts.drop a).take (b - a)) else none

/-- The reader between two statements. -/
structure Cursor where
  /-- The index of the next token. -/
  pos : Nat
  draft : Draft
  deriving Repr

namespace Cursor

open Token (slice?)

/-- Before the first token. -/
def start : Cursor := ⟨0, .start⟩

/-! ## Loops -/

/-- From index `i` on as long as the tokens satisfy `p`: their texts, after `text`, and the index of the
first that does not. -/
def collect (p : Token → Bool) (ts : List Token) (i : Nat) (text : Text) : Text × Nat :=
  if h : i < ts.length then
    if p ts[i] then collect p ts (i + 1) (text ++ ts[i].text) else (text, i)
  else (text, i)

/-- From index `i` on through the first colon. -/
def collectColon? (ts : List Token) (i : Nat) (text : Text) : Option (Text × Nat) :=
  if h : i < ts.length then do
    let last ← ts[← (i + 1).psub 1]?
    if last.kind = .colon then return (text ++ ts[i].text, i + 1)
    else collectColon? ts (i + 1) (text ++ ts[i].text)
  else some (text, i)

/-- Back from an index as long as it is greater than `low` and a blank or a comment stands there, if
`ahead` is one, or right before it, if `ahead` is zero. -/
def back? (ts : List Token) (low ahead : Nat) : Nat → Option Nat
  | 0 => some 0
  | i + 1 =>
    if low < i + 1 then do
      let t ← ts[i + ahead]?
      if t.kind.isTrivia then back? ts low ahead i else return i + 1
    else some (i + 1)

/-! ## Nodes from indices -/

/-- White space, text and white space of a comment. -/
def padding? (body : Text) : Option (Text × Text × Text) := do
  let text := body.trim
  if text.isEmpty then return (body, [], [])
  let left ← body.sliceBytes? 0 (← body.byteLength.psub body.trimStart.byteLength)
  let right ← body.sliceBytes? (left.byteLength + text.byteLength) body.byteLength
  return (left, text, right)

/-- The comment of a token. -/
def comment? (before : Text) (t : Token) : Option Comment := do
  let inline : Bool := t.kind = .lineComment
  let stop ← if inline then some t.text.byteLength else t.text.byteLength.psub 2
  let (left, text, right) ← padding? (← t.text.sliceBytes? 2 stop)
  return ⟨text, inline, left, right, before, t.span⟩

/-- The last position of a statement: that of the semicolon at index `stop`, or the end of the last of
`n` tokens. -/
def statementEnd? (ts : List Token) (stop : Nat) (semicolon : Bool) (own : List Token) (n : Nat) :
    Option Position := do
  if semicolon then
    let t ← ts[stop]?
    return t.span.first
  let t ← own[← n.psub 1]?
  return t.span.last

/-- The head of a declaration. -/
def head? (own : List Token) : Option Declaration.Head := do
  let first ← own[0]?
  let (prop, between, value, i) ←
    match if first.kind = .atWord then first.text.cutAt? ':' else none with
    | some (prop, value) => some (prop, [':'], value, 1)
    | none => do
      let (prop, i) := collect (!endsProperty ·) own 0 []
      let (between, i) ← collectColon? own i []
      pure (prop, between, [], i)
  let (between, i) :=
    if value.isEmpty then collect (·.kind.isTrivia) own i between else (between, i)
  return ⟨prop, between, value, ← slice? own i own.length⟩

/-- The declaration from index `first` to index `stop`. -/
def declaration? (ts : List Token) (before : Text) (first stop : Nat) (semicolon : Bool) :
    Option Declaration := do
  let own ← slice? ts first stop
  let h ← head? own
  let last ← statementEnd? ts stop semicolon own own.length
  return {
    prop := h.prop
    between := h.between
    value := (h.valueHead ++ join (h.rest.filter (!·.kind.isComment))).trimEnd
    rawValue := h.valueHead ++ join h.rest
    semicolon
    before
    span := ⟨(← own[0]?).span.first, last⟩ }

/-- The index of the parenthesis that closes the first of `depth` open ones. -/
def matching? (ts : List Token) (i depth : Nat) : Option (Option Nat) :=
  if h : i < ts.length then
    match ts[i].kind with
    | .openParen => matching? ts (i + 1) (depth + 1)
    | .closeParen => do
      let depth ← depth.psub 1
      if depth = 0 then return some i else matching? ts (i + 1) depth
    | _ => matching? ts (i + 1) depth
  else some none

/-- The name and the parameters of the mixin that a selector defines. -/
def definition? (selector : List Token) : Option (Option (Text × List Param)) := do
  let name := Mixin.leadingName selector
  if !Mixin.isName name then return none
  let words := (selector.takeWhile (·.kind = .word)).length
  let after ← slice? selector words selector.length
  let paren := words + (after.takeWhile (·.kind = .space)).length
  match selector[paren]? with
  | some t =>
    if t.kind ≠ .openParen then return none
    match ← matching? selector paren 0 with
    | some close => return some (name, Mixin.paramList (← slice? selector (paren + 1) close))
    | none => return none
  | none => return none

/-- The block whose selector stands from index `first` to index `brace`. -/
def block? (ts : List Token) (d : Draft) (first brace : Nat) : Option Draft := do
  let own ← slice? ts first brace
  let split ← back? own 0 0 own.length
  let selector ← slice? own 0 split
  let position := (← own[0]?).span.first
  let definition ← definition? selector
  let mixins :=
    match definition with
    | some (name, params) => d.mixins.insert name ⟨params, position⟩
    | none => d.mixins
  return { d with mixins }.enter <| .block
    { selector := join selector
      between := join (← slice? own split own.length)
      params := definition.map Prod.snd
      level := d.level
      before := d.spaces
      after := []
      span := ⟨position, position⟩ }

/-- The call of a mixin from index `first` to index `stop`. -/
def call? (ts : List Token) (d : Draft) (first stop : Nat) (semicolon : Bool) :
    Option (Except SyntaxError Draft) := do
  let t ← ts[first]?
  let own ← slice? ts first stop
  if d.mixins.contains (Mixin.leadingName own) then
    let last ← statementEnd? ts stop semicolon ts stop
    return .ok <| d.push <| .call
      { selector := join own
        semicolon
        level := d.level
        before := d.spaces
        span := ⟨t.span.first, last⟩ }
  else return .error ⟨.unknownWord t.text, t.span.first⟩

/-- The at-rule that begins with `t` and has these parameters. -/
def atRuleOf? (before : Text) (t : Token) (name : Text) (params : List Token) : Option AtRule := do
  let lead := (params.takeWhile (·.kind = .space)).length
  let tail ← slice? params lead params.length
  let trail := (tail.reverse.takeWhile (·.kind = .space)).length
  let stop ← params.length.psub trail
  let body ← slice? params lead stop
  return {
    name
    params := join body
    afterName := join (← slice? params 0 lead)
    between := join (← slice? params stop params.length)
    semicolon := false
    before
    after := []
    span := ⟨t.span.first, (body.getLastD t).span.last⟩ }

/-! ## Statements -/

/-- Where a scan has come to. -/
structure Scan where
  pos : Nat
  /-- The indices of the parentheses that are open, the innermost first. -/
  opened : List Nat
  colon : Bool
  /-- The kind of the token that stops the scan; none at the end of the input. -/
  stop : Option Token.Kind
  deriving DecidableEq, Repr

/-- From index `pos` to the end of a statement. -/
def scan (ts : List Token) (pos : Nat) (opened : List Nat) (colon : Bool) : Scan :=
  if h : pos < ts.length then
    match ts[pos].kind, opened with
    | .openParen, opened => scan ts (pos + 1) (pos :: opened) colon
    | .closeParen, _ :: opened => scan ts (pos + 1) opened colon
    | _, i :: opened => scan ts (pos + 1) (i :: opened) colon
    | .semicolon, [] => ⟨pos, [], colon, some .semicolon⟩
    | .openBrace, [] => ⟨pos, [], colon, some .openBrace⟩
    | .closeBrace, [] => ⟨pos, [], colon, some .closeBrace⟩
    | .colon, [] => scan ts (pos + 1) [] true
    | _, [] => scan ts (pos + 1) [] colon
  else ⟨pos, opened, colon, none⟩

/-- The declaration or call from the cursor to index `stop`, with the cursor at `pos` after it. -/
def simple? (ts : List Token) (c : Cursor) (colon : Bool) (stop : Nat) (semicolon : Bool)
    (pos : Nat) : Option (Except SyntaxError Cursor) := do
  if colon then
    let node ← declaration? ts c.draft.spaces c.pos stop semicolon
    return .ok ⟨pos, c.draft.push (.declaration node)⟩
  let d ← call? ts c.draft c.pos stop semicolon
  return d.map (⟨pos, ·⟩)

/-- The declaration or call that ends before the blanks and comments at `pos`. -/
def unended? (ts : List Token) (c : Cursor) (colon : Bool) (pos : Nat) :
    Option (Except SyntaxError Cursor) := do
  let pos ← back? ts c.pos 1 pos
  simple? ts c colon (pos + 1) false pos

/-- The statement at the cursor, after a scan. The cursor goes to its last token. -/
def ofScan? (ts : List Token) (c : Cursor) (s : Scan) : Option (Except SyntaxError Cursor) := do
  match s.stop, s.colon with
  | some .openBrace, _ => return .ok ⟨s.pos, ← block? ts c.draft c.pos s.pos⟩
  | some .semicolon, true => simple? ts c true s.pos true s.pos
  | stop, colon =>
    -- a step back from a closing brace, and from the end of the input
    let atBrace : Bool := stop = some .closeBrace
    let pos ← if atBrace then s.pos.psub 1 else some s.pos
    let atEnd : Bool := pos = ts.length
    let pos ← if atEnd then pos.psub 1 else some pos
    match s.opened.getLast? with
    | some i => return .error ⟨.unclosedParen, (← ts[i]?).span.first⟩
    | none => if atBrace || atEnd then unended? ts c colon pos else simple? ts c false pos true pos

/-- The statement at the cursor, if it is no at-rule. -/
def statement? (ts : List Token) (c : Cursor) : Option (Except SyntaxError Cursor) := do
  let first ← ts[c.pos]?
  ofScan? ts c (scan ts c.pos [] (first.kind = .atWord && first.text.contains ':'))

/-- The at-rule at the cursor. The cursor goes to the token that ends it. -/
def atRule? (ts : List Token) (c : Cursor) : Option (Except SyntaxError Cursor) := do
  let t ← ts[c.pos]?
  let name ← t.text.sliceBytes? 1 t.text.byteLength
  if name.isEmpty then return .error ⟨.unnamedAtRule, t.span.first⟩
  let pos := (collect (!Draft.endsParams ·) ts (c.pos + 1) []).2
  let r ← atRuleOf? c.draft.spaces t name (← slice? ts (c.pos + 1) pos)
  match ts[pos]? with
  | none =>
    return .ok ⟨pos, { c.draft.push (.atRule { r with between := [] }) with spaces := r.between }⟩
  | some stop =>
    match stop.kind with
    | .semicolon =>
      return .ok ⟨pos, c.draft.push (.atRule { r with semicolon := true, span.last := stop.span.first })⟩
    | .openBrace => return .ok ⟨pos, c.draft.enter (.atRule r)⟩
    | _ => return ((c.draft.push (.atRule r)).close stop).map (⟨pos, ·⟩)

/-- The at-word at an index begins the definition of a variable. -/
def startsVariable? (ts : List Token) (i : Nat) : Option Bool := do
  let t ← ts[i]?
  if t.text.contains ':' then return true
  let rest ← slice? ts (i + 1) ts.length
  return (rest.find? (·.kind ≠ .space)).any (·.kind = .colon)

/-! ## Rounds -/

/-- What the token at the cursor begins; the cursor goes to the last token of it. -/
def read? (ts : List Token) (c : Cursor) : Option (Except SyntaxError Cursor) := do
  let t ← ts[c.pos]?
  match t.kind with
  | .space | .semicolon =>
    return .ok ⟨c.pos, { c.draft with spaces := c.draft.spaces ++ t.text }⟩
  | .closeBrace => return (c.draft.close t).map (⟨c.pos, ·⟩)
  | .lineComment | .blockComment =>
    return .ok ⟨c.pos, c.draft.push (.comment (← comment? c.draft.spaces t))⟩
  | .atWord => if ← startsVariable? ts c.pos then statement? ts c else atRule? ts c
  | .openBrace => return .ok ⟨c.pos, c.draft.enterBare t⟩
  | _ => statement? ts c

/-- One round of the loop. -/
def round (ts : List Token) (c : Cursor) : Option (Except SyntaxError Cursor) := do
  let answer ← read? ts c
  return answer.map fun c => { c with pos := c.pos + 1 }

/-- At most `n` rounds. The inner answer is missing if tokens are left after them. -/
def run (ts : List Token) (c : Cursor) : Nat → Option (Option (Except SyntaxError Sheet))
  | 0 => return none
  | n + 1 => do
    if c.pos < ts.length then
      match ← round ts c with
      | .error e => return some (.error e)
      | .ok c => run ts c n
    else return some c.draft.finish

end Cursor

end LessStyle
