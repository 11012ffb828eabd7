import LessStyle.Proofs.Text.Utf8
import LessStyle.Token.Lexer

/-!
# A scanner on bytes

`lexeme` reads characters. The scanner of this module walks over the bytes of the UTF-8 form instead:
it holds an offset, looks at single bytes, computes the offset where a token ends, and only then cuts
the text from one offset to the other. A cut at an offset that is out of range or inside a character
fails, and so does a look at the bytes from an offset beyond the end. `Cutting` is the type of such
computations; it also keeps the offsets of all cuts.

The scanner goes round a loop, a token in every round (`Scanner.round`). `Scanner.run` goes round as
often as it is allowed to and says if that was enough.
-/

namespace LessStyle.Token

open Text

/-- A computation that cuts a text: no answer if a cut fails, else the answer, with the offsets of all
cuts so far. -/
abbrev Cutting (α : Type) := StateT (List Nat) Option α

namespace Cutting

/-- The text from byte `a` to byte `b`. -/
def slice (s : Text) (a b : Nat) : Cutting Text :=
  fun cuts => (s.sliceBytes? a b).map fun t => (t, cuts ++ [a, b])

/-- The text from byte `a` on. -/
def sliceFrom (s : Text) (a : Nat) : Cutting Text := slice s a s.byteLength

/-- The bytes from offset `a` on. -/
def bytesFrom (bytes : List UInt8) (a : Nat) : Cutting (List UInt8) :=
  fun cuts => if a ≤ bytes.length then some (bytes.drop a, cuts ++ [a]) else none

end Cutting

/-! ## Bytes -/

/-- The byte of a blank. -/
def isSpaceByte (b : UInt8) : Bool := isOneOf [' ', '\n', '\t', '\r', '\x0c'] b

/-- A word ends where these bytes begin. -/
def endsWordBytes : List UInt8 → Bool
  | [] => true
  | b :: bs =>
    isSpaceByte b ||
      isOneOf ['(', ')', '{', '}', ':', ';', '@', '!', '\'', '"', '\\', '#'] b ||
      b == code '/' && bs.head? == some (code '*')

/-- An at-word ends where these bytes begin. -/
def endsAtWordBytes : List UInt8 → Bool
  | [] => true
  | b :: bs =>
    isSpaceByte b || isOneOf ['{', '}', '(', ')', '\'', '"', '\\', ';'] b ||
      b == code '/' && (bs.head? == some (code '*') || bs.head? == some (code '/'))

/-- The number of bytes before the first suffix that satisfies `stop`, all of them if none does. -/
def bytesUntil (stop : List UInt8 → Bool) : List UInt8 → Nat
  | [] => 0
  | b :: bs => if stop (b :: bs) then 0 else bytesUntil stop bs + 1

/-- The number of backslashes right before offset `i`. -/
def backslashesBefore (bytes : List UInt8) (i : Nat) : Nat :=
  ((bytes.take i).reverse.takeWhile (· == code '\\')).length

/-- The offset of the first `target` from `start` on that has an even number of backslashes right
before it. -/
def findUnescaped (bytes : List UInt8) (target : UInt8) (start : Nat) : Option Nat :=
  match h : (bytes.drop start).findIdx? (· == target) with
  | none => none
  | some k =>
    if backslashesBefore bytes (start + k) % 2 = 0 then some (start + k)
    else findUnescaped bytes target (start + k + 1)
termination_by bytes.length - start
decreasing_by
  obtain ⟨hk, -⟩ := List.findIdx?_eq_some_iff_getElem.1 h
  rw [List.length_drop] at hk
  omega

/-- The byte offset at which `needle` first occurs. -/
def findOffset? (needle s : Text) : Option Nat :=
  (find? needle s).map fun n => byteLength (s.take n)

/-- What parentheses hold is cut into tokens of its own. -/
def keepsStructure (inner : Text) : Bool :=
  inner.isEmpty || inner == ['.', '.', '.'] ||
    inner.utf8.any (isOneOf ['@', '\n', '\'', '"', '\\', '('])

/-! ## Rounds -/

/-- The scanner between two tokens. -/
structure Scanner where
  /-- The offset of the next byte. -/
  pos : Nat
  /-- The line and column of the next character. -/
  position : Position
  openParens : Nat
  /-- The tokens so far. -/
  tokens : List Token
  deriving Repr

namespace Scanner

/-- Before the first byte. -/
def start : Scanner := ⟨0, .start, 0, []⟩

/-- The text of the last token that is not blank. -/
def lastText? (l : Scanner) : Option Text :=
  (l.tokens.reverse.find? (·.kind ≠ .space)).map Token.text

/-- The kind of a token and the offset where it ends, or the fault of a piece that is never closed. -/
abbrev Answer := Except Fault (Kind × Nat)

variable (s : Text) (l : Scanner)

/-- Up to the closing byte at an offset, if there is one, and `extra` bytes more. -/
def upTo (kind : Kind) (extra : Nat) (fault : Fault) : Option Nat → Answer
  | some close => .ok (kind, close + extra)
  | none => .error fault

/-- The byte after the next one may begin an address. -/
def mayBeginUrl : Option UInt8 → Bool
  | some b => !(isOneOf ['\'', '"'] b || isSpaceByte b)
  | none => true

/-- What a parenthesis begins. -/
def readOpenParen : Cutting Answer := do
  if l.lastText? == some ['u', 'r', 'l'] && mayBeginUrl s.utf8[l.pos + 1]? then
    return upTo .brackets 1 .unclosedUrl (findUnescaped s.utf8 (code ')') (l.pos + 1))
  let rest ← Cutting.bytesFrom s.utf8 (l.pos + 1)
  match rest.findIdx? (· == code ')') with
  | some k =>
    let inner ← Cutting.slice s (l.pos + 1) (l.pos + 1 + k)
    if keepsStructure inner then return .ok (.openParen, l.pos + 1)
    else return .ok (.brackets, l.pos + 1 + k + 1)
  | none => return .ok (.openParen, l.pos + 1)

/-- A backslash, the backslashes after it and what the last of them escapes. -/
def readEscape : Cutting Answer := do
  let run := ((s.utf8.drop (l.pos + 1)).takeWhile (· == code '\\')).length
  let stop := l.pos + run + 1
  if run % 2 = 0 then
    let rest ← Cutting.sliceFrom s stop
    match rest with
    | c :: _ =>
      if c == '/' || isBlank c then return .ok (.word, stop)
      else return .ok (.word, stop + c.utf8Size)
    | [] => return .ok (.word, stop)
  else return .ok (.word, stop)

/-- A word of the form `@{...}`. -/
def readInterpolation : Cutting Answer := do
  let rest ← Cutting.bytesFrom s.utf8 (l.pos + 2)
  return upTo .word 1 .unclosedInterpolation
    ((rest.findIdx? (· == code '}')).map (l.pos + 2 + ·))

/-- An at-word or a parameter. -/
def readAtWord : Cutting Answer := do
  let stop := l.pos + 1 + bytesUntil endsAtWordBytes (s.utf8.drop (l.pos + 1))
  if l.openParens > 0 then
    let text ← Cutting.slice s l.pos stop
    return .ok (.param (text.endsWith ['.', '.', '.']), stop)
  else return .ok (.atWord, stop)

/-- A comment with `/*`. -/
def readBlockComment : Cutting Answer := do
  let rest ← Cutting.sliceFrom s (l.pos + 2)
  return upTo .blockComment 2 .unclosedComment
    ((findOffset? ['*', '/'] rest).map (l.pos + 2 + ·))

/-- A comment with `//`. -/
def readLineComment : Cutting Answer := do
  let rest ← Cutting.sliceFrom s (l.pos + 2)
  match findOffset? ['\n'] rest with
  | some k => return .ok (.lineComment, l.pos + 2 + k)
  | none => return .ok (.lineComment, s.byteLength)

/-- The kind and the end of the token that begins with the byte `b` at the offset of the scanner. -/
def answer (b : UInt8) : Cutting Answer :=
  if isSpaceByte b then
    return .ok (.space, l.pos + ((s.utf8.drop l.pos).takeWhile isSpaceByte).length)
  else if b == code '{' then return .ok (.openBrace, l.pos + 1)
  else if b == code '}' then return .ok (.closeBrace, l.pos + 1)
  else if b == code ':' then return .ok (.colon, l.pos + 1)
  else if b == code ';' then return .ok (.semicolon, l.pos + 1)
  else if b == code ',' then return .ok (.word, l.pos + 1)
  else if b == code '(' then readOpenParen s l
  else if b == code ')' then return .ok (.closeParen, l.pos + 1)
  else if b == code '\'' || b == code '"' then
    return upTo .string 1 .unclosedQuote (findUnescaped s.utf8 b (l.pos + 1))
  else if b == code '\\' then readEscape s l
  else if b == code '@' && s.utf8[l.pos + 1]? == some (code '{') then readInterpolation s l
  else if b == code '@' then readAtWord s l
  else if b == code '/' && s.utf8[l.pos + 1]? == some (code '*') then readBlockComment s l
  else if b == code '/' && s.utf8[l.pos + 1]? == some (code '/') then readLineComment s l
  else return .ok (.word, l.pos + 1 + bytesUntil endsWordBytes (s.utf8.drop (l.pos + 1)))

/-- The positions of the last character of a text and of what follows it; the first is where the text
begins, if it is empty. -/
def walk (p : Position) (text : Text) : Position × Position :=
  text.foldl (fun (_, here) c => (here, here.next c)) (p, p)

/-- Cut off the token up to `stop` and go on behind it. -/
def emit (kind : Kind) (stop : Nat) : Cutting Scanner := do
  let text ← Cutting.slice s l.pos stop
  let (last, next) := walk l.position text
  return {
    pos := stop
    position := next
    openParens :=
      match kind with
      | .openParen => l.openParens + 1
      | .closeParen => l.openParens - 1
      | _ => l.openParens
    tokens := l.tokens ++ [⟨kind, text, ⟨l.position, last⟩⟩] }

/-- One round of the loop, at the byte `b`. -/
def round (b : UInt8) : Cutting (Except SyntaxError Scanner) := do
  match ← answer s l b with
  | .error fault => return .error ⟨fault, l.position⟩
  | .ok (kind, stop) => return .ok (← emit s l kind stop)

/-- At most `n` rounds. There is no answer if bytes are left after them. -/
def run (s : Text) (l : Scanner) : Nat → Cutting (Option (Except SyntaxError (List Token)))
  | 0 => return none
  | n + 1 => do
    match s.utf8[l.pos]? with
    | none => return some (.ok l.tokens)
    | some b =>
      match ← round s l b with
      | .error e => return some (.error e)
      | .ok l => run s l n

end Scanner

end LessStyle.Token
