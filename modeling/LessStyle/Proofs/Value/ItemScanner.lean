import LessStyle.Proofs.Token.Scanner
import LessStyle.Value.Item

/-!
# A scanner of items on bytes

`scan` reads characters. The scanner of this module walks over the bytes of a value: it holds an offset,
looks at single bytes to find where an item ends, and cuts the value there. As in the scanner of tokens
a cut inside a character or out of range fails, and the loop goes round only as often as it is allowed
to.

The search for the end of a word starts behind the first *byte* of the word, perhaps inside a
character.
-/

namespace LessStyle.Item

open Text
open Token (Cutting isSpaceByte findOffset?)
open Token.Cutting

/-! ## Bytes -/

/-- The byte of a digit. -/
def isDigitByte (b : UInt8) : Bool := code '0' ≤ b && b ≤ code '9'

/-- The byte of a letter. -/
def isLetterByte (b : UInt8) : Bool :=
  (code 'A' ≤ b && b ≤ code 'Z') || (code 'a' ≤ b && b ≤ code 'z')

/-- A byte that may stand in a name: every byte of 128 or more may. -/
def isNameByte (b : UInt8) : Bool :=
  isLetterByte b || isDigitByte b || isOneOf ['_', '-'] b || 128 ≤ b.toNat

/-- A byte that ends a word. -/
def endsWordByte (b : UInt8) : Bool :=
  isSpaceByte b || isOneOf ['(', ')', ',', '"', '\'', '+', '*', '/', '@'] b

/-- The number of bytes of a name. A dash belongs to it only if more of the name follows. -/
def nameLength : List UInt8 → Nat
  | [] => 0
  | b :: bs =>
    if b == code '-' then
      if bs.head?.any fun d => isNameByte d && d != code '-' then nameLength bs + 1 else 0
    else if isNameByte b then nameLength bs + 1
    else 0

/-- The number of bytes of digits, with one point if none was seen and a digit follows it. -/
def digitsLength (seen : Bool) : List UInt8 → Nat
  | [] => 0
  | b :: bs =>
    if isDigitByte b then digitsLength seen bs + 1
    else if b == code '.' && !seen && bs.head?.any isDigitByte then digitsLength true bs + 1
    else 0

/-- The number of bytes of a unit. -/
def unitLength (bs : List UInt8) : Nat :=
  if bs.head? == some (code '%') then 1 else (bs.takeWhile isLetterByte).length

/-- The offset of the quote that closes the string with which the text begins. -/
def quoteOffset? (q : Char) (text : Text) : Option Nat :=
  (closing? q false (text.drop 1)).map fun n => byteLength (text.take n)

/-- The first four bytes are `url(`, in upper or lower case. -/
def startsUrlBytes (text : Text) : Bool :=
  match splitBytes? 4 text with
  | some (head, _) => sameIgnoringCase head ['u', 'r', 'l', '(']
  | none => false

/-! ## Rounds -/

/-- The scanner between two items. -/
structure Scanner where
  /-- The offset of the next byte. -/
  pos : Nat
  /-- The items so far. -/
  items : List Item
  deriving Repr

namespace Scanner

/-- Before the first byte. -/
def start : Scanner := ⟨0, []⟩

/-- The kind of an item, the offset where it ends, and the offset of the unit of a number. -/
abbrev Answer := Kind × Nat × Option Nat

variable (v : Text) (pos : Nat)

/-- Where the word ends that goes on at an offset. -/
def wordStop : Nat := pos + ((v.utf8.drop pos).takeWhile (!endsWordByte ·)).length

/-- Behind the byte at an offset from here, if there is one, else at the end. -/
def behind : Option Nat → Nat
  | some k => pos + k + 1
  | none => v.byteLength

/-- Where a string ends. -/
def stringStop (q : Char) : Cutting Nat := do
  let rest ← sliceFrom v pos
  return behind v pos (quoteOffset? q rest)

/-- Where an address ends. -/
def urlStop : Cutting Nat := do
  let rest ← sliceFrom v pos
  return behind v pos (findOffset? [')'] rest)

/-- Where a reference ends, a name or braces. -/
def referenceStop : Cutting Nat := do
  if v.utf8[pos]? == some (code '{') then
    let rest ← bytesFrom v.utf8 pos
    return behind v pos (rest.findIdx? (· == code '}'))
  else return pos + nameLength (v.utf8.drop pos)

/-- Where a variable ends whose first `@` stands before the offset. -/
def variableStop : Cutting Nat :=
  if v.utf8[pos]? == some (code '@') then referenceStop v (pos + 1) else referenceStop v pos

/-- The item that begins with the byte `b` at an offset. -/
def answer (b : UInt8) : Cutting Answer := do
  if b == code '"' then return (.string, ← stringStop v pos '"', none)
  else if b == code '\'' then return (.string, ← stringStop v pos '\'', none)
  else if b == code '(' then return (.openParen, pos + 1, none)
  else if b == code ')' then return (.closeParen, pos + 1, none)
  else if b == code ',' then return (.comma, pos + 1, none)
  else if b == code '+' || b == code '*' || b == code '/' then return (.operator, pos + 1, none)
  else if b == code '-' then
    if v.utf8[pos + 1]?.any fun n => isLetterByte n || isOneOf ['-', '_'] n then
      return (.word, wordStop v (pos + 1), none)
    else return (.operator, pos + 1, none)
  else if b == code '@' then return (.variable, ← variableStop v (pos + 1), none)
  else if isDigitByte b || (b == code '.' && v.utf8[pos + 1]?.any isDigitByte) then
    let unit := pos + digitsLength false (v.utf8.drop pos)
    return (.number, unit + unitLength (v.utf8.drop unit), some unit)
  else
    let rest ← sliceFrom v pos
    if startsUrlBytes rest then return (.url, ← urlStop v pos, none)
    else return (.word, wordStop v (pos + 1), none)

/-- The unit of a number, from its offset to the end of the number. -/
def unitText (stop : Nat) : Option Nat → Cutting Text
  | some unit => slice v unit stop
  | none => return []

/-- Cut off an item and go on behind it. -/
def emit (l : Scanner) : Answer → Cutting Scanner
  | (kind, stop, unit?) => do
    let text ← slice v l.pos stop
    let unit ← unitText v stop unit?
    return ⟨stop, l.items ++ [⟨kind, text, unit, l.pos⟩]⟩

/-- One round of the loop, at the byte `b`. -/
def round (l : Scanner) (b : UInt8) : Cutting Scanner := do
  if isSpaceByte b then return { l with pos := l.pos + 1 }
  else emit v l (← answer v l.pos b)

/-- At most `n` rounds. There is no answer if bytes are left after them. -/
def run (l : Scanner) : Nat → Cutting (Option (List Item))
  | 0 => return none
  | n + 1 => do
    match v.utf8[l.pos]? with
    | none => return some l.items
    | some b => run (← round v l b) n

end Scanner

end LessStyle.Item
