import LessStyle.Text.Blank
import LessStyle.Value.Literal

/-!
# Items of a value

The pieces of a value that the rules on arithmetic look at: numbers with their units, variables,
operators, literals, words and punctuation. Blanks separate items and are none themselves. A sign is
an operator of its own and never part of a number.
-/

namespace LessStyle

open Text

/-- What an item is. -/
inductive Item.Kind where
  | number
  | variable
  | word
  | string
  | url
  /-- One of `+ - * /`. -/
  | operator
  | openParen
  | closeParen
  | comma
  deriving DecidableEq, Repr

/-- A piece of a value. -/
structure Item where
  kind : Item.Kind
  text : Text
  /-- The unit of a number, else empty. -/
  unit : Text
  /-- Where the item begins, in bytes. -/
  offset : Nat
  deriving DecidableEq, Repr

namespace Item

/-- The offset behind the item. -/
def stop (i : Item) : Nat := i.offset + i.text.byteLength

/-- The item is the operator `c`. -/
def isOperator (i : Item) (c : Char) : Bool := i.kind = .operator && i.text.startsWith [c]

/-! ## Widths -/

/-- A letter, a digit, an underscore, a dash, or any character outside Ascii. -/
def isNameChar (c : Char) : Bool :=
  c.isAlphanum || c == '_' || c == '-' || 0x80 ≤ c.toNat

/-- A character that ends a word. -/
def endsWord (c : Char) : Bool :=
  isBlank c || ['(', ')', ',', '"', '\'', '+', '*', '/', '@'].contains c

/-- The width of the rest of a word. -/
def wordWidth (s : Text) : Nat := (s.takeWhile (!endsWord ·)).length

/-- The width of a name. A dash belongs to it only if more of the name follows that is no dash. -/
def nameWidth : Text → Nat
  | [] => 0
  | c :: s =>
    if c == '-' then
      match s with
      | d :: _ => if isNameChar d && d != '-' then nameWidth s + 1 else 0
      | [] => 0
    else if isNameChar c then nameWidth s + 1
    else 0

/-- The width of what names a variable, after its marks: a name, or braces and their contents. -/
def referenceWidth : Text → Nat
  | '{' :: s => (through? '}' s).getD s.length + 1
  | s => nameWidth s

/-- The width of a variable after its first `@`. -/
def variableWidth : Text → Nat
  | '@' :: s => referenceWidth s + 1
  | s => referenceWidth s

/-- The width of the digits of a number: a point belongs to it if a digit follows. -/
def digitsWidth (s : Text) : Nat :=
  let whole := (s.takeWhile Char.isDigit).length
  match s.drop whole with
  | '.' :: d :: r =>
    if d.isDigit then whole + 1 + ((d :: r).takeWhile Char.isDigit).length else whole
  | _ => whole

/-- The width of a unit: a percent sign, or letters. -/
def unitWidth : Text → Nat
  | '%' :: _ => 1
  | s => (s.takeWhile Char.isAlpha).length

/-- A digit begins the text. -/
def startsDigit : Text → Bool
  | c :: _ => c.isDigit
  | [] => false

/-- A dash before this text begins a word: a letter, a dash or an underscore follows. -/
def startsDashWord : Text → Bool
  | c :: _ => c.isAlpha || c == '-' || c == '_'
  | [] => false

/-- The kind of the item that begins with `c`, how many characters of the text `s` after `c` belong to
it, and how many of these at the end are its unit. -/
def lexeme (c : Char) (s : Text) : Kind × Nat × Nat :=
  if isQuote c then (.string, stringWidth c s, 0)
  else if c == '(' then (.openParen, 0, 0)
  else if c == ')' then (.closeParen, 0, 0)
  else if c == ',' then (.comma, 0, 0)
  else if c == '+' || c == '*' || c == '/' then (.operator, 0, 0)
  else if c == '-' then
    if startsDashWord s then (.word, wordWidth s, 0) else (.operator, 0, 0)
  else if c == '@' then (.variable, variableWidth s, 0)
  else if c.isDigit || (c == '.' && startsDigit s) then
    let number := digitsWidth (c :: s)
    let unit := unitWidth ((c :: s).drop number)
    (.number, number + unit - 1, unit)
  else if startsUrl (c :: s) then (.url, urlWidth s, 0)
  else (.word, wordWidth s, 0)

/-! ## Scanning -/

/-- The items of the text `s` at `offset`. -/
def scanFrom (offset : Nat) (s : Text) : List Item :=
  match s with
  | [] => []
  | c :: s =>
    if isBlank c then scanFrom (offset + 1) s
    else
      let (kind, width, unit) := lexeme c s
      let text : Text := c :: s.take width
      ⟨kind, text, text.drop (text.length - unit), offset⟩ ::
        scanFrom (offset + text.byteLength) (s.drop width)
termination_by s.length
decreasing_by all_goals simp only [List.length_drop, List.length_cons]; omega

/-- The items of a value. -/
def scan (value : Text) : List Item := scanFrom 0 value

/-- Each item with the one before and the one after it; `previous` stands before the first. -/
def withNeighboursFrom (previous : Option Item) : List Item → List (Option Item × Item × Option Item)
  | [] => []
  | i :: is => (previous, i, is.head?) :: withNeighboursFrom (some i) is

/-- Each item with the one before and the one after it. -/
def withNeighbours (is : List Item) : List (Option Item × Item × Option Item) :=
  withNeighboursFrom none is

/-- White space stands directly before the byte `offset` of a value. -/
def isSpacedAt (value : Text) (offset : Nat) : Bool :=
  match value.splitBytes? offset with
  | some (front, _) => front.getLast?.any isWhite
  | none => false

/-- A `+` or `-` is a sign if it begins the value or follows an operator, an opening parenthesis or a
comma; a `-` also if white space stands before it and a number or a variable directly after it. -/
def isSign (value : Text) (previous : Option Item) (i : Item) (next : Option Item) : Bool :=
  (i.isOperator '+' || i.isOperator '-') &&
    match previous with
    | none => true
    | some p =>
      p.kind = .operator || p.kind = .openParen || p.kind = .comma ||
        (i.isOperator '-' && isSpacedAt value i.offset &&
          next.any fun n => n.offset = i.stop && (n.kind = .number || n.kind = .variable))

end Item

end LessStyle
