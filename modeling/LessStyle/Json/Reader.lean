import LessStyle.Json.Basic
import LessStyle.Value.Numeral

/-!
# Reading JSON

A reader that says where it failed. Offsets count the bytes of the text; a failure carries the offset
up to which the text was read, or one more if it is about the byte that stands there.

The reader of numbers keeps at most 64 bits of digits: a whole number that fits is an integer, and
every other number is a double, made from these digits by one multiplication or division by a power of
ten.
-/

namespace LessStyle.Json

open Text

/-- Why a text is not JSON. -/
inductive Fault where
  | endInList
  | endInObject
  | endInString
  | endInValue
  | expectedColon
  | expectedListEnd
  | expectedObjectEnd
  | expectedWord
  | expectedValue
  | invalidEscape
  | invalidNumber
  | numberOutOfRange
  | controlCharacter
  | keyNotString
  | loneSurrogate
  | trailingComma
  | trailingCharacters
  | endOfHexEscape
  | tooDeep
  deriving DecidableEq, Repr

/-- The wording of a fault. -/
def Fault.message : Fault → Text
  | endInList => "EOF while parsing a list".toList
  | endInObject => "EOF while parsing an object".toList
  | endInString => "EOF while parsing a string".toList
  | endInValue => "EOF while parsing a value".toList
  | expectedColon => "expected `:`".toList
  | expectedListEnd => "expected `,` or `]`".toList
  | expectedObjectEnd => "expected `,` or `\x7d`".toList
  | expectedWord => "expected ident".toList
  | expectedValue => "expected value".toList
  | invalidEscape => "invalid escape".toList
  | invalidNumber => "invalid number".toList
  | numberOutOfRange => "number out of range".toList
  | controlCharacter =>
    "control character (\\u0000-\\u001F) found while parsing a string".toList
  | keyNotString => "key must be a string".toList
  | loneSurrogate => "lone leading surrogate in hex escape".toList
  | trailingComma => "trailing comma".toList
  | trailingCharacters => "trailing characters".toList
  | endOfHexEscape => "unexpected end of hex escape".toList
  | tooDeep => "recursion limit exceeded".toList

/-- A fault and the offset in bytes that it is reported at. -/
structure Failure where
  fault : Fault
  offset : Nat
  deriving DecidableEq, Repr

/-- What is left to read, and the bytes read before it. -/
structure Cursor where
  rest : Text
  offset : Nat
  deriving DecidableEq, Repr

namespace Cursor

/-- The start of a text. -/
def start (s : Text) : Cursor := ⟨s, 0⟩

/-- After `n` characters. -/
def skip (c : Cursor) (n : Nat) : Cursor :=
  ⟨c.rest.drop n, c.offset + byteLength (c.rest.take n)⟩

/-- After blanks. -/
def skipBlanks (c : Cursor) : Cursor :=
  c.skip (c.rest.takeWhile fun b => b == ' ' || b == '\n' || b == '\t' || b == '\r').length

/-- A failure at the bytes read so far. -/
def fail {α : Type} (c : Cursor) (fault : Fault) : Except Failure α := .error ⟨fault, c.offset⟩

/-- A failure at the next byte, or at the end if there is none. -/
def failNext {α : Type} (c : Cursor) (fault : Fault) : Except Failure α :=
  .error ⟨fault, c.offset + min 1 c.rest.length⟩

end Cursor

/-! ## Strings -/

/-- The value of a hexadecimal digit. -/
def hexValue? (c : Char) : Option Nat :=
  if c.isDigit then some (c.toNat - '0'.toNat)
  else if 'a' ≤ c ∧ c ≤ 'f' then some (c.toNat - 'a'.toNat + 10)
  else if 'A' ≤ c ∧ c ≤ 'F' then some (c.toNat - 'A'.toNat + 10)
  else none

/-- Four hexadecimal digits. Four bytes are read before they are looked at. -/
def hexFour (c : Cursor) : Except Failure Nat :=
  if c.rest.byteLength < 4 then .error ⟨.endInString, c.offset + c.rest.byteLength⟩
  else
    match (c.rest.take 4).mapM hexValue? with
    | some ds => .ok (ds.foldl (fun n d => 16 * n + d) 0)
    | none => .error ⟨.invalidEscape, c.offset + 4⟩

/-- The first half of a pair of code units. -/
def isHighSurrogate (n : Nat) : Bool := 0xd800 ≤ n && n ≤ 0xdbff

/-- The second half of a pair of code units. -/
def isLowSurrogate (n : Nat) : Bool := 0xdc00 ≤ n && n ≤ 0xdfff

/-- The character of an escape by code units, after its `u`, and how many characters the escape has
from there. A code unit that is half of a pair needs the other half behind it. -/
def unicodeEscape (c : Cursor) : Except Failure (Char × Nat) := do
  let n ← hexFour c
  let c := c.skip 4
  if isLowSurrogate n then c.fail .loneSurrogate
  else if !isHighSurrogate n then return (Char.ofNat n, 4)
  else
    match c.rest with
    | [] => c.fail .endInString
    | '\\' :: [] => (c.skip 1).fail .endInString
    | '\\' :: 'u' :: _ =>
      let m ← hexFour (c.skip 2)
      if isLowSurrogate m then
        return (Char.ofNat ((n - 0xd800) * 0x400 + (m - 0xdc00) + 0x10000), 10)
      else (c.skip 6).fail .loneSurrogate
    | '\\' :: _ => .error ⟨.endOfHexEscape, c.offset + 2⟩
    | _ => .error ⟨.endOfHexEscape, c.offset + 1⟩

/-- The character of an escape after its backslash, and how many characters the escape has from
there. -/
def escapeChar (c : Cursor) : Except Failure (Char × Nat) :=
  match c.rest with
  | [] => c.fail .endInString
  | d :: _ =>
    match d with
    | '"' => .ok ('"', 1)
    | '\\' => .ok ('\\', 1)
    | '/' => .ok ('/', 1)
    | 'b' => .ok ('\x08', 1)
    | 'f' => .ok ('\x0c', 1)
    | 'n' => .ok ('\n', 1)
    | 'r' => .ok ('\r', 1)
    | 't' => .ok ('\t', 1)
    | 'u' => (unicodeEscape (c.skip 1)).map fun (d, n) => (d, n + 1)
    | _ => .error ⟨.invalidEscape, c.offset + 1⟩

/-- The rest of a string, after its opening quote, at `offset`. -/
def stringFrom (offset : Nat) (s : Text) : Except Failure (Text × Cursor) :=
  match s with
  | [] => .error ⟨.endInString, offset⟩
  | c :: s =>
    if c == '"' then .ok ([], ⟨s, offset + 1⟩)
    else if c == '\\' then
      match escapeChar ⟨s, offset + 1⟩ with
      | .error e => .error e
      | .ok (d, n) =>
        (stringFrom (offset + 1 + byteLength (s.take n)) (s.drop n)).map fun (t, c) => (d :: t, c)
    else if c.toNat < 0x20 then .error ⟨.controlCharacter, offset + 1⟩
    else (stringFrom (offset + c.utf8Size) s).map fun (t, k) => (c :: t, k)
termination_by s.length
decreasing_by all_goals simp only [List.length_drop, List.length_cons]; omega

/-- The rest of a string after its opening quote. -/
def string? (c : Cursor) : Except Failure (Text × Cursor) := stringFrom c.offset c.rest

/-! ## Words and numbers -/

/-- The rest of `true`, `false` or `null`. The first wrong byte is read before it is refused. -/
def word (c : Cursor) : Text → Except Failure Cursor
  | [] => .ok c
  | e :: es =>
    match c.rest with
    | [] => c.fail .endInValue
    | d :: _ => if d == e then word (c.skip 1) es else .error ⟨.expectedWord, c.offset + 1⟩

/-- The largest number of 64 bits. -/
def maxSignificand : Nat := Nat.pow 2 64 - 1

/-- The largest exponent that is counted. -/
def maxPower : Nat := Nat.pow 2 31 - 1

/-- Append digits as long as the number stays below `limit`, and return the digits left over. -/
def appendDigits (limit n : Nat) : Text → Nat × Text
  | [] => (n, [])
  | c :: s =>
    let m := 10 * n + (c.toNat - '0'.toNat)
    if limit < m then (n, c :: s) else appendDigits limit m s

/-- A power of ten as a double. -/
def powerOfTen (n : Nat) : Binary64 := .ofNat (Nat.pow 10 n)

/-- `x` divided by `10 ^ n` in steps of at most `10 ^ 308`, until nothing is left of it. -/
def divideByPower (fuel : Nat) (x : Binary64) (n : Nat) : Binary64 :=
  match fuel with
  | 0 => x
  | fuel + 1 =>
    if n ≤ 308 then x.div (powerOfTen n)
    else if x.isZero then x
    else divideByPower fuel (x.div (powerOfTen 308)) (n - 308)

/-- The double `n * 10 ^ power`, unless it is infinite. No number of 64 bits survives three steps of
division. -/
def double? (n : Nat) (power : Int) : Option Binary64 :=
  let x := Binary64.ofNat n
  if power < 0 then some (divideByPower 4 x (-power).toNat)
  else if 308 < power then if x.isZero then some x else none
  else
    let y := x.mul (powerOfTen power.toNat)
    if y.isInfinite then none else some y

/-- The double with a sign, at the cursor after its digits. -/
def signedDouble (negative : Bool) (n : Nat) (power : Int) (c : Cursor) :
    Except Failure (Json × Cursor) :=
  match double? n power with
  | some x => .ok (.float (if negative then x.neg else x), c)
  | none => c.fail .numberOutOfRange

/-- The exponent of a number after its letter. -/
def exponentPart (negative : Bool) (n : Nat) (power : Int) (c : Cursor) :
    Except Failure (Json × Cursor) :=
  let (sign, rest) := Numeral.sign? c.rest
  let c := c.skip (c.rest.length - rest.length)
  match c.rest with
  | [] => c.fail .endInValue
  | d :: _ =>
    if !d.isDigit then .error ⟨.invalidNumber, c.offset + 1⟩
    else
      let digits := c.rest.takeWhile Char.isDigit
      let (p, left) := appendDigits maxPower 0 digits
      let c' := c.skip digits.length
      if left.isEmpty then
        let p : Int := if sign = some '-' then -(p : Int) else (p : Int)
        signedDouble negative n (power + p) c'
      else if n ≠ 0 ∧ sign ≠ some '-' then
        (c.skip (digits.length - left.length + 1)).fail .numberOutOfRange
      else .ok (.float (.zero negative), c')

/-- The digits of a number after its point. -/
def fractionPart (negative : Bool) (n : Nat) (power : Int) (c : Cursor) :
    Except Failure (Json × Cursor) :=
  let digits := c.rest.takeWhile Char.isDigit
  let c := c.skip digits.length
  if digits.isEmpty then
    c.failNext (if c.rest.isEmpty then .endInValue else .invalidNumber)
  else
    let (n, left) := appendDigits maxSignificand n digits
    let power := power - (digits.length - left.length : Nat)
    match c.rest with
    | 'e' :: _ => exponentPart negative n power (c.skip 1)
    | 'E' :: _ => exponentPart negative n power (c.skip 1)
    | _ => signedDouble negative n power c

/-- A number after its sign. -/
def number (negative : Bool) (c : Cursor) : Except Failure (Json × Cursor) :=
  match c.rest with
  | [] => c.fail .endInValue
  | d :: s =>
    if !d.isDigit then .error ⟨.invalidNumber, c.offset + 1⟩
    else
      let digits := if d == '0' then ['0'] else d :: s.takeWhile Char.isDigit
      let c := c.skip digits.length
      let (n, left) := appendDigits maxSignificand 0 digits
      match c.rest with
      | '.' :: _ => fractionPart negative n left.length (c.skip 1)
      | 'e' :: _ => exponentPart negative n left.length (c.skip 1)
      | 'E' :: _ => exponentPart negative n left.length (c.skip 1)
      | _ =>
        if d == '0' && (c.rest.head?).any Char.isDigit then c.failNext .invalidNumber
        else if !left.isEmpty then signedDouble negative n left.length c
        else if !negative then .ok (.integer n, c)
        else if 0 < n ∧ n ≤ Nat.pow 2 63 then .ok (.integer (-n), c)
        else .ok (.float (Binary64.ofNat n).neg, c)

/-! ## Values -/

/-- The containers that may be open at once. -/
def depthLimit : Nat := 128

/-- The next key of an object, with the cursor behind it, or the cursor behind the brace that ends the
object. -/
def key (first : Bool) (c : Cursor) : Except Failure (Text × Cursor ⊕ Cursor) :=
  let c := c.skipBlanks
  match c.rest with
  | [] => c.failNext .endInObject
  | '}' :: _ => .ok (.inr (c.skip 1))
  | d :: _ =>
    if !first && d != ',' then c.failNext .expectedObjectEnd
    else
      let c := if first then c else (c.skip 1).skipBlanks
      match c.rest with
      | [] => c.failNext .endInValue
      | '"' :: _ => (string? (c.skip 1)).map .inl
      | '}' :: _ => c.failNext .trailingComma
      | _ => c.failNext .keyNotString

/-- The cursor behind the colon after a key. -/
def colon (c : Cursor) : Except Failure Cursor :=
  let c := c.skipBlanks
  match c.rest with
  | [] => c.failNext .endInObject
  | ':' :: _ => .ok (c.skip 1)
  | _ => c.failNext .expectedColon

/-- The cursor at the next item of a list (`inl`), or behind the bracket that ends the list. -/
def item (first : Bool) (c : Cursor) : Except Failure (Cursor ⊕ Cursor) :=
  let c := c.skipBlanks
  match c.rest with
  | [] => c.failNext .endInList
  | ']' :: _ => .ok (.inr (c.skip 1))
  | d :: _ =>
    if first then .ok (.inl c)
    else if d != ',' then c.failNext .expectedListEnd
    else
      let c := (c.skip 1).skipBlanks
      match c.rest with
      | [] => c.failNext .endInValue
      | ']' :: _ => c.failNext .trailingComma
      | _ => .ok (.inl c)

mutual

/-- The next value, where `depth` more containers may be opened. -/
def value (fuel depth : Nat) (c : Cursor) : Except Failure (Json × Cursor) :=
  match fuel with
  | 0 => c.fail .tooDeep
  | fuel + 1 =>
    let c := c.skipBlanks
    match c.rest with
    | [] => c.failNext .endInValue
    | d :: _ =>
      match d with
      | 'n' => (word (c.skip 1) "ull".toList).map (.null, ·)
      | 't' => (word (c.skip 1) "rue".toList).map (.bool true, ·)
      | 'f' => (word (c.skip 1) "alse".toList).map (.bool false, ·)
      | '-' => number true (c.skip 1)
      | '"' => (string? (c.skip 1)).map fun (s, c) => (.string s, c)
      | '[' =>
        if depth ≤ 1 then c.failNext .tooDeep
        else (items fuel (depth - 1) true (c.skip 1)).map fun (js, c) => (.list js, c)
      | '{' =>
        if depth ≤ 1 then c.failNext .tooDeep
        else (fields fuel (depth - 1) true (c.skip 1)).map fun (fs, c) => (.object fs, c)
      | d => if d.isDigit then number false c else c.failNext .expectedValue

/-- The rest of a list. -/
def items (fuel depth : Nat) (first : Bool) (c : Cursor) : Except Failure (List Json × Cursor) :=
  match fuel with
  | 0 => c.fail .tooDeep
  | fuel + 1 => do
    match ← item first c with
    | .inr c => return ([], c)
    | .inl c =>
      let (j, c) ← value fuel depth c
      let (js, c) ← items fuel depth false c
      return (j :: js, c)

/-- The rest of an object. -/
def fields (fuel depth : Nat) (first : Bool) (c : Cursor) :
    Except Failure (List (Text × Json) × Cursor) :=
  match fuel with
  | 0 => c.fail .tooDeep
  | fuel + 1 => do
    match ← key first c with
    | .inr c => return ([], c)
    | .inl (name, c) =>
      let (j, c) ← value fuel depth (← colon c)
      let (fs, c) ← fields fuel depth false c
      return ((name, j) :: fs, c)

end

end LessStyle.Json
