import LessStyle.Number.Binary64
import LessStyle.Text.Blank

/-!
# Numerals

The longest numeral at the start of a text: an optional sign, digits with at most one point, and an
exponent if digits follow it. `Numeral.text` writes the parts again, so a numeral that was read stands
at the start of its text as it is.
-/

namespace LessStyle

/-- A decimal numeral in its parts. -/
structure Numeral where
  sign : Option Char
  whole : Text
  /-- The digits after the point, if there is a point. -/
  fraction : Option Text
  /-- The letter, the sign and the digits of the exponent. -/
  exponent : Option (Char × Option Char × Text)
  deriving DecidableEq, Repr

namespace Numeral

/-- The value of a run of digits. -/
def digitsValue (s : Text) : Nat := s.foldl (fun n c => 10 * n + (c.toNat - '0'.toNat)) 0

/-- A sign at the start, and the text after it. -/
def sign? : Text → Option Char × Text
  | c :: s => if c == '+' || c == '-' then (some c, s) else (none, c :: s)
  | [] => (none, [])

/-- The digits at the start, and the text after them. -/
def digits (s : Text) : Text × Text := (s.takeWhile Char.isDigit, s.dropWhile Char.isDigit)

/-- The digits after a point. A point with digits on neither side is not taken. -/
def fraction? (whole : Text) : Text → Option Text × Text
  | '.' :: s =>
    let (ds, rest) := digits s
    if ds.isEmpty && whole.isEmpty then (none, '.' :: s) else (some ds, rest)
  | s => (none, s)

/-- The exponent at the start, if it has digits. -/
def exponent? : Text → Option (Char × Option Char × Text)
  | c :: s =>
    if c == 'e' || c == 'E' then
      let (sign, rest) := sign? s
      let ds := (digits rest).1
      if ds.isEmpty then none else some (c, sign, ds)
    else none
  | [] => none

/-- The longest numeral at the start of a text. -/
def read? (s : Text) : Option Numeral :=
  let (sign, s) := sign? s
  let (whole, s) := digits s
  let (fraction, s) := fraction? whole s
  if whole.isEmpty && fraction.isNone then none
  else some ⟨sign, whole, fraction, exponent? s⟩

/-- The numeral as it is written. -/
def text (n : Numeral) : Text :=
  n.sign.toList ++ n.whole ++ (match n.fraction with | some ds => '.' :: ds | none => []) ++
    (match n.exponent with | some (c, sign, ds) => c :: sign.toList ++ ds | none => [])

/-- The number that a numeral denotes. -/
def value (n : Numeral) : Decimal :=
  let fraction := n.fraction.getD []
  let power : Int :=
    match n.exponent with
    | some (_, sign, ds) =>
      if sign = some '-' then -(digitsValue ds : Int) else (digitsValue ds : Int)
    | none => 0
  ⟨n.sign = some '-', digitsValue (n.whole ++ fraction), power - fraction.length⟩

end Numeral

/-- The number at the start of a text after white space, as a double. -/
def leadingNumber? (s : Text) : Option Binary64 :=
  (Numeral.read? s.trimStart).map fun n => n.value.toBinary64

end LessStyle
