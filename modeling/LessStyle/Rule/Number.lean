import LessStyle.Rule.Basic
import LessStyle.Rule.Pattern
import LessStyle.Value.Literal
import LessStyle.Value.Numeral
import LessStyle.Value.Part

/-!
# Rules on numbers

`zeroUnit`: a zero has no unit. `leadingZero`: decimals between zero and one are all written with their
leading zero, or all without it; the first in the file decides.
-/

namespace LessStyle.Rule

open Text

/-! ## Zero with a unit -/

/-- The units of length that a zero goes without. -/
def lengthUnits : List Text :=
  ["%", "in", "cm", "mm", "em", "ex", "pt", "pc", "px"].map String.toList

/-- The width of a unit of length that a word character or a percent sign does not continue. -/
def unitWidth? (s : Text) : Option Nat :=
  lengthUnits.findSome? fun u =>
    if u.isPrefixOf s && endsOr (fun c => !(isWord c || c == '%')) (s.drop u.length) then
      some u.length
    else none

/-- The width of a zero and, after at most one white space, its unit. -/
def zeroWidth? : Text → Option Nat
  | '0' :: c :: s =>
    if isWhite c then (unitWidth? s).map (· + 2) else (unitWidth? (c :: s)).map (· + 1)
  | _ => none

/-- A zero with a unit stands in the text, as a number of its own. -/
def hasZeroUnit (s : Text) : Bool :=
  (findPattern? (fun c => !(isWord c || c == '.')) zeroWidth? s).isSome

def zeroUnitMessage : Text := "Values of 0 shouldn't have units specified".toList

/-- The findings on declarations whose value, literals apart, has a zero with a unit; one for a
line. -/
def zeroUnit (page : Page) (sheet : Sheet) : List Finding :=
  Finding.onePerLine 0 <| (sheet.declarations.filter fun d => hasZeroUnit (mask d.value)).map fun d =>
    page.reportSegment d.span.first.line d.valueColumn d.value zeroUnitMessage

/-! ## Leading zeros -/

/-- The text between the first `(` and the last `)` after it, with the text before it. -/
def argumentText? (s : Text) : Option (Text × Text) :=
  match s.cutAt? '(' with
  | some (front, rest) =>
    if rest.contains ')' then some (front, (dropEndWhile (· != ')') rest).dropLast) else none
  | none => none

/-- The pieces of a part that may be numbers: its arguments if it has parentheses, else itself. -/
def argumentsOf (p : Part) : List Part :=
  match argumentText? p.text with
  | some (front, inner) =>
    (splitComma inner).map fun a => { a with offset := p.offset + front.byteLength + 1 + a.offset }
  | none => [p]

/-- The pieces of a value that may be numbers. -/
def candidates (value : Text) : List Part := (splitSpace value).flatMap argumentsOf

/-- The piece is a number between minus one and one, other than zero. -/
def isDecimal (p : Part) : Bool :=
  match leadingNumber? p.text with
  | some x => !x.isZero && x.isFraction
  | none => false

/-- Written with a zero before the point. -/
def hasLeadingZero (s : Text) : Bool := s.startsWith ['0', '.'] || s.startsWith ['-', '0', '.']

/-- The decimals of a sheet in the order of the document. -/
def decimals (sheet : Sheet) : List (Declaration × Part) :=
  sheet.declarations.flatMap fun d => ((candidates d.value).filter isDecimal).map (d, ·)

def leadingZeroMessage (withZero : Bool) : Text :=
  ("When value is between 0 - 1 decimal, the integer part `0` must be written consistently, " ++
    "this file uses the " ++ (if withZero then "`0.5`" else "`.5`") ++ " form").toList

/-- The findings on decimals that are written otherwise than the first one. -/
def leadingZero (page : Page) (sheet : Sheet) : List Finding :=
  match decimals sheet with
  | [] => []
  | (d, p) :: rest =>
    let convention := hasLeadingZero p.text
    (((d, p) :: rest).filter fun (_, p) => hasLeadingZero p.text != convention).map fun (d, p) =>
      page.reportColumns d.span.first.line (d.columnAt p.offset) p.text.length
        (leadingZeroMessage convention)

end LessStyle.Rule
