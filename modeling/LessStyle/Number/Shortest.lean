import LessStyle.Fault
import LessStyle.Number.Binary64

/-!
# The shortest digits of a double

A double is written with the fewest decimal digits that read back as it, and of those nearest to it.
The reals that round to a double form an interval around it; the two neighbours of the double on the
grid of `n` digits are tried for `n = 1, 2, …` until one lies in the interval. Seventeen digits always
suffice.
-/

namespace LessStyle.Binary64

/-- The reals that round to a double: `low / unit` to `high / unit` around `value / unit`, with the ends
if `closed`. -/
structure Interval where
  low : Nat
  value : Nat
  high : Nat
  unit : Nat
  closed : Bool
  deriving DecidableEq, Repr

/-- The interval of `m * 2 ^ e`. Below a power of two the doubles lie twice as dense. -/
def interval (m : Nat) (e : Int) : Interval :=
  let below := if m = leadingBit ∧ minExponent < e then 1 else 2
  let (factor, unit) := scale 1 1 (2 - e)
  ⟨(4 * m - below) * factor, 4 * m * factor, (4 * m + 2) * factor, unit, m % 2 = 0⟩

/-- The interval with every bound and the unit put over `10 ^ g`. -/
def Interval.scaled (i : Interval) (g : Int) : Interval :=
  if 0 ≤ g then { i with unit := i.unit * Nat.pow 10 g.toNat }
  else
    let p := Nat.pow 10 (-g).toNat
    { i with low := i.low * p, value := i.value * p, high := i.high * p }

/-- The whole number lies in the interval. -/
def Interval.holds (i : Interval) (n : Nat) : Bool :=
  let x := n * i.unit
  if i.closed then i.low ≤ x && x ≤ i.high else i.low < x && x < i.high

/-- The neighbour of the value among the whole numbers that lies in the interval, the nearer if both
do, and the even one of two equally near. -/
def Interval.neighbour? (i : Interval) : Option Nat :=
  let q := i.value / i.unit
  let r := i.value % i.unit
  match i.holds q, i.holds (q + 1) with
  | true, true =>
    if 2 * r < i.unit then some q
    else if i.unit < 2 * r then some (q + 1)
    else some (q + q % 2)
  | true, false => some q
  | false, true => some (q + 1)
  | false, false => none

/-- The power of ten above the value of an interval: `10 ^ (k - 1) ≤ value < 10 ^ k`. -/
def Interval.magnitude (i : Interval) : Int :=
  Decimal.size (i.value * Nat.pow 10 400 / i.unit) - 400

/-- Digits and a power of ten with no zero at the end of the digits. -/
def stripZeros (fuel : Nat) (digits : Nat) (exponent : Int) : Nat × Int :=
  match fuel with
  | 0 => (digits, exponent)
  | fuel + 1 =>
    if digits % 10 = 0 ∧ digits ≠ 0 then stripZeros fuel (digits / 10) (exponent + 1)
    else (digits, exponent)

/-- The shortest digits of `m * 2 ^ e` and their power of ten, for `m` other than zero. -/
def shortest (m : Nat) (e : Int) : Nat × Int :=
  let i := interval m e
  let k := i.magnitude
  let found := (List.range 17).findSome? fun (n : Nat) =>
    let g := k - (n + 1)
    (i.scaled g).neighbour?.map (·, g)
  match found with
  | some (digits, g) => stripZeros 17 digits g
  | none => (0, 0)

/-- How a double is written in a message: positionally while the point stands within sixteen digits or
after at most four zeros, else with an exponent and its sign; a whole number keeps one zero after the
point. -/
def text : Binary64 → Text
  | infinite s => (if s then ['-'] else []) ++ "inf".toList
  | finite s m e =>
    (if s then ['-'] else []) ++
      if m = 0 then "0.0".toList
      else
        let (digits, exponent) := shortest m e
        let ds := Text.decimal digits
        let point := ds.length + exponent
        let zeros (n : Int) : Text := List.replicate n.toNat '0'
        if 0 ≤ exponent ∧ point ≤ 16 then ds ++ zeros exponent ++ ".0".toList
        else if 0 < point ∧ point ≤ 16 then ds.take point.toNat ++ '.' :: ds.drop point.toNat
        else if -5 < point ∧ point ≤ 0 then "0.".toList ++ zeros (-point) ++ ds
        else
          let power := point - 1
          ds.take 1 ++ (if ds.length = 1 then [] else '.' :: ds.drop 1) ++
            'e' :: (if power < 0 then '-' else '+') :: Text.decimal power.natAbs

end LessStyle.Binary64
