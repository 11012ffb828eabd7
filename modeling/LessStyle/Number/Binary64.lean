/-!
# Binary floating point

The double-precision numbers, as a sign and a whole multiple of a power of two, and the rounding of an
exact ratio to the nearest of them. A ratio half way between two goes to the one with the even
multiple; one too large for any goes to infinity.

All arithmetic is on natural numbers. A number read from decimal digits, a product and a quotient are
each one exact ratio that is rounded once.
-/

namespace LessStyle

/-- A double: a sign, and a magnitude that is finite or not. -/
inductive Binary64 where
  /-- The magnitude `mantissa * 2 ^ exponent`. -/
  | finite (negative : Bool) (mantissa : Nat) (exponent : Int)
  | infinite (negative : Bool)
  deriving DecidableEq, Repr

namespace Binary64

/-- The least exponent, that of the numbers nearest to zero. -/
def minExponent : Int := -1074

/-- The greatest exponent of a finite number. -/
def maxExponent : Int := 971

/-- The leading bit of a mantissa of 53 bits. -/
def leadingBit : Nat := Nat.pow 2 52

/-- The bit of the sign in the interchange format. -/
def signBit : Nat := Nat.pow 2 63

/-- Zero with a sign. -/
def zero (negative : Bool) : Binary64 := .finite negative 0 minExponent

/-- The whole number nearest to `n / d`; of two equally near, the even one. -/
def roundDiv (n d : Nat) : Nat :=
  let q := n / d
  let r := n % d
  if 2 * r < d then q
  else if d < 2 * r then q + 1
  else q + q % 2

/-- Numerator and denominator of `n / d` divided by `2 ^ e`. -/
def scale (n d : Nat) (e : Int) : Nat × Nat :=
  if 0 ≤ e then (n, d * Nat.pow 2 e.toNat) else (n * Nat.pow 2 (-e).toNat, d)

/-- The exponent at which `n / d` is a multiple of at most 53 bits, and of exactly 53 unless the
exponent is the least one. -/
def exponentFor (n d : Nat) : Int :=
  let e := max ((n.log2 : Int) - d.log2 - 53) minExponent
  let (n, d) := scale n d e
  if n / d < 2 * leadingBit then e else e + 1

/-- The double nearest to `n / d`, with the sign given. -/
def ofRatio (negative : Bool) (n d : Nat) : Binary64 :=
  if n = 0 then zero negative
  else
    let e := exponentFor n d
    let (n, d) := scale n d e
    let m := roundDiv n d
    let (m, e) := if m = 2 * leadingBit then (leadingBit, e + 1) else (m, e)
    if maxExponent < e then .infinite negative else .finite negative m e

/-- The double nearest to a whole number. -/
def ofNat (n : Nat) : Binary64 := ofRatio false n 1

/-- The sign. -/
def isNegative : Binary64 → Bool
  | finite s _ _ => s
  | infinite s => s

/-- With the opposite sign. -/
def neg : Binary64 → Binary64
  | finite s m e => finite (!s) m e
  | infinite s => infinite (!s)

/-- Zero of either sign. -/
def isZero : Binary64 → Bool
  | finite _ m _ => m == 0
  | infinite _ => false

/-- The magnitude is less than one. -/
def isFraction : Binary64 → Bool
  | finite _ m e => e < 0 && m < Nat.pow 2 (-e).toNat
  | infinite _ => false

/-- The magnitude is infinite. -/
def isInfinite : Binary64 → Bool
  | finite .. => false
  | infinite _ => true

/-- The double nearest to the product. A factor that is infinite makes the product so. -/
def mul : Binary64 → Binary64 → Binary64
  | finite s m e, finite t n f =>
    let (a, b) := scale (m * n) 1 (-(e + f))
    ofRatio (s != t) a b
  | x, y => infinite (x.isNegative != y.isNegative)

/-- The double nearest to the quotient. Only a finite divisor other than zero has one of meaning
here. -/
def div : Binary64 → Binary64 → Binary64
  | finite s m e, finite t n f =>
    let (a, b) := scale m n (f - e)
    ofRatio (s != t) a b
  | x, y => infinite (x.isNegative != y.isNegative)

/-- The 64 bits of the interchange format: sign, exponent with the bias, and mantissa without its
leading bit. -/
def bits : Binary64 → Nat
  | finite s m e =>
    (if s then signBit else 0) +
      if m < leadingBit then m else (e - minExponent + 1).toNat * leadingBit + (m - leadingBit)
  | infinite s => (if s then signBit else 0) + 2047 * leadingBit

end Binary64

/-- A decimal number: a sign, and `digits * 10 ^ exponent`. -/
structure Decimal where
  negative : Bool
  digits : Nat
  exponent : Int
  deriving DecidableEq, Repr

namespace Decimal

/-- The number of decimal digits of a number. -/
def size (n : Nat) : Nat := (Nat.toDigits 10 n).length

/-- The double nearest to a decimal number. A number of at least `10 ^ 310` is above all doubles and
one below `10 ^ -325` rounds to zero, so their powers of ten are never formed. -/
def toBinary64 (x : Decimal) : Binary64 :=
  if x.digits = 0 then .zero x.negative
  else
    let top := size x.digits + x.exponent
    if 310 < top then .infinite x.negative
    else if top < -324 then .zero x.negative
    else if 0 ≤ x.exponent then .ofRatio x.negative (x.digits * Nat.pow 10 x.exponent.toNat) 1
    else .ofRatio x.negative x.digits (Nat.pow 10 (-x.exponent).toNat)

end Decimal

end LessStyle
