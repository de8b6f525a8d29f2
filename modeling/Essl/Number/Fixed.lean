import Essl.Number.Binary

/-!
# Fixed-point reals

Integers stand for multiples of `2 ^ -512`. So many places tell on which side of the midpoint
between two single precision numbers the value of an elementary function lies, so that rounding
an approximation gives the same number as rounding the value.
-/

namespace Essl.Number.Fixed

/-- How many binary places there are. -/
def places : Nat := 512

/-- The real number 1. -/
def one : Int := Nat.pow 2 places

/-- The real `m * 2 ^ q` with `-places ≤ q`. -/
def ofBinary (negative : Bool) (m : Nat) (q : Int) : Int :=
  let magnitude : Int := m * Nat.pow 2 (q + places).toNat
  if negative then -magnitude else magnitude

/-- The product, rounded down. -/
def mul (a b : Int) : Int := a * b / one

/-- The quotient, rounded down if the divisor is positive. -/
def div (a b : Int) : Int := a * one / b

/-- The integer part of the square root. -/
def natSqrt (n : Nat) : Nat :=
  if n = 0 then 0
  else
    let low := 2 * natSqrt (n / 4)
    if (low + 1) * (low + 1) ≤ n then low + 1 else low
termination_by n

/-- The square root of `a ^ 2 + b ^ 2`. -/
def hypotenuse (a b : Int) : Int := natSqrt (a * a + b * b).toNat

/-- The other leg of a right triangle. -/
def leg (hypotenuse a : Int) : Int := natSqrt (hypotenuse * hypotenuse - a * a).toNat

/-! ## Series -/

/-- Enough terms for every series below to end beyond the last place. -/
def terms : Nat := 192

/-- The sum `1 + x / d 0 * (1 + x / d 1 * (1 + …))`. -/
def nested (d : Nat → Nat) (x : Int) : Int :=
  (List.range terms).foldr (fun (k : Nat) sum => one + mul x sum / d k) one

/-- The sum `1 + x / 3 + x ^ 2 / 5 + …`. -/
def oddSeries (x : Int) : Int :=
  (List.range terms).foldr (fun (k : Nat) sum => one / (2 * k + 1) + mul x sum) 0

/-- The arc tangent of a number well below 1. -/
def smallArctan (t : Int) : Int := mul t (oddSeries (-mul t t))

/-- Half of the natural logarithm of `(1 + t) / (1 - t)`. -/
def artanh (t : Int) : Int := mul t (oddSeries (mul t t))

/-- Half a turn, by the formula `16 arctan (1/5) - 4 arctan (1/239)`. -/
def pi : Int := 16 * smallArctan (one / 5) - 4 * smallArctan (one / 239)

/-- A quarter of a turn. -/
def halfPi : Int := pi / 2

/-- The natural logarithm of 2. -/
def logTwo : Int := 2 * artanh (one / 3)

/-! ## Elementary functions -/

/-- The tangent of half the angle. -/
def halfTangent (t : Int) : Int := div t (one + hypotenuse one t)

/-- The arc tangent of a number between 0 and 1. -/
def arctan (t : Int) : Int := 4 * smallArctan (halfTangent (halfTangent t))

/-- The angle at the origin between the first axis and a point whose coordinates are not
negative and not both zero. -/
def angle (y x : Int) : Int :=
  if y ≤ x then arctan (div y x) else halfPi - arctan (div x y)

/-- Sine and cosine. The number of quarter turns nearest to the angle leaves an angle of at most
an eighth of a turn. -/
def sinCos (x : Int) : Int × Int :=
  let quarters := (2 * x + halfPi) / (2 * halfPi)
  let rest := x - quarters * halfPi
  let square := -mul rest rest
  let s := mul rest (nested (fun k => (2 * k + 2) * (2 * k + 3)) square)
  let c := nested (fun k => (2 * k + 1) * (2 * k + 2)) square
  match (quarters % 4).toNat with
  | 0 => (s, c)
  | 1 => (c, -s)
  | 2 => (-s, -c)
  | _ => (-c, s)

/-- The exponential as a number between 1 and 2 and the exponent of a power of two. -/
def exp (x : Int) : Int × Int :=
  let exponent := x / logTwo
  (nested (· + 1) (x - exponent * logTwo), exponent)

/-- The natural logarithm of `m * 2 ^ q` as a number of factors of two and the logarithm of a
number between 1 and 2. -/
def logParts (m : Nat) (q : Int) : Int × Int :=
  let x := m * one / Nat.pow 2 m.log2
  (m.log2 + q, 2 * artanh (div (x - one) (x + one)))

/-- The natural logarithm of `m * 2 ^ q`. -/
def log (m : Nat) (q : Int) : Int :=
  let (exponent, rest) := logParts m q
  exponent * logTwo + rest

/-- The logarithm of `m * 2 ^ q` to base 2. -/
def log2 (m : Nat) (q : Int) : Int :=
  let (exponent, rest) := logParts m q
  exponent * one + div rest logTwo

/-! ## Rounding -/

/-- How many leading bits of an approximation are right. -/
def reliableBits : Nat := 320

/-- The single precision number nearest to `± magnitude * 2 ^ (exponent - places)`. Rounding
first to the bits that are right makes values exact that lie on the midpoint between two
numbers. -/
def roundScaled (negative : Bool) (magnitude : Nat) (exponent : Int) : Float32 :=
  let dropped := magnitude.log2 + 1 - reliableBits
  let m := roundDiv magnitude (Nat.pow 2 dropped)
  let q := dropped + exponent - places
  if 0 ≤ q then ofQuotient negative (m * Nat.pow 2 q.toNat) 1
  else ofQuotient negative m (Nat.pow 2 (-q).toNat)

/-- The single precision number nearest to a real. -/
def round (x : Int) : Float32 := roundScaled (x < 0) x.natAbs 0

/-- The single precision number nearest to the exponential of a real, or to its negation. -/
def roundExp (negative : Bool) (x : Int) : Float32 :=
  if 128 * one < x then infinity negative
  else if x < -128 * one then zero negative
  else
    let (m, exponent) := exp x
    roundScaled negative m.toNat exponent

end Essl.Number.Fixed
