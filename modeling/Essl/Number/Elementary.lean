import Essl.Number.Fixed

/-!
# Elementary functions on single precision numbers

Every result is the number nearest to the exact value. Special arguments follow the usual rules:
zeros keep their sign where the function does, and there is no number for an argument outside the
domain.
-/

namespace Essl.Number

/-! ## Whole numbers -/

/-- The greatest whole number that is not above, or the least that is not below. -/
private def toWhole (up : Bool) (x : Float32) : Float32 :=
  match decode x with
  | .finite negative m q =>
    let unit := Nat.pow 2 (-q).toNat
    if 0 ≤ q then x
    else ofQuotient negative (if negative = up then m / unit else (m + unit - 1) / unit) 1
  | _ => x

/-- The greatest whole number that is not above. -/
def floor (x : Float32) : Float32 := toWhole false x

/-- The least whole number that is not below. -/
def ceil (x : Float32) : Float32 := toWhole true x

/-- Whether `m * 2 ^ q` is odd, if it is a whole number. -/
private def isOdd? (m : Nat) (q : Int) : Option Bool :=
  let unit := Nat.pow 2 (-q).toNat
  if 0 ≤ q then some (q = 0 ∧ m % 2 = 1)
  else if m % unit = 0 then some (m / unit % 2 = 1)
  else none

/-! ## Trigonometry -/

/-- A function of finite arguments, that keeps zeros. -/
private def onNonzero (x : Float32) (f : Bool → Nat → Int → Float32) : Float32 :=
  match decode x with
  | .finite negative m q => if m = 0 then x else f negative m q
  | _ => nan

/-- The sine of an angle in radians. -/
def sin (x : Float32) : Float32 :=
  onNonzero x fun negative m q => Fixed.round (Fixed.sinCos (Fixed.ofBinary negative m q)).1

/-- The cosine of an angle in radians. -/
def cos (x : Float32) : Float32 :=
  match decode x with
  | .finite negative m q => Fixed.round (Fixed.sinCos (Fixed.ofBinary negative m q)).2
  | _ => nan

/-- The tangent of an angle in radians. -/
def tan (x : Float32) : Float32 :=
  onNonzero x fun negative m q =>
    let (s, c) := Fixed.sinCos (Fixed.ofBinary negative m q)
    Fixed.round (Fixed.div s c)

/-- The number nearest to an angle that is not negative, or to its negation. -/
private def roundAngle (negative : Bool) (angle : Int) : Float32 :=
  Fixed.roundScaled negative angle.toNat 0

/-- The angle, at most a quarter turn to either side, that has this sine. -/
def asin (x : Float32) : Float32 :=
  onNonzero x fun negative m q =>
    let y := Fixed.ofBinary false m q
    if Fixed.one < y then nan
    else roundAngle negative (Fixed.angle y (Fixed.leg Fixed.one y))

/-- The angle of a point above the first axis, that may lie to the left of the origin. -/
private def upperAngle (left : Bool) (y x : Int) : Int :=
  if left then Fixed.pi - Fixed.angle y x else Fixed.angle y x

/-- The angle from 0 to half a turn that has this cosine. -/
def acos (x : Float32) : Float32 :=
  match decode x with
  | .finite negative m q =>
    let x := Fixed.ofBinary false m q
    if Fixed.one < x then nan
    else roundAngle false (upperAngle negative (Fixed.leg Fixed.one x) x)
  | _ => nan

/-- The angle of the point `(x, y)`. Of infinite and of zero coordinates only the quadrant
counts. -/
def atan2 (y x : Float32) : Float32 :=
  match decode y, decode x with
  | .nan, _ | _, .nan => nan
  | .infinite below, .infinite left => roundAngle below (upperAngle left 1 1)
  | .infinite below, .finite left _ _ => roundAngle below (upperAngle left 1 0)
  | .finite below _ _, .infinite left => roundAngle below (upperAngle left 0 1)
  | .finite below m q, .finite left n r =>
    let y := Fixed.ofBinary false m q
    let x := if m = 0 ∧ n = 0 then 1 else Fixed.ofBinary false n r
    roundAngle below (upperAngle left y x)

/-- The angle, at most a quarter turn to either side, that has this tangent. -/
def atan (x : Float32) : Float32 := atan2 x 1.0

/-! ## Powers and logarithms -/

/-- The natural exponential. -/
def exp (x : Float32) : Float32 :=
  match decode x with
  | .nan => nan
  | .infinite negative => if negative then zero false else infinity false
  | .finite negative m q => Fixed.roundExp false (Fixed.ofBinary negative m q)

/-- The power of 2 with an exponent. -/
def exp2 (x : Float32) : Float32 :=
  match decode x with
  | .nan => nan
  | .infinite negative => if negative then zero false else infinity false
  | .finite negative m q =>
    Fixed.roundExp false (Fixed.mul (Fixed.ofBinary negative m q) Fixed.logTwo)

/-- A logarithm, by its values at finite positive arguments. -/
private def logarithm (f : Nat → Int → Int) (x : Float32) : Float32 :=
  match decode x with
  | .nan => nan
  | .infinite negative => if negative then nan else infinity false
  | .finite negative m q =>
    if m = 0 then infinity true else if negative then nan else Fixed.round (f m q)

/-- The natural logarithm. -/
def log (x : Float32) : Float32 := logarithm Fixed.log x

/-- The logarithm to base 2. -/
def log2 (x : Float32) : Float32 := logarithm Fixed.log2 x

/-- The limit of a power whose base or exponent is extreme, by whether the base is large and the
exponent negative. -/
private def extremePower (negative large below : Bool) : Float32 :=
  if large = below then zero negative else infinity negative

/-- The power with base `x` and exponent `y`. Exponent 0 and base 1 give 1 whatever the other
argument is; a negative base has powers with whole exponents only. -/
def pow (x y : Float32) : Float32 :=
  if y == 0.0 || x == 1.0 then 1.0
  else
    match decode x, decode y with
    | .nan, _ | _, .nan => nan
    | .infinite _, .infinite below => extremePower false true below
    | .finite .., .infinite below =>
      if x.abs == 1.0 then 1.0 else extremePower false (1.0 < x.abs) below
    | .infinite negative, .finite below n r =>
      extremePower (negative && isOdd? n r == some true) true below
    | .finite negative m q, .finite below n r =>
      let odd := isOdd? n r
      if m = 0 then extremePower (negative && odd == some true) false below
      else if negative ∧ odd = none then nan
      else
        Fixed.roundExp (negative && odd == some true)
          (Fixed.mul (Fixed.ofBinary below n r) (Fixed.log m q))

end Essl.Number
