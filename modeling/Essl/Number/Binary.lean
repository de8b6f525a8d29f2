/-!
# Single precision numbers

The numbers that 32 bits encode, and rounding of a quotient to the nearest one.
-/

namespace Essl.Number

/-- What the bits of a single precision number mean. A finite one is `± m * 2 ^ q`. -/
inductive Decoded where
  | nan
  | infinite (negative : Bool)
  | finite (negative : Bool) (m : Nat) (q : Int)

/-- The exponent of the smallest numbers. -/
def minExponent : Int := -149

/-- The bit that negative numbers have. -/
def signBit : Nat := 0x80000000

/-- The leading bit of most significands, which is not among the bits. -/
def implicitBit : Nat := 0x800000

/-- Takes a number apart. -/
def decode (x : Float32) : Decoded :=
  let bits := x.toBits.toNat
  let negative := signBit ≤ bits
  let biased : Nat := bits / implicitBit % 256
  let low := bits % implicitBit
  if biased = 255 then (if low = 0 then .infinite negative else .nan)
  else if biased = 0 then .finite negative low minExponent
  else .finite negative (low + implicitBit) ((biased : Int) - 1 + minExponent)

/-- What stands for the lack of a number. -/
def nan : Float32 := .ofBits 0x7fc00000

/-- Zero or infinity with a sign, by the bits without it. -/
private def signed (negative : Bool) (bits : Nat) : Float32 :=
  .ofBits (.ofNat (bits + if negative then signBit else 0))

/-- Infinity with a sign. -/
def infinity (negative : Bool) : Float32 := signed negative 0x7f800000

/-- Zero with a sign. -/
def zero (negative : Bool) : Float32 := signed negative 0

/-- The exponent `e` with `2 ^ e ≤ num / den < 2 ^ (e + 1)`. -/
def exponentOf (num den : Nat) : Int :=
  let e : Int := num.log2 - den.log2
  let reached := if 0 ≤ e then den <<< e.toNat ≤ num else den ≤ num <<< (-e).toNat
  if reached then e else e - 1

/-- The quotient rounded to the nearest integer, to the even one of two equally near. -/
def roundDiv (num den : Nat) : Nat :=
  let floor := num / den
  let rest := 2 * (num % den)
  if den < rest ∨ (rest = den ∧ floor % 2 = 1) then floor + 1 else floor

/-- The number nearest to `± num / den`, the one with an even significand of two equally near.
Beyond the largest number lies infinity. -/
def ofQuotient (negative : Bool) (num den : Nat) : Float32 :=
  if num = 0 then zero negative
  else
    let q := max (exponentOf num den - 23) minExponent
    let m :=
      if 0 ≤ q then roundDiv num (den <<< q.toNat) else roundDiv (num <<< (-q).toNat) den
    signed negative (min ((q - minExponent).toNat * implicitBit + m) 0x7f800000)

end Essl.Number
