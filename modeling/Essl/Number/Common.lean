import Essl.Number.Elementary

/-!
# Common functions on single precision numbers

Comparisons fail on what is not a number. A minimum or maximum ignores it, and of equal arguments
it is the second.
-/

namespace Essl.Number

/-- An angle in degrees as one in radians. -/
def radians (x : Float32) : Float32 := x * (3.1415927 / 180.0)

/-- An angle in radians as one in degrees. -/
def degrees (x : Float32) : Float32 := x * 57.29578

/-- The inverse of the square root. -/
def inverseSqrt (x : Float32) : Float32 := 1.0 / x.sqrt

/-- The sign as a number, 0 for zeros and for what is not a number. -/
def sign (x : Float32) : Float32 := if 0.0 < x then 1.0 else if x < 0.0 then -1.0 else 0.0

/-- How far a number is above the nearest whole number that is not greater. -/
def fract (x : Float32) : Float32 := x - floor x

/-- The remainder, with the sign of the divisor. -/
def modulo (x y : Float32) : Float32 := x - y * floor (x / y)

/-- The smaller of two numbers. -/
def min (x y : Float32) : Float32 := if x.isNaN || y ≤ x then y else x

/-- The greater of two numbers. -/
def max (x y : Float32) : Float32 := if x.isNaN || x ≤ y then y else x

/-- The nearest number between two limits. -/
def clamp (x low high : Float32) : Float32 := min (max x low) high

/-- The number that lies between two others in the proportion `t`. -/
def mix (x y t : Float32) : Float32 := x * (1.0 - t) + y * t

/-- Jumps from 0 to 1 at the edge. -/
def step (edge x : Float32) : Float32 := if x < edge then 0.0 else 1.0

/-- Moves smoothly from 0 at the first edge to 1 at the second. -/
def smoothstep (low high x : Float32) : Float32 :=
  let t := (x - low) / (high - low)
  let t := if t < 0.0 then 0.0 else if 1.0 < t then 1.0 else t
  t * t * (3.0 - 2.0 * t)

end Essl.Number
