import Essl.Number.Decimal

/-!
# Constant values

What is known of an expression before a shader runs. Vectors are composites of scalars, matrices
of columns, arrays of elements, structs of fields.
-/

namespace Essl

/-- The value of a constant expression. -/
inductive Value where
  | bool (b : Bool)
  | int (i : Int32)
  | float (x : Float32)
  | composite (components : List Value)
  deriving Inhabited

namespace Value

/-- The integer, if the value is one. -/
def asInt? : Value → Option Int32
  | int i => some i
  | _ => none

/-- The truth value, if the value is one. -/
def asBool? : Value → Option Bool
  | bool b => some b
  | _ => none

/-- A scalar as a float. -/
def toFloat? : Value → Option Float32
  | bool b => some (if b then 1.0 else 0.0)
  | int i => some i.toFloat32
  | float x => some x
  | composite _ => none

/-- A scalar as an integer: floats lose their fraction, and the nearest integer stands for one
that is out of range. -/
def toInt? : Value → Option Int32
  | bool b => some (if b then 1 else 0)
  | int i => some i
  | float x => some x.toInt32
  | composite _ => none

/-- A scalar as a truth value: only zero is false. -/
def toBool? : Value → Option Bool
  | bool b => some b
  | int i => some (i != 0)
  | float x => some (x != 0.0)
  | composite _ => none

/-- The components, unless the value is a scalar. -/
def components? : Value → Option (List Value)
  | composite vs => some vs
  | _ => none

mutual

/-- All scalars inside, in order. -/
def scalars : Value → List Value
  | composite vs => scalarsOf vs
  | scalar => [scalar]

/-- All scalars inside some values, in order. -/
def scalarsOf : List Value → List Value
  | [] => []
  | v :: vs => v.scalars ++ scalarsOf vs

end

mutual

/-- Equality of the values that the language compares: zeros of either sign are equal, and what
is not a number differs from itself. -/
def same : Value → Value → Bool
  | bool a, bool b => a == b
  | int a, int b => a == b
  | float a, float b => a == b
  | composite as, composite bs => sameAll as bs
  | _, _ => false

def sameAll : List Value → List Value → Bool
  | [], [] => true
  | a :: as, b :: bs => a.same b && sameAll as bs
  | _, _ => false

end

mutual

/-- The value as a scalar of the language, or in parentheses. -/
def text : Value → String
  | bool b => if b then "true" else "false"
  | int i => toString i.toInt
  | float x => Number.text x
  | composite vs => "(" ++ ", ".intercalate (texts vs) ++ ")"

def texts : List Value → List String
  | [] => []
  | v :: vs => v.text :: texts vs

end

end Value

end Essl
