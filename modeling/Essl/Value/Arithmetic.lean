import Essl.Value.Componentwise

/-!
# Operators on values

Integers wrap around. There is no value for a division by zero, for a quotient that is out of
range, nor where the operands are not of one kind.
-/

namespace Essl

/-- The arithmetic operators. -/
inductive Arithmetic where
  | add
  | subtract
  | multiply
  | divide
  deriving DecidableEq

namespace Arithmetic

/-- The operator on integers, which wrap around. A quotient must exist and fit. -/
def onInts : Arithmetic → Int32 → Int32 → Option Int32
  | add, a, b => some (a + b)
  | subtract, a, b => some (a - b)
  | multiply, a, b => some (a * b)
  | divide, a, b => if b = 0 ∨ (a = Int32.minValue ∧ b = -1) then none else some (a / b)

/-- The operator on floating-point numbers. -/
def onFloats : Arithmetic → Float32 → Float32 → Float32
  | add, a, b => a + b
  | subtract, a, b => a - b
  | multiply, a, b => a * b
  | divide, a, b => a / b

/-- The operator on two scalars of one kind. -/
def onScalars (operator : Arithmetic) : Value → Value → Option Value
  | .int a, .int b => (operator.onInts a b).map .int
  | .float a, .float b => some (.float (operator.onFloats a b))
  | _, _ => none

/-- Applies the operator to corresponding components. -/
def apply (operator : Arithmetic) (a b : Value) : Option Value := a.zip operator.onScalars b

end Arithmetic

namespace Value

/-- Negates every component. -/
def negate (v : Value) : Option Value :=
  v.map fun
    | int i => some (int (-i))
    | float x => some (float (-x))
    | _ => none

/-- How two numbers of one kind compare. What is not a number does not compare. -/
def order? : Value → Value → Option Ordering
  | int a, int b => some (compare a.toInt b.toInt)
  | float a, float b =>
    if a < b then some .lt else if b < a then some .gt else if a == b then some .eq else none
  | _, _ => none

/-- Whether the order of two numbers passes a test. -/
def relate (test : Ordering → Bool) (a b : Value) : Option Value :=
  (a.order? b).map fun order => bool (test order)

/-- Applies a function of truth values. -/
def logical (f : Bool → Bool → Bool) : Value → Value → Option Value
  | bool a, bool b => some (bool (f a b))
  | _, _ => none

/-- Negates a truth value. -/
def not : Value → Option Value
  | bool b => some (bool !b)
  | _ => none

/-! ## Parts -/

/-- The component of a vector, column of a matrix, element of an array or field of a struct. -/
def component? (v : Value) (index : Nat) : Option Value := v.components?.bind (·[index]?)

/-- The vector of the components at some indices; a single one is a scalar. -/
def swizzle (v : Value) : List Nat → Option Value
  | [index] => v.component? index
  | indices => (indices.mapM v.component?).map composite

end Value

end Essl
