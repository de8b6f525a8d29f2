import Essl.Type.Primitive
import Essl.Value.Linear

/-!
# Constructors of values

What the constructor of a scalar, vector or matrix makes of its arguments.
-/

namespace Essl

namespace Value

/-- The scalar as one of another kind. -/
def convert : Scalar → Value → Option Value
  | .float, v => v.toFloat?.map float
  | .int, v => v.toInt?.map int
  | .bool, v => v.toBool?.map bool

/-- The square matrix of floats with the given entries, by row and column. -/
def matrix (size : Nat) (entry : Nat → Nat → Float32) : Value :=
  composite <| (List.range size).map fun column =>
    composite <| (List.range size).map fun row => float (entry row column)

/-- A single scalar fills the vector. Otherwise the scalars of all arguments do, in order; the
last argument may have some left. -/
def constructVector (element : Scalar) (size : Nat) (arguments : List Value) : Option Value :=
  let scalars := (scalarsOf arguments).filterMap (convert element)
  let leading := if size ≤ scalars.length then some (composite (scalars.take size)) else none
  match arguments with
  | [composite _] => leading
  | [argument] => (convert element argument).map fun x => composite (List.replicate size x)
  | _ => leading

/-- A single scalar fills the diagonal. A single matrix replaces the upper left corner of the
identity matrix. Otherwise the scalars of all arguments fill the columns, in order. -/
def constructMatrix (size : Nat) (arguments : List Value) : Option Value :=
  let fromScalars : Option Value :=
    let entries := (scalarsOf arguments).filterMap toFloat?
    if size * size ≤ entries.length then
      some (matrix size fun row column => entries[column * size + row]?.getD 0.0)
    else none
  match arguments with
  | [argument] =>
    match argument.toFloat?, argument.columns? with
    | some x, _ => some (matrix size fun row column => if row = column then x else 0.0)
    | none, some columns =>
      some <| matrix size fun row column =>
        (columns[column]?.bind (·[row]?)).getD (if row = column then 1.0 else 0.0)
    | none, none => fromScalars
  | _ => fromScalars

end Value

/-- The value that the constructor of a built-in type makes of its arguments. -/
def Primitive.construct (target : Primitive) (arguments : List Value) : Option Value :=
  match target with
  | .scalar element => ((Value.scalarsOf arguments).filterMap (Value.convert element)).head?
  | .vector element size => Value.constructVector element size.toNat arguments
  | .matrix size => Value.constructMatrix size.toNat arguments
  | .void | .sampler2D | .samplerCube => none

end Essl
