import Essl.Value.Componentwise

/-!
# Vectors and matrices of floats

Sums add up from the left, starting at the zero that is neutral for both zeros.
-/

namespace Essl

def sumFloats (xs : List Float32) : Float32 := xs.foldl (· + ·) (-0.0)

/-- The dot product of vectors of one dimension. -/
def dotProduct (xs ys : List Float32) : Option Float32 :=
  if xs.length = ys.length then some (sumFloats (List.zipWith (· * ·) xs ys)) else none

/-- The product of a matrix, given by its columns, and a vector. -/
def multiplyVector (columns : List (List Float32)) (xs : List Float32) :
    Option (List Float32) :=
  match columns with
  | [] => none
  | first :: _ =>
    if columns.length ≠ xs.length then none
    else
      some <| (List.range first.length).map fun row =>
        sumFloats (List.zipWith (fun column x => (column[row]?.map (· * x)).getD 0.0) columns xs)

/-! ## Geometry -/

namespace Geometry

/-- The length of a vector. -/
def length (xs : List Float32) : Float32 := (sumFloats (xs.map fun x => x * x)).sqrt

/-- The vector times a number. -/
def scale (xs : List Float32) (factor : Float32) : List Float32 := xs.map (· * factor)

/-- The difference of two vectors. -/
def subtract (xs ys : List Float32) : List Float32 := List.zipWith (· - ·) xs ys

/-- The vector divided by its length. -/
def normalize (xs : List Float32) : List Float32 := xs.map (· / length xs)

/-- The cross product, for vectors of three components. -/
def cross : List Float32 → List Float32 → Option (List Float32)
  | [x₀, x₁, x₂], [y₀, y₁, y₂] =>
    some [x₁ * y₂ - y₁ * x₂, x₂ * y₀ - y₂ * x₀, x₀ * y₁ - y₀ * x₁]
  | _, _ => none

/-- Turns a vector around unless the incident one comes against the reference. -/
def faceForward (normal incident reference : List Float32) : Option (List Float32) :=
  (dotProduct reference incident).map fun d =>
    if d ≥ 0.0 then scale normal (-1.0) else normal

/-- The direction of an incident vector after it is reflected by a surface. -/
def reflect (incident normal : List Float32) : Option (List Float32) :=
  (dotProduct normal incident).map fun d => subtract incident (scale normal (2.0 * d))

/-- The direction behind a surface, by the ratio of refraction indices. It is zero where all is
reflected. -/
def refract (incident normal : List Float32) (ratio : Float32) : Option (List Float32) :=
  (dotProduct normal incident).map fun d =>
    let k := 1.0 - ratio * ratio * (1.0 - d * d)
    if k < 0.0 then incident.map fun _ => 0.0
    else subtract (scale incident ratio) (scale normal (ratio * d + k.sqrt))

end Geometry

namespace Value

/-- All scalars inside as floats. -/
def floats (v : Value) : List Float32 := v.scalars.filterMap toFloat?

/-- A vector of floats; a single one is a scalar. -/
def ofFloats : List Float32 → Value
  | [x] => float x
  | xs => composite (xs.map float)

/-- The columns of a composite of composites. -/
def columns? : Value → Option (List (List Float32))
  | composite vs => if vs.all (·.components?.isSome) then some (vs.map floats) else none
  | _ => none

/-- The product of matrices, of a matrix and a column, or of a row and a matrix. -/
def linearProduct (a b : Value) : Option Value :=
  match a.columns?, b.columns? with
  | some as, some bs =>
    (bs.mapM (multiplyVector as)).map fun columns =>
      composite (columns.map fun column => composite (column.map float))
  | some as, none => (multiplyVector as b.floats).map ofFloats
  | none, some bs => (bs.mapM (dotProduct a.floats)).map ofFloats
  | none, none => none

end Value

end Essl
