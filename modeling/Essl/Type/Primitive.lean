/-!
# Built-in types

The types that the language names itself: scalars, vectors of two to four components, square
matrices of floats, samplers and `void`.
-/

namespace Essl

/-- What a scalar holds. -/
inductive Scalar where
  | float
  | int
  | bool
  deriving DecidableEq

/-- How many components a vector, or columns a square matrix, may have. -/
inductive Dimension where
  | two
  | three
  | four
  deriving DecidableEq

/-- The types that the language has without any declaration. -/
inductive Primitive where
  | void
  | scalar (element : Scalar)
  | vector (element : Scalar) (size : Dimension)
  | matrix (size : Dimension)
  | sampler2D
  | samplerCube
  deriving DecidableEq

/-- The broad kinds of built-in types. -/
inductive PrimitiveClass where
  | void
  | scalar
  | vector
  | matrix
  | sampler
  deriving DecidableEq

namespace Scalar

def all : List Scalar := [float, int, bool]

/-- The name of a scalar type. -/
def name : Scalar → String
  | float => "float"
  | int => "int"
  | bool => "bool"

/-- What the name of a vector of these starts with. -/
def vectorName : Scalar → String
  | float => "vec"
  | int => "ivec"
  | bool => "bvec"

end Scalar

namespace Dimension

def all : List Dimension := [two, three, four]

/-- How many components. -/
def toNat : Dimension → Nat
  | two => 2
  | three => 3
  | four => 4

/-- The dimension with so many components. -/
def ofNat? : Nat → Option Dimension
  | 2 => some two
  | 3 => some three
  | 4 => some four
  | _ => none

/-- The digit that names of types end in. -/
def digit : Dimension → String
  | two => "2"
  | three => "3"
  | four => "4"

@[simp] theorem ofNat?_toNat (size : Dimension) : ofNat? size.toNat = some size := by
  cases size <;> rfl

theorem ofNat?_eq_some {n : Nat} {size : Dimension} (h : ofNat? n = some size) :
    size.toNat = n := by
  unfold ofNat? at h
  split at h <;> simp_all <;> subst h <;> rfl

end Dimension

namespace Primitive

abbrev float : Primitive := scalar .float
abbrev int : Primitive := scalar .int
abbrev bool : Primitive := scalar .bool

/-- Every built-in type. -/
def all : List Primitive :=
  [void, float, int, bool] ++ Dimension.all.map (vector .float) ++
    Dimension.all.map (vector .bool) ++ Dimension.all.map (vector .int) ++
    Dimension.all.map matrix ++ [sampler2D, samplerCube]

/-- The name of a type. -/
def name : Primitive → String
  | void => "void"
  | scalar element => element.name
  | vector element size => element.vectorName ++ size.digit
  | matrix size => "mat" ++ size.digit
  | sampler2D => "sampler2D"
  | samplerCube => "samplerCube"

/-- The type with a name. -/
def ofName? (name : String) : Option Primitive := all.find? (·.name == name)

/-- The class of a type. -/
def primitiveClass : Primitive → PrimitiveClass
  | void => .void
  | scalar _ => .scalar
  | vector .. => .vector
  | matrix _ => .matrix
  | sampler2D | samplerCube => .sampler

/-- One for a scalar, the dimension of a vector, the columns of a matrix, otherwise none. -/
def componentCount : Primitive → Nat
  | void | sampler2D | samplerCube => 0
  | scalar _ => 1
  | vector _ size | matrix size => size.toNat

/-- How many scalars make up a value. -/
def scalarCount : Primitive → Nat
  | matrix size => size.toNat * size.toNat
  | other => other.componentCount

/-- The scalar type inside; `void` and samplers are their own. -/
def element : Primitive → Primitive
  | vector element _ => scalar element
  | matrix _ => float
  | other => other

/-- The type of the columns of a matrix. -/
def column? : Primitive → Option Primitive
  | matrix size => some (vector .float size)
  | _ => none

/-- The vector of `count` elements of a scalar type; a single one is the scalar itself. -/
def vectorOf? : Primitive → Nat → Option Primitive
  | scalar element, 1 => some (scalar element)
  | scalar element, count => (Dimension.ofNat? count).map (vector element)
  | _, _ => none

/-- The square matrix with this many columns. -/
def matrixOf? (count : Nat) : Option Primitive := (Dimension.ofNat? count).map matrix

theorem mem_all (p : Primitive) : p ∈ all := by
  cases p with
  | scalar element => cases element <;> decide
  | vector element size => cases element <;> cases size <;> decide
  | matrix size => cases size <;> decide
  | _ => decide

end Primitive

end Essl
