import Essl.Builtin.Library

/-!
# Operators

The operand types that operators accept, and the types and values of their results.
-/

namespace Essl.Builtin

/-- The types that take part in arithmetic. -/
def numericTypes : List Primitive :=
  [.int, .float] ++ Dimension.all.map (.vector .float) ++ Dimension.all.map (.vector .int) ++
    Dimension.all.map .matrix

/-! ## Evaluators -/

def arithmetic (operator : Arithmetic) : Evaluator
  | [a, b] => operator.apply a b
  | _ => none

/-- Evaluates a product of linear algebra. -/
def product : Evaluator
  | [a, b] => a.linearProduct b
  | _ => none

def comparison (test : Ordering → Bool) : Evaluator
  | [a, b] => a.relate test b
  | _ => none

/-- Evaluates a logical operator. -/
def logic (f : Bool → Bool → Bool) : Evaluator
  | [a, b] => a.logical f b
  | _ => none

/-- Whether values are the same, or whether they are not. -/
def equality (expected : Bool) : Evaluator
  | [a, b] => some (.bool (a.same b == expected))
  | _ => none

/-- Evaluates a minus sign. -/
def opposite : Evaluator
  | a :: _ => a.negate
  | [] => none

/-- Evaluates a plus sign. -/
def identity : Evaluator
  | a :: _ => some a
  | [] => none

/-- Evaluates a logical negation. -/
def complement : Evaluator
  | a :: _ => a.not
  | [] => none

/-! ## The operators -/

/-- An arithmetic operator: on one type, and between a scalar and a composite of such scalars.
Matrices multiply as linear maps. -/
def arithmeticOverloads (name : String) (operator : Arithmetic) : List Function :=
  let scaling (scalar composite : Primitive) : List Function :=
    [.builtin name [scalar, composite] composite (arithmetic operator),
     .builtin name [composite, scalar] composite (arithmetic operator)]
  let alike : List Function := numericTypes.map fun type =>
    let isProduct := operator = .multiply ∧ type.primitiveClass = .matrix
    .builtin name [type, type] type (some (if isProduct then product else arithmetic operator))
  alike ++
    Dimension.all.flatMap (fun size => scaling .float (.vector .float size)) ++
    Dimension.all.flatMap (fun size => scaling .int (.vector .int size)) ++
    Dimension.all.flatMap (fun size => scaling .float (.matrix size))

/-- Products of a matrix and a column, and of a row and a matrix. -/
def vectorProducts : List Function :=
  Dimension.all.flatMap fun size =>
    [.builtin "*" [.matrix size, .vector .float size] (.vector .float size) (some product),
     .builtin "*" [.vector .float size, .matrix size] (.vector .float size) (some product)]

/-- An operator that compares integers or floating-point numbers. -/
def comparisonOverloads (name : String) (test : Ordering → Bool) : List Function :=
  [.int, .float].map fun type => .builtin name [type, type] .bool (some (comparison test))

/-- An operator that compares values of any one type. -/
def equalityOverloads (name : String) (expected : Bool) : List Function :=
  (Primitive.all.filter (· ≠ .void)).map fun type =>
    .builtin name [type, type] .bool (some (equality expected))

/-- An operator on truth values. -/
def logicOverload (name : String) (f : Bool → Bool → Bool) : Function :=
  .builtin name [.bool, .bool] .bool (some (logic f))

/-- An operator on one operand of any numeric type. -/
def unaryOverloads (name : String) (evaluate : Option Evaluator) : List Function :=
  numericTypes.map fun type => .builtin name [type] type evaluate

/-- Every overload of every operator. -/
def operators : List Function :=
  arithmeticOverloads "+" .add ++ arithmeticOverloads "-" .subtract ++
    arithmeticOverloads "*" .multiply ++ arithmeticOverloads "/" .divide ++ vectorProducts ++
    comparisonOverloads "<" Ordering.isLT ++ comparisonOverloads ">" Ordering.isGT ++
    comparisonOverloads "<=" Ordering.isLE ++ comparisonOverloads ">=" Ordering.isGE ++
    equalityOverloads "==" true ++ equalityOverloads "!=" false ++
    [logicOverload "&&" and, logicOverload "||" or, logicOverload "^^" xor] ++
    unaryOverloads "-" (some opposite) ++ unaryOverloads "+" (some identity) ++
    unaryOverloads "++" none ++ unaryOverloads "--" none ++
    [.builtin "!" [.bool] .bool (some complement)]

/-- The operators by their signatures. -/
def operatorTable : List (String × Function) := operators.map fun f => (f.signature, f)

/-- The operator whose operands have exactly these types. -/
def operator? (name : String) (types : List Ty) : Option Function :=
  operatorTable.lookup (signature name (types.map Ty.text))

end Essl.Builtin
