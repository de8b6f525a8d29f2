import Essl.Number.Common
import Essl.Symbol
import Essl.Value.Arithmetic
import Essl.Value.Linear

/-!
# Built-in functions

Most functions exist for a whole family of types. A template names its parameters by their place
in a family and stands for one overload per member.
-/

namespace Essl

/-- A built-in function that reads its parameters. -/
def Function.builtin (name : String) (parameters : List Primitive) (result : Primitive)
    (evaluate : Option Evaluator) : Function where
  name := name
  returnType := .primitive result
  parameters := parameters.map fun type => ⟨none, .primitive type, .ofList [.input]⟩
  kind := .builtin
  declaredAt := none
  evaluate := evaluate

namespace Builtin

/-- A type in a template. -/
inductive Slot where
  /-- A float or a vector of floats. -/
  | generic
  | matrix
  /-- A vector of floats, integers or truth values. -/
  | vector (element : Scalar)
  | fixed (type : Primitive)
  deriving DecidableEq

namespace Slot

/-- The type in the family member with so many components. -/
def resolve : Slot → Nat → Option Primitive
  | generic, count => Primitive.float.vectorOf? count
  | matrix, count => Primitive.matrixOf? count
  | vector element, count => (Primitive.scalar element).vectorOf? count
  | fixed type, _ => some type

/-- Whether the slot is the same for all members of a family. -/
def isFixed : Slot → Bool
  | fixed _ => true
  | _ => false

abbrev float : Slot := fixed .float
abbrev bool : Slot := fixed .bool
abbrev vec2 : Slot := fixed (.vector .float .two)
abbrev vec3 : Slot := fixed (.vector .float .three)
abbrev vec4 : Slot := fixed (.vector .float .four)
abbrev sampler2D : Slot := fixed .sampler2D
abbrev samplerCube : Slot := fixed .samplerCube

end Slot

/-- A family of overloads that differ in the size of their vectors. -/
structure Template where
  name : String
  parameters : List Slot
  result : Slot
  evaluate : Option Evaluator

namespace Template

/-- The component counts of the members. -/
def family (t : Template) : List Nat :=
  let slots := t.result :: t.parameters
  if slots.contains .generic then [1, 2, 3, 4]
  else if slots.all Slot.isFixed then [1]
  else [2, 3, 4]

/-- The member of the family for vectors of so many components. -/
def overload? (t : Template) (count : Nat) : Option Function := do
  let parameters ← t.parameters.mapM (·.resolve count)
  return .builtin t.name parameters (← t.result.resolve count) t.evaluate

/-- Every member of the family. -/
def overloads (t : Template) : List Function := t.family.filterMap t.overload?

end Template

/-! ## Evaluators -/

/-- A function of one number, for each component. -/
def float1 (f : Float32 → Float32) : Evaluator
  | [x] => x.mapFloat f
  | _ => none

/-- A function of two numbers, for each component. -/
def float2 (f : Float32 → Float32 → Float32) : Evaluator
  | [x, y] => x.zipFloat f y
  | _ => none

/-- A function of three numbers, for each component. -/
def float3 (f : Float32 → Float32 → Float32 → Float32) : Evaluator
  | [x, y, z] => x.zipFloat3 f y z
  | _ => none

/-- A function of one vector of floats. -/
def vector1 (f : List Float32 → Value) : Evaluator
  | x :: _ => some (f x.floats)
  | [] => none

/-- A function of two vectors of floats. -/
def vector2 (f : List Float32 → List Float32 → Option Value) : Evaluator
  | [x, y] => f x.floats y.floats
  | _ => none

/-- Compares components. -/
def relation (test : Ordering → Bool) : Evaluator
  | [x, y] => x.zip (Value.relate test) y
  | _ => none

/-- Whether components are the same, or whether they are not. -/
def sameness (expected : Bool) : Evaluator
  | [x, y] => x.zip (fun a b => some (.bool (a.same b == expected))) y
  | _ => none

/-- Joins truth values. -/
def join (f : List Bool → Bool) : Evaluator
  | [x] => (x.scalars.mapM Value.asBool?).map fun bs => .bool (f bs)
  | _ => none

/-- Negates every component of a vector of truth values. -/
def negation : Evaluator
  | x :: _ => x.map Value.not
  | [] => none

/-- Evaluates `faceforward`. -/
def faceForward : Evaluator
  | [n, i, r] => (Geometry.faceForward n.floats i.floats r.floats).map .ofFloats
  | _ => none

/-- Evaluates `refract`. -/
def refraction : Evaluator
  | [i, n, ratio] =>
    ratio.toFloat?.bind fun ratio =>
      (Geometry.refract i.floats n.floats ratio).map .ofFloats
  | _ => none

/-! ## The functions -/

section

open Slot

private def ints : Slot := .vector .int
private def floats : Slot := .vector .float
private def bools : Slot := .vector .bool

/-- Angles and trigonometry. -/
def angleTemplates : List Template :=
  [⟨"radians", [generic], generic, some (float1 Number.radians)⟩,
   ⟨"degrees", [generic], generic, some (float1 Number.degrees)⟩,
   ⟨"sin", [generic], generic, some (float1 Number.sin)⟩,
   ⟨"cos", [generic], generic, some (float1 Number.cos)⟩,
   ⟨"tan", [generic], generic, some (float1 Number.tan)⟩,
   ⟨"asin", [generic], generic, some (float1 Number.asin)⟩,
   ⟨"acos", [generic], generic, some (float1 Number.acos)⟩,
   ⟨"atan", [generic, generic], generic, some (float2 Number.atan2)⟩,
   ⟨"atan", [generic], generic, some (float1 Number.atan)⟩]

/-- Powers, logarithms and roots. -/
def exponentialTemplates : List Template :=
  [⟨"pow", [generic, generic], generic, some (float2 Number.pow)⟩,
   ⟨"exp", [generic], generic, some (float1 Number.exp)⟩,
   ⟨"log", [generic], generic, some (float1 Number.log)⟩,
   ⟨"exp2", [generic], generic, some (float1 Number.exp2)⟩,
   ⟨"log2", [generic], generic, some (float1 Number.log2)⟩,
   ⟨"sqrt", [generic], generic, some (float1 Float32.sqrt)⟩,
   ⟨"inversesqrt", [generic], generic, some (float1 Number.inverseSqrt)⟩]

/-- Functions of plain numbers. -/
def commonTemplates : List Template :=
  [⟨"abs", [generic], generic, some (float1 Float32.abs)⟩,
   ⟨"sign", [generic], generic, some (float1 Number.sign)⟩,
   ⟨"floor", [generic], generic, some (float1 Number.floor)⟩,
   ⟨"ceil", [generic], generic, some (float1 Number.ceil)⟩,
   ⟨"fract", [generic], generic, some (float1 Number.fract)⟩,
   ⟨"mod", [generic, float], generic, some (float2 Number.modulo)⟩,
   ⟨"mod", [generic, generic], generic, some (float2 Number.modulo)⟩,
   ⟨"min", [generic, generic], generic, some (float2 Number.min)⟩,
   ⟨"min", [generic, float], generic, some (float2 Number.min)⟩,
   ⟨"max", [generic, generic], generic, some (float2 Number.max)⟩,
   ⟨"max", [generic, float], generic, some (float2 Number.max)⟩,
   ⟨"clamp", [generic, generic, generic], generic, some (float3 Number.clamp)⟩,
   ⟨"clamp", [generic, float, float], generic, some (float3 Number.clamp)⟩,
   ⟨"mix", [generic, generic, generic], generic, some (float3 Number.mix)⟩,
   ⟨"mix", [generic, generic, float], generic, some (float3 Number.mix)⟩,
   ⟨"step", [generic, generic], generic, some (float2 Number.step)⟩,
   ⟨"step", [float, generic], generic, some (float2 Number.step)⟩,
   ⟨"smoothstep", [generic, generic, generic], generic, some (float3 Number.smoothstep)⟩,
   ⟨"smoothstep", [float, float, generic], generic, some (float3 Number.smoothstep)⟩]

/-- Functions of vectors as a whole. -/
def geometricTemplates : List Template :=
  [⟨"length", [generic], float, some (vector1 fun x => .float (Geometry.length x))⟩,
   ⟨"distance", [generic, generic], float,
    some (vector2 fun x y => some (.float (Geometry.length (Geometry.subtract x y))))⟩,
   ⟨"dot", [generic, generic], float, some (vector2 fun x y => (dotProduct x y).map .float)⟩,
   ⟨"cross", [vec3, vec3], vec3,
    some (vector2 fun x y => (Geometry.cross x y).map .ofFloats)⟩,
   ⟨"normalize", [generic], generic,
    some (vector1 fun x => .ofFloats (Geometry.normalize x))⟩,
   ⟨"faceforward", [generic, generic, generic], generic, some faceForward⟩,
   ⟨"reflect", [generic, generic], generic,
    some (vector2 fun i n => (Geometry.reflect i n).map .ofFloats)⟩,
   ⟨"refract", [generic, generic, float], generic, some refraction⟩,
   ⟨"matrixCompMult", [matrix, matrix], matrix, some (float2 (· * ·))⟩]

/-- Comparisons of vectors component by component. -/
def relationalTemplates : List Template :=
  [⟨"lessThan", [floats, floats], bools, some (relation Ordering.isLT)⟩,
   ⟨"lessThan", [ints, ints], bools, some (relation Ordering.isLT)⟩,
   ⟨"lessThanEqual", [floats, floats], bools, some (relation Ordering.isLE)⟩,
   ⟨"lessThanEqual", [ints, ints], bools, some (relation Ordering.isLE)⟩,
   ⟨"greaterThan", [floats, floats], bools, some (relation Ordering.isGT)⟩,
   ⟨"greaterThan", [ints, ints], bools, some (relation Ordering.isGT)⟩,
   ⟨"greaterThanEqual", [floats, floats], bools, some (relation Ordering.isGE)⟩,
   ⟨"greaterThanEqual", [ints, ints], bools, some (relation Ordering.isGE)⟩,
   ⟨"equal", [floats, floats], bools, some (sameness true)⟩,
   ⟨"equal", [ints, ints], bools, some (sameness true)⟩,
   ⟨"equal", [bools, bools], bools, some (sameness true)⟩,
   ⟨"notEqual", [floats, floats], bools, some (sameness false)⟩,
   ⟨"notEqual", [ints, ints], bools, some (sameness false)⟩,
   ⟨"notEqual", [bools, bools], bools, some (sameness false)⟩,
   ⟨"any", [bools], bool, some (join fun bs => bs.any id)⟩,
   ⟨"all", [bools], bool, some (join fun bs => bs.all id)⟩,
   ⟨"not", [bools], bools, some negation⟩]

/-- Lookups in textures, which have no constant value. -/
def textureTemplates : List Template :=
  [⟨"texture2D", [sampler2D, vec2], vec4, none⟩,
   ⟨"texture2D", [sampler2D, vec2, float], vec4, none⟩,
   ⟨"texture2DProj", [sampler2D, vec3], vec4, none⟩,
   ⟨"texture2DProj", [sampler2D, vec3, float], vec4, none⟩,
   ⟨"texture2DProj", [sampler2D, vec4], vec4, none⟩,
   ⟨"texture2DProj", [sampler2D, vec4, float], vec4, none⟩,
   ⟨"texture2DLod", [sampler2D, vec2, float], vec4, none⟩,
   ⟨"texture2DProjLod", [sampler2D, vec3, float], vec4, none⟩,
   ⟨"texture2DProjLod", [sampler2D, vec4, float], vec4, none⟩,
   ⟨"textureCube", [samplerCube, vec3], vec4, none⟩,
   ⟨"textureCube", [samplerCube, vec3, float], vec4, none⟩,
   ⟨"textureCubeLod", [samplerCube, vec3, float], vec4, none⟩]

/-- Every family of built-in functions. -/
def templates : List Template :=
  angleTemplates ++ exponentialTemplates ++ commonTemplates ++ geometricTemplates ++
    relationalTemplates ++ textureTemplates

end

/-- Every overload of every built-in function. -/
def functions : List Function := templates.flatMap Template.overloads

/-- The functions by their signatures. -/
def functionTable : List (String × Function) := functions.map fun f => (f.signature, f)

/-- The function whose parameters have exactly these types. -/
def function? (name : String) (types : List Ty) : Option Function :=
  functionTable.lookup (signature name (types.map Ty.text))

/-- Whether some built-in function has the name. -/
def isFunction (name : String) : Bool := templates.any (·.name == name)

end Builtin

end Essl
