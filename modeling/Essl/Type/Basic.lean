import Essl.Text.Location
import Essl.Type.Primitive

/-!
# Types

A type is built in, an array of a type, or a struct. A struct definition carries a number of its
own, so that two definitions are different types even if they look alike.
-/

namespace Essl

mutual

/-- A type of the language. -/
inductive Ty where
  | primitive (primitive : Primitive)
  | array (element : Ty) (length : Nat)
  | struct (definition : StructDef)

/-- The definition of a struct. -/
structure StructDef where
  /-- Tells the definition from every other one. -/
  id : Nat
  name : Option String
  fields : List Field
  /-- The name, or the keyword if there is none. -/
  location : Location

structure Field where
  name : String
  /-- Absent if the type could not be resolved. -/
  type : Option Ty
  location : Location

end

/-!
Structs that are built from structs share them: a definition can stand in many more places of a
type than there are definitions. Equality therefore asks first whether both sides are the same
object, then whether their numbers agree, and looks at fields last.
-/

mutual

private def Ty.decEq : (a b : Ty) → Decidable (a = b)
  | .primitive a, .primitive b => decidable_of_iff (a = b) (by simp)
  | .array a m, .array b n =>
    have := Ty.decEq a b
    decidable_of_iff (a = b ∧ m = n) (by simp)
  | .struct a, .struct b =>
    have := withPtrEqDecEq a b fun _ => StructDef.decEq a b
    decidable_of_iff (a = b) (by simp)
  | .primitive _, .array .. | .primitive _, .struct _ | .array .., .primitive _
  | .array .., .struct _ | .struct _, .primitive _ | .struct _, .array .. => isFalse (by simp)
termination_by structural a => a

private def StructDef.decEq : (a b : StructDef) → Decidable (a = b)
  | ⟨i, m, f, k⟩, ⟨j, n, g, l⟩ =>
    if h : i = j then
      have := fieldsDecEq f g
      decidable_of_iff (m = n ∧ f = g ∧ k = l) (by simp [h])
    else isFalse (by simp [h])
termination_by structural a => a

private def fieldsDecEq : (a b : List Field) → Decidable (a = b)
  | [], [] => isTrue rfl
  | [], _ :: _ | _ :: _, [] => isFalse (by simp)
  | ⟨m, s, k⟩ :: f, ⟨n, t, l⟩ :: g =>
    have := optionDecEq s t
    have := fieldsDecEq f g
    decidable_of_iff ((m = n ∧ s = t ∧ k = l) ∧ f = g) (by simp)
termination_by structural a => a

private def optionDecEq : (a b : Option Ty) → Decidable (a = b)
  | none, none => isTrue rfl
  | none, some _ | some _, none => isFalse (by simp)
  | some a, some b =>
    have := Ty.decEq a b
    decidable_of_iff (a = b) (by simp)
termination_by structural a => a

end

/-- Struct types are equal only if they come from one definition, array types if their elements
and lengths are. -/
instance : DecidableEq Ty := Ty.decEq

instance : DecidableEq StructDef := StructDef.decEq

namespace StructDef

/-- The position and definition of a field. -/
def find? (s : StructDef) (name : String) : Option (Nat × Field) :=
  (s.fields.findIdx? (·.name == name)).bind fun i => s.fields[i]?.map (i, ·)

/-- The name, or a stand-in for a struct without one. -/
def text (s : StructDef) : String := s.name.getD "<anonymous struct>"

end StructDef

namespace Ty

abbrev float : Ty := primitive .float
abbrev int : Ty := primitive .int
abbrev bool : Ty := primitive .bool
abbrev void : Ty := primitive .void

/-- The type as signatures and diagnostics write it. -/
def text : Ty → String
  | primitive p => p.name
  | array element length => element.text ++ "[" ++ toString length ++ "]"
  | struct s => s.text

/-- The primitive type, if the type is one. -/
def primitive? : Ty → Option Primitive
  | primitive p => some p
  | _ => none

/-- Whether the type is a certain primitive type. -/
def isPrimitive (t : Ty) (p : Primitive) : Bool := t.primitive? == some p

/-- What diagnostics about array sizes call a value of the type. -/
def kindText : Ty → String
  | primitive (.scalar .float) => "float"
  | primitive (.scalar .int) => "int"
  | primitive (.scalar .bool) => "boolean"
  | primitive _ => "builtin type"
  | array .. => "array"
  | struct _ => "user type"

end Ty

end Essl
