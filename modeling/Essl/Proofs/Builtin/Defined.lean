import Essl.Proofs.Builtin.Evaluation
import Essl.Proofs.Value.Defined

/-!
# Where built-in functions are defined

Every evaluator has a result for arguments of the types of the parameters, with two exceptions:
integers that have no quotient are not divided, and what is not a number is not ordered.
-/

namespace Essl

namespace Builtin

open Value

/-! ## Exceptions -/

/-- The operators and functions that ask for the order of numbers. -/
def orderings : List String :=
  ["<", ">", "<=", ">=", "lessThan", "lessThanEqual", "greaterThan", "greaterThanEqual"]

/-- The operators in front of an operand that do not write to it. -/
def signs : List String := ["+", "-", "!"]

/-- Integers that meet in a division have no quotient. -/
def DividesIndivisible : List Value → Prop
  | [a, b] => ∃ pair ∈ a.lanes b, isIndivisible pair = true
  | _ => False

instance : DecidablePred DividesIndivisible
  | [a, b] => inferInstanceAs (Decidable (∃ pair ∈ a.lanes b, isIndivisible pair = true))
  | [] | [_] | _ :: _ :: _ :: _ => .isFalse id

/-- The operator or function of the name has no value for the operands. -/
def Undefined (name : String) (operands : List Value) : Prop :=
  (name = "/" ∧ DividesIndivisible operands) ∨ (name ∈ orderings ∧ ∃ v ∈ operands, v.HasNaN)

instance (name : String) : DecidablePred (Undefined name) :=
  fun _ => inferInstanceAs (Decidable (_ ∨ _))

theorem not_undefined_of_sign {name : String} (h : name ∈ signs) (operands : List Value) :
    ¬ Undefined name operands := by
  have hname : name ≠ "/" ∧ name ∉ orderings := by
    revert name
    decide
  exact fun hundefined => hundefined.elim (fun hdivides => hname.1 hdivides.1)
    fun hcompares => hname.2 hcompares.1

/-- Operands that are compared are numbers. -/
theorem isNumber_of_ordering {name : String} (hname : name ∈ orderings) {operands : List Value}
    (hdefined : ¬ Undefined name operands) :
    ∀ v ∈ operands, ∀ w ∈ v.scalars, w.isNaN = false :=
  fun v hv w hw => Bool.eq_false_iff.2 fun hNaN => hdefined (.inr ⟨hname, v, hv, w, hw, hNaN⟩)

end Builtin

open Builtin

/-- The evaluator has results for all arguments of the types of the parameters, but for the
exceptions. -/
def Function.Defined (f : Function) : Prop :=
  ∀ evaluate ∈ f.evaluate, ∀ vs, List.Forall₂ Ty.Holds (f.parameters.map Parameter.type) vs →
    ¬ Undefined f.name vs → evaluate vs ≠ none

theorem Function.builtin_defined {name : String} {parameters : List Primitive}
    {result : Primitive} {evaluate : Option Evaluator}
    (h : ∀ e ∈ evaluate, ∀ vs, List.Forall₂ Primitive.Holds parameters vs →
      ¬ Undefined name vs → e vs ≠ none) :
    (Function.builtin name parameters result evaluate).Defined := by
  intro e he vs hvs hdefined
  simp only [Function.builtin, List.forall₂_map_left_iff] at hvs
  exact h e he vs hvs hdefined

namespace Builtin

open Value

/-! ## Templates -/

/-- The slot is for floats or vectors of floats. -/
def Slot.isFloat : Slot → Bool
  | generic | fixed (.scalar .float) => true
  | _ => false

theorem Slot.Fits.meets {slot : Slot} {count : Nat} {v : Value} (hslot : slot.isFloat = true)
    (h : slot.Fits count v) : v.Meets IsScalar (vectorCounts count) := by
  unfold isFloat at hslot
  split at hslot
  · exact .inl (Value.Fits.mono h fun _ => isScalar_of_holds)
  · exact .inr (isScalar_of_holds h)
  · cases hslot

namespace Template

/-- The evaluator has results for all arguments of every member of the family, but for the
exceptions. -/
def Defined (t : Template) : Prop :=
  ∀ evaluate ∈ t.evaluate, ∀ count vs,
    List.Forall₂ (fun slot v => Slot.Fits count slot v) t.parameters vs →
      ¬ Undefined t.name vs → evaluate vs ≠ none

theorem Defined.overloads {t : Template} (h : t.Defined) : ∀ f ∈ t.overloads, f.Defined := by
  intro f hf
  obtain ⟨count, -, hoverload⟩ := List.mem_filterMap.1 hf
  simp only [overload?, Option.bind_eq_bind, Option.bind_eq_some_iff, Option.pure_def,
    Option.some.injEq] at hoverload
  obtain ⟨parameters, hparameters, result, -, rfl⟩ := hoverload
  apply Function.builtin_defined
  intro evaluate hevaluate vs hvs hdefined
  exact h evaluate hevaluate count vs (Slot.fit_of_resolve hparameters hvs) hdefined

section

variable {name : String} {a b c result : Slot} {evaluate : Evaluator}

theorem defined_one (h : ∀ count x, a.Fits count x → evaluate [x] ≠ none) :
    Defined ⟨name, [a], result, some evaluate⟩ := by
  rintro _ ⟨⟩ count vs (_ | ⟨hx, _ | _⟩) -
  exact h count _ hx

theorem defined_two (h : ∀ count x y, a.Fits count x → b.Fits count y →
      ¬ Undefined name [x, y] → evaluate [x, y] ≠ none) :
    Defined ⟨name, [a, b], result, some evaluate⟩ := by
  rintro _ ⟨⟩ count vs (_ | ⟨hx, _ | ⟨hy, _ | _⟩⟩) hdefined
  exact h count _ _ hx hy hdefined

theorem defined_three (h : ∀ count x y z, a.Fits count x → b.Fits count y → c.Fits count z →
      evaluate [x, y, z] ≠ none) :
    Defined ⟨name, [a, b, c], result, some evaluate⟩ := by
  rintro _ ⟨⟩ count vs (_ | ⟨hx, _ | ⟨hy, _ | ⟨hz, _ | _⟩⟩⟩) -
  exact h count _ _ _ hx hy hz

theorem defined_none {parameters : List Slot} : Defined ⟨name, parameters, result, none⟩ := by
  rintro _ ⟨⟩

variable {f : Float32 → Float32} {g : Float32 → Float32 → Float32}
  {k : Float32 → Float32 → Float32 → Float32}

theorem defined_float1 : Defined ⟨name, [.generic], result, some (float1 f)⟩ :=
  defined_one fun _ _ hx => mapFloat_ne_none (Value.Fits.mono hx fun _ => isScalar_of_holds)

theorem defined_float2 (ha : a.isFloat = true) (hb : b.isFloat = true) :
    Defined ⟨name, [a, b], result, some (float2 g)⟩ :=
  defined_two fun _ _ _ hx hy _ => zipFloat_ne_none (hx.meets ha) (hy.meets hb)

theorem defined_float3 (ha : a.isFloat = true) (hb : b.isFloat = true) (hc : c.isFloat = true) :
    Defined ⟨name, [a, b, c], result, some (float3 k)⟩ :=
  defined_three fun _ _ _ _ hx hy hz =>
    zipFloat3_ne_none (hx.meets ha) (hy.meets hb) (hz.meets hc)

theorem defined_matrices : Defined ⟨name, [.matrix, .matrix], result, some (float2 g)⟩ :=
  defined_two fun _ _ _ hx hy _ =>
    zipFloat_ne_none (.inl (Value.Fits.mono hx fun _ => isScalar_of_holds))
      (.inl (Value.Fits.mono hy fun _ => isScalar_of_holds))

/-! ### Geometry -/

theorem defined_vector1 {f : List Float32 → Value} :
    Defined ⟨name, [a], result, some (vector1 f)⟩ :=
  defined_one fun _ _ _ => Option.some_ne_none _

theorem defined_vector2 {f : List Float32 → List Float32 → Option Value}
    (h : ∀ xs ys, xs.length = ys.length → f xs ys ≠ none) :
    Defined ⟨name, [.generic, .generic], result, some (vector2 f)⟩ :=
  defined_two fun _ x y hx hy _ =>
    h x.floats y.floats ((length_floats hx).trans (length_floats hy).symm)

theorem defined_cross : Defined ⟨name, [.vec3, .vec3], result,
    some (vector2 fun x y => (Geometry.cross x y).map .ofFloats)⟩ := by
  refine defined_two fun _ x y hx hy _ => ?_
  have hcross : Geometry.cross x.floats y.floats ≠ none :=
    Geometry.cross_ne_none (length_floats hx) (length_floats hy)
  simpa [vector2] using hcross

theorem defined_faceForward :
    Defined ⟨name, [.generic, .generic, .generic], result, some faceForward⟩ := by
  refine defined_three fun _ x y z _ hy hz => ?_
  have hface : Geometry.faceForward x.floats y.floats z.floats ≠ none :=
    Geometry.faceForward_ne_none ((length_floats hz).trans (length_floats hy).symm)
  simpa [faceForward] using hface

theorem defined_refraction :
    Defined ⟨name, [.generic, .generic, .float], result, some refraction⟩ := by
  refine defined_three fun _ x y z hx hy hz => ?_
  obtain ⟨ratio, rfl⟩ := exists_float hz
  have hrefract : Geometry.refract x.floats y.floats ratio ≠ none :=
    Geometry.refract_ne_none ((length_floats hy).trans (length_floats hx).symm) ratio
  simpa [refraction, toFloat?] using hrefract

/-! ### Comparisons -/

theorem defined_relation_ints {test : Ordering → Bool} :
    Defined ⟨name, [.vector .int, .vector .int], result, some (relation test)⟩ :=
  defined_two fun _ _ _ hx hy _ => Value.Fits.zip_ne_none (ofScalars_holds .int)
    (ofScalars_holds .int) (fun _ _ => relate_ne_none_of_ints test) hx hy

theorem defined_relation_floats (hname : name ∈ orderings) {test : Ordering → Bool} :
    Defined ⟨name, [.vector .float, .vector .float], result, some (relation test)⟩ := by
  refine defined_two fun _ x y hx hy hdefined => ?_
  have hnumbers := isNumber_of_ordering hname hdefined
  refine Value.Fits.zip_ne_none (fun _ h => isScalar_of_holds h.1) (fun _ h => isScalar_of_holds h.1)
    ?_ (hx.and (ofScalars_holds .float) (hnumbers _ (by simp)))
    (hy.and (ofScalars_holds .float) (hnumbers _ (by simp)))
  exact fun _ _ hx hy => relate_ne_none_of_floats test hx.1 hy.1 hx.2 hy.2

theorem defined_sameness {element : Scalar} {expected : Bool} :
    Defined ⟨name, [.vector element, .vector element], result, some (sameness expected)⟩ :=
  defined_two fun _ _ _ hx hy _ => Value.Fits.zip_ne_none (ofScalars_holds element)
    (ofScalars_holds element) (fun _ _ _ _ => Option.some_ne_none _) hx hy

theorem defined_join {f : List Bool → Bool} :
    Defined ⟨name, [.vector .bool], result, some (join f)⟩ := by
  refine defined_one fun _ x hx => ?_
  have hbools : x.scalars.mapM asBool? ≠ none := by
    apply List.mapM_ne_none
    intro w hw
    obtain ⟨p, rfl⟩ := exists_bool (Value.Fits.of_mem_scalars (ofScalars_holds .bool) hx hw)
    simp [asBool?]
  simpa [join] using hbools

theorem defined_negation : Defined ⟨name, [.vector .bool], result, some negation⟩ :=
  defined_one fun _ _ hx =>
    Value.Fits.map_ne_none (ofScalars_holds .bool) (fun _ => not_ne_none) hx

end

end Template

/-! ## The functions -/

theorem angleTemplates_defined : ∀ t ∈ angleTemplates, t.Defined := by
  simp only [angleTemplates, List.forall_mem_cons, Template.defined_float1, true_and]
  exact ⟨Template.defined_float2 rfl rfl, by simp⟩

theorem exponentialTemplates_defined : ∀ t ∈ exponentialTemplates, t.Defined := by
  simp only [exponentialTemplates, List.forall_mem_cons, Template.defined_float1, true_and]
  exact ⟨Template.defined_float2 rfl rfl, by simp⟩

theorem commonTemplates_defined : ∀ t ∈ commonTemplates, t.Defined := by
  simp only [commonTemplates, List.forall_mem_cons, Template.defined_float1, true_and]
  refine ⟨?_, ?_, ?_, ?_, ?_, ?_, ?_, ?_, ?_, ?_, ?_, ?_, ?_, ?_, by simp⟩
  iterate 6 exact Template.defined_float2 rfl rfl
  iterate 4 exact Template.defined_float3 rfl rfl rfl
  iterate 2 exact Template.defined_float2 rfl rfl
  iterate 2 exact Template.defined_float3 rfl rfl rfl

theorem geometricTemplates_defined : ∀ t ∈ geometricTemplates, t.Defined := by
  simp only [geometricTemplates, List.forall_mem_cons]
  refine ⟨Template.defined_vector1, Template.defined_vector2 fun _ _ _ => Option.some_ne_none _,
    Template.defined_vector2 fun _ _ h => ?_, Template.defined_cross, Template.defined_vector1,
    Template.defined_faceForward, Template.defined_vector2 fun _ _ h => ?_,
    Template.defined_refraction, Template.defined_matrices, by simp⟩
  · simpa using dotProduct_ne_none h
  · simpa using Geometry.reflect_ne_none h.symm

theorem relationalTemplates_defined : ∀ t ∈ relationalTemplates, t.Defined := by
  simp only [relationalTemplates, List.forall_mem_cons]
  refine ⟨?_, Template.defined_relation_ints, ?_, Template.defined_relation_ints, ?_,
    Template.defined_relation_ints, ?_, Template.defined_relation_ints, ?_, ?_, ?_, ?_, ?_, ?_,
    Template.defined_join, Template.defined_join, Template.defined_negation, by simp⟩
  iterate 4 exact Template.defined_relation_floats (by decide)
  iterate 6 exact Template.defined_sameness

theorem textureTemplates_defined : ∀ t ∈ textureTemplates, t.Defined := by
  simp [textureTemplates, Template.defined_none]

theorem functions_defined : ∀ f ∈ functions, f.Defined := by
  have htemplates : ∀ t ∈ templates, t.Defined := by
    simp only [templates, List.forall_mem_append]
    exact ⟨⟨⟨⟨⟨angleTemplates_defined, exponentialTemplates_defined⟩, commonTemplates_defined⟩,
      geometricTemplates_defined⟩, relationalTemplates_defined⟩, textureTemplates_defined⟩
  intro f hf
  obtain ⟨t, ht, hf⟩ := List.mem_flatMap.1 hf
  exact (htemplates t ht).overloads f hf

/-! ## The operators -/

section

variable {name : String} {a b result : Primitive} {evaluate : Evaluator}

theorem builtin_defined_unary (h : ∀ x, a.Holds x → evaluate [x] ≠ none) :
    (Function.builtin name [a] result (some evaluate)).Defined := by
  apply Function.builtin_defined
  rintro _ ⟨⟩ vs (_ | ⟨hx, _ | _⟩) -
  exact h _ hx

theorem builtin_defined_binary (h : ∀ x y, a.Holds x → b.Holds y → ¬ Undefined name [x, y] →
      evaluate [x, y] ≠ none) :
    (Function.builtin name [a, b] result (some evaluate)).Defined := by
  apply Function.builtin_defined
  rintro _ ⟨⟩ vs (_ | ⟨hx, _ | ⟨hy, _ | _⟩⟩) hdefined
  exact h _ _ hx hy hdefined

end

/-- The values of a numeric type are floats in composites, or integers or vectors of them. -/
theorem numericTypes_shape : ∀ p ∈ numericTypes,
    (∃ counts, p.Holds = Value.Fits Scalar.float.Holds counts) ∨
      ∃ count, p.Holds = Value.Fits Scalar.int.Holds (vectorCounts count) := by
  intro p hp
  cases p with
  | void => exact absurd hp (by decide)
  | scalar element =>
      cases element with
      | float => exact .inl ⟨[], rfl⟩
      | int => exact .inr ⟨1, rfl⟩
      | bool => exact absurd hp (by decide)
  | vector element size =>
      cases element with
      | float => exact .inl ⟨[size.toNat], rfl⟩
      | int => exact .inr ⟨size.toNat, by rw [vectorCounts_toNat]; rfl⟩
      | bool => exact absurd hp (by cases size <;> decide)
  | matrix size => exact .inl ⟨[size.toNat, size.toNat], rfl⟩
  | sampler2D => exact absurd hp (by decide)
  | samplerCube => exact absurd hp (by decide)

section

variable {operator : Arithmetic} {name : String} {x y : Value}

theorem apply_ne_none_of_floats {counts : List Nat} (hx : x.Meets Scalar.float.Holds counts)
    (hy : y.Meets Scalar.float.Holds counts) : operator.apply x y ≠ none :=
  hx.zip_ne_none (ofScalars_holds .float) (ofScalars_holds .float)
    (fun _ _ => onScalars_ne_none_of_floats operator) hy

theorem apply_ne_none_of_ints (hname : operator = .divide → name = "/") {m n : Nat}
    (hlength : m = 1 ∨ n = 1 ∨ m = n) (hx : x.Fits Scalar.int.Holds (vectorCounts m))
    (hy : y.Fits Scalar.int.Holds (vectorCounts n)) (hdefined : ¬ Undefined name [x, y]) :
    operator.apply x y ≠ none := by
  refine Fits.zip_ne_none_of_lanes (ofScalars_holds .int) (ofScalars_holds .int) hx hy hlength ?_
  intro i j hlane hi hj
  refine onScalars_ne_none_of_ints hi hj fun hdivide hindivisible => hdefined ?_
  exact .inl ⟨hname hdivide, (i, j), hlane, hindivisible⟩

theorem product_defined (size : Dimension) :
    (Function.builtin name [.matrix size, .matrix size] (.matrix size) (some product)).Defined :=
  builtin_defined_binary fun _ _ hx hy _ => linearProduct_matrices_ne_none hx hy

theorem alike_defined (hname : operator = .divide → name = "/") {p : Primitive}
    (hp : p ∈ numericTypes) :
    (Function.builtin name [p, p] p (some (if operator = .multiply ∧ p.primitiveClass = .matrix
      then product else arithmetic operator))).Defined := by
  split
  · rename_i hproduct
    obtain ⟨-, -, -, hmatrix⟩ := numericTypes_fits p hp
    obtain ⟨size, rfl⟩ := hmatrix hproduct.2
    exact product_defined size
  · refine builtin_defined_binary fun x y hx hy hdefined => ?_
    rcases numericTypes_shape p hp with ⟨counts, hholds⟩ | ⟨count, hholds⟩
    · rw [hholds] at hx hy
      exact apply_ne_none_of_floats (.inl hx) (.inl hy)
    · rw [hholds] at hx hy
      exact apply_ne_none_of_ints hname (.inr (.inr rfl)) hx hy hdefined

theorem scaling_floats_defined {p : Primitive} (counts : List Nat)
    (hp : p.Holds = Value.Fits Scalar.float.Holds counts) :
    ∀ f ∈ [Function.builtin name [.float, p] p (some (arithmetic operator)),
      Function.builtin name [p, .float] p (some (arithmetic operator))], f.Defined := by
  simp only [List.forall_mem_cons, List.not_mem_nil, false_implies, implies_true, and_true]
  constructor
  · refine builtin_defined_binary fun x y hx hy _ => ?_
    rw [hp] at hy
    exact apply_ne_none_of_floats (.inr hx) (.inl hy)
  · refine builtin_defined_binary fun x y hx hy _ => ?_
    rw [hp] at hx
    exact apply_ne_none_of_floats (.inl hx) (.inr hy)

theorem scaling_ints_defined (hname : operator = .divide → name = "/") (size : Dimension) :
    ∀ f ∈ [Function.builtin name [.int, .vector .int size] (.vector .int size)
        (some (arithmetic operator)),
      Function.builtin name [.vector .int size, .int] (.vector .int size)
        (some (arithmetic operator))], f.Defined := by
  have hvector : (Primitive.vector .int size).Holds =
      Value.Fits Scalar.int.Holds (vectorCounts size.toNat) := by
    rw [vectorCounts_toNat]
    rfl
  simp only [List.forall_mem_cons, List.not_mem_nil, false_implies, implies_true, and_true]
  constructor
  · refine builtin_defined_binary fun x y hx hy hdefined => ?_
    rw [hvector] at hy
    exact apply_ne_none_of_ints hname (.inl rfl) hx hy hdefined
  · refine builtin_defined_binary fun x y hx hy hdefined => ?_
    rw [hvector] at hx
    exact apply_ne_none_of_ints hname (.inr (.inl rfl)) hx hy hdefined

theorem arithmeticOverloads_defined (hname : operator = .divide → name = "/") :
    ∀ f ∈ arithmeticOverloads name operator, f.Defined := by
  simp only [arithmeticOverloads, List.forall_mem_append, List.forall_mem_map,
    List.forall_mem_flatMap]
  refine ⟨⟨⟨fun p hp => alike_defined hname hp, ?_⟩, ?_⟩, ?_⟩
  · exact fun size _ => scaling_floats_defined [size.toNat] rfl
  · exact fun size _ => scaling_ints_defined hname size
  · exact fun size _ => scaling_floats_defined [size.toNat, size.toNat] rfl

theorem vectorProducts_defined : ∀ f ∈ vectorProducts, f.Defined := by
  intro f hf
  obtain ⟨size, -, hf⟩ := List.mem_flatMap.1 hf
  rcases List.mem_pair.1 hf with rfl | rfl
  · exact builtin_defined_binary fun _ _ hx hy _ => linearProduct_column_ne_none hx hy
  · exact builtin_defined_binary fun _ _ hx hy _ => linearProduct_row_ne_none hx hy

theorem comparisonOverloads_defined (hname : name ∈ orderings) (test : Ordering → Bool) :
    ∀ f ∈ comparisonOverloads name test, f.Defined := by
  simp only [comparisonOverloads, List.forall_mem_map, List.forall_mem_cons, List.not_mem_nil,
    false_implies, implies_true, and_true]
  constructor
  · exact builtin_defined_binary fun _ _ hx hy _ => relate_ne_none_of_ints test hx hy
  · refine builtin_defined_binary fun x y hx hy hdefined => ?_
    have hnumber {v : Value} (hv : v ∈ [x, y]) (hfloat : Scalar.float.Holds v) :
        v.isNaN = false := by
      apply isNumber_of_ordering hname hdefined v hv
      rw [scalars_of_isScalar (isScalar_of_holds hfloat)]
      exact List.mem_cons_self
    exact relate_ne_none_of_floats test hx hy (hnumber (by simp) hx) (hnumber (by simp) hy)

theorem equalityOverloads_defined (expected : Bool) :
    ∀ f ∈ equalityOverloads name expected, f.Defined := by
  simp only [equalityOverloads, List.forall_mem_map]
  exact fun p _ => builtin_defined_binary fun _ _ _ _ _ => Option.some_ne_none _

theorem logicOverload_defined (f : Bool → Bool → Bool) : (logicOverload name f).Defined :=
  builtin_defined_binary fun _ _ hx hy _ => logical_ne_none f hx hy

theorem unaryOverloads_defined {evaluate : Option Evaluator}
    (h : ∀ e ∈ evaluate, ∀ p ∈ numericTypes, ∀ x, p.Holds x → e [x] ≠ none) :
    ∀ f ∈ unaryOverloads name evaluate, f.Defined := by
  simp only [unaryOverloads, List.forall_mem_map]
  intro p hp
  apply Function.builtin_defined
  rintro e he vs (_ | ⟨hx, _ | _⟩) -
  exact h e he p hp _ hx

theorem opposite_ne_none : ∀ p ∈ numericTypes, ∀ x, p.Holds x → opposite [x] ≠ none := by
  intro p hp x hx
  rcases numericTypes_shape p hp with ⟨counts, hholds⟩ | ⟨count, hholds⟩
  · rw [hholds] at hx
    exact hx.negate_ne_none (by decide)
  · rw [hholds] at hx
    exact hx.negate_ne_none (by decide)

/-- All operators have a value, but those that write to their operand. -/
theorem operators_evaluate : ∀ f ∈ operators,
    f.parameters.length = 2 ∨ f.name ∈ signs → f.evaluate.isSome := by
  decide +kernel

theorem operators_defined : ∀ f ∈ operators, f.Defined := by
  simp only [operators, List.forall_mem_append]
  refine ⟨⟨⟨⟨⟨⟨⟨⟨⟨⟨⟨⟨⟨⟨⟨⟨?_, ?_⟩, ?_⟩, ?_⟩, vectorProducts_defined⟩, ?_⟩, ?_⟩, ?_⟩, ?_⟩, ?_⟩, ?_⟩,
    ?_⟩, ?_⟩, ?_⟩, ?_⟩, ?_⟩, ?_⟩
  iterate 4 exact arithmeticOverloads_defined (by decide)
  iterate 4 exact comparisonOverloads_defined (by decide) _
  iterate 2 exact equalityOverloads_defined _
  · simp only [List.forall_mem_cons, List.not_mem_nil, false_implies, implies_true, and_true]
    exact ⟨logicOverload_defined and, logicOverload_defined or, logicOverload_defined xor⟩
  · exact unaryOverloads_defined (by simpa using opposite_ne_none)
  · exact unaryOverloads_defined (by simp [identity])
  iterate 2 exact unaryOverloads_defined (by simp)
  · simp only [List.mem_singleton, forall_eq]
    exact builtin_defined_unary fun _ => not_ne_none

end

end Builtin

end Essl
