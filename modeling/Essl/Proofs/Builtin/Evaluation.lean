import Essl.Builtin.Operators
import Essl.Proofs.Type.Text
import Essl.Proofs.Value.Linear

/-!
# What built-in functions compute

Where the evaluator of a built-in function or operator has a result for arguments of the types of
the parameters, it is one of the type that the function returns. Overloads are found by signatures,
which say exactly what the types of the parameters are: none of them is a struct.
-/

namespace Essl

/-- The results are of a type whenever the arguments are of some types. -/
def Evaluator.Computes (evaluate : Evaluator) (parameters : List Primitive) (result : Primitive) :
    Prop :=
  ∀ vs w, List.Forall₂ Primitive.Holds parameters vs → evaluate vs = some w → result.Holds w

/-- The function takes and returns built-in types, and its results are of the type it returns. -/
def Function.Faithful (f : Function) : Prop :=
  '(' ∉ f.name.toList ∧
    ∃ parameters result, f.parameters.map Parameter.type = parameters.map Ty.primitive ∧
      f.returnType = .primitive result ∧
      ∀ evaluate ∈ f.evaluate, Evaluator.Computes evaluate parameters result

theorem Function.builtin_faithful {name : String} {parameters : List Primitive}
    {result : Primitive} {evaluate : Option Evaluator} (hname : '(' ∉ name.toList)
    (h : ∀ e ∈ evaluate, Evaluator.Computes e parameters result) :
    (Function.builtin name parameters result evaluate).Faithful :=
  ⟨hname, parameters, result, by simp [Function.builtin, Function.comp_def], rfl, h⟩

namespace Function.Faithful

variable {f : Function}

theorem holds (hf : f.Faithful) {evaluate : Evaluator} (he : evaluate ∈ f.evaluate)
    {vs : List Value} {w : Value}
    (hvs : List.Forall₂ Ty.Holds (f.parameters.map Parameter.type) vs)
    (hw : evaluate vs = some w) : f.returnType.Holds w := by
  obtain ⟨-, parameters, result, hparameters, hresult, hcomputes⟩ := hf
  rw [hparameters, List.forall₂_map_left_iff] at hvs
  rw [hresult]
  exact hcomputes evaluate he vs w hvs hw

theorem returnType_primitive (hf : f.Faithful) : ∃ p, f.returnType = .primitive p := by
  obtain ⟨-, parameters, result, -, hresult, -⟩ := hf
  exact ⟨result, hresult⟩

end Function.Faithful

/-! ## Types as nested composites -/

theorem Primitive.holds_vectorOf? {element : Scalar} {count : Nat} {p : Primitive}
    (h : (Primitive.scalar element).vectorOf? count = some p) :
    p.Holds = Value.Fits element.Holds (vectorCounts count) := by
  by_cases hcount : count = 1
  · subst hcount
    obtain rfl := Option.some.inj h
    rfl
  · have hmap : (Dimension.ofNat? count).map (vector element) = some p := by
      unfold vectorOf? at h
      split at h
      · exact absurd rfl hcount
      · simp_all
      · cases h
    obtain ⟨size, hsize, rfl⟩ := Option.map_eq_some_iff.1 hmap
    obtain rfl := Dimension.ofNat?_eq_some hsize
    rw [vectorCounts_toNat]
    rfl

theorem Primitive.holds_matrixOf? {count : Nat} {p : Primitive} (h : matrixOf? count = some p) :
    p.Holds = Value.Fits Scalar.float.Holds [count, count] := by
  obtain ⟨size, hsize, rfl⟩ := Option.map_eq_some_iff.1 h
  obtain rfl := Dimension.ofNat?_eq_some hsize
  rfl

namespace Value

variable {v w a b c : Value} {counts : List Nat} {P : Value → Prop} {element : Scalar}

/-! ## Functions of floats -/

theorem sends_float (f : Float32 → Float32) :
    Sends (fun x => x.toFloat?.map fun x => .float (f x)) P Scalar.float.Holds := by
  intro v w _ h
  obtain ⟨x, -, rfl⟩ := Option.map_eq_some_iff.1 h
  trivial

theorem Fits.mapFloat {f : Float32 → Float32} (ha : a.Fits Scalar.float.Holds counts)
    (h : a.mapFloat f = some w) : w.Fits Scalar.float.Holds counts :=
  Fits.map (ofScalars_holds .float) (sends_float f) ha h

section

variable {f : Float32 → Float32 → Float32}

private theorem sends_float₂ (x : Value) :
    Sends (fun y => do return .float (f (← x.toFloat?) (← y.toFloat?))) P Scalar.float.Holds := by
  intro v w _ h
  simp only [Option.bind_eq_bind, Option.bind_eq_some_iff, Option.pure_def,
    Option.some.injEq] at h
  obtain ⟨_, _, _, _, rfl⟩ := h
  trivial

private theorem sends_float₂_left (y : Value) :
    Sends (fun x => do return .float (f (← x.toFloat?) (← y.toFloat?))) P Scalar.float.Holds := by
  intro v w _ h
  simp only [Option.bind_eq_bind, Option.bind_eq_some_iff, Option.pure_def,
    Option.some.injEq] at h
  obtain ⟨_, _, _, _, rfl⟩ := h
  trivial

theorem Fits.zipFloat (ha : a.Fits Scalar.float.Holds counts)
    (hb : b.Fits Scalar.float.Holds counts) (h : a.zipFloat f b = some w) :
    w.Fits Scalar.float.Holds counts :=
  Fits.zip (ofScalars_holds .float) (ofScalars_holds .float) (fun x _ => sends_float₂ x) ha hb h

theorem Fits.zipFloat_scalar (ha : a.Fits Scalar.float.Holds counts) (hb : Scalar.float.Holds b)
    (h : a.zipFloat f b = some w) : w.Fits Scalar.float.Holds counts := by
  rw [Value.zipFloat, zip_scalar_right _ a (isScalar_of_holds hb)] at h
  exact Fits.map (ofScalars_holds .float) (sends_float₂_left b) ha h

theorem Fits.scalar_zipFloat (ha : Scalar.float.Holds a) (hb : b.Fits Scalar.float.Holds counts)
    (h : a.zipFloat f b = some w) : w.Fits Scalar.float.Holds counts := by
  rw [Value.zipFloat, zip_scalar_left _ b (isScalar_of_holds ha)] at h
  exact Fits.map (ofScalars_holds .float) (sends_float₂ a) hb h

end

section

variable {f : Float32 → Float32 → Float32 → Float32}

/-- Whichever of the three scalars is the last one to be known. -/
private theorem float₃ {x y z : Value}
    (h : (do return Value.float (f (← x.toFloat?) (← y.toFloat?) (← z.toFloat?))) = some w) :
    Scalar.float.Holds w := by
  simp only [Option.bind_eq_bind, Option.bind_eq_some_iff, Option.pure_def,
    Option.some.injEq] at h
  obtain ⟨_, _, _, _, _, _, rfl⟩ := h
  trivial

theorem Fits.zipFloat3 (ha : a.Fits Scalar.float.Holds counts)
    (hb : b.Fits Scalar.float.Holds counts)
    (hc : c.Fits Scalar.float.Holds counts) (h : a.zipFloat3 f b c = some w) :
    w.Fits Scalar.float.Holds counts :=
  Fits.zip3 (ofScalars_holds .float) (ofScalars_holds .float) (ofScalars_holds .float)
    (fun _ _ _ _ _ _ _ h => float₃ h) ha hb hc h

theorem Fits.zipFloat3_scalar (ha : a.Fits Scalar.float.Holds counts)
    (hb : b.Fits Scalar.float.Holds counts) (hc : Scalar.float.Holds c)
    (h : a.zipFloat3 f b c = some w) : w.Fits Scalar.float.Holds counts := by
  rw [Value.zipFloat3, zip3_scalar_right _ a b (isScalar_of_holds hc)] at h
  exact Fits.zip (ofScalars_holds .float) (ofScalars_holds .float) (fun _ _ _ _ _ h => float₃ h)
    ha hb h

theorem Fits.zipFloat3_scalars (ha : a.Fits Scalar.float.Holds counts) (hb : Scalar.float.Holds b)
    (hc : Scalar.float.Holds c) (h : a.zipFloat3 f b c = some w) :
    w.Fits Scalar.float.Holds counts := by
  rw [Value.zipFloat3, zip3_scalar_right _ a b (isScalar_of_holds hc),
    zip_scalar_right _ a (isScalar_of_holds hb)] at h
  exact Fits.map (ofScalars_holds .float) (fun _ _ _ h => float₃ h) ha h

theorem Fits.scalars_zipFloat3 (ha : Scalar.float.Holds a) (hb : Scalar.float.Holds b)
    (hc : c.Fits Scalar.float.Holds counts) (h : a.zipFloat3 f b c = some w) :
    w.Fits Scalar.float.Holds counts := by
  rw [Value.zipFloat3, zip3_scalar_left _ b c (isScalar_of_holds ha),
    zip_scalar_left _ c (isScalar_of_holds hb)] at h
  exact Fits.map (ofScalars_holds .float) (fun _ _ _ h => float₃ h) hc h

end

/-! ## Operators on scalars -/

theorem onScalars_holds {operator : Arithmetic} (ha : element.Holds a) (hb : element.Holds b)
    (h : operator.onScalars a b = some w) : element.Holds w := by
  cases a <;> cases b <;> try cases h
  · obtain ⟨i, -, rfl⟩ := Option.map_eq_some_iff.1 h
    cases element <;> first | exact ha.elim | trivial
  · cases element <;> first | exact ha.elim | trivial

theorem relate_holds {test : Ordering → Bool} (h : a.relate test b = some w) :
    Scalar.bool.Holds w := by
  obtain ⟨order, -, rfl⟩ := Option.map_eq_some_iff.1 h
  trivial

theorem logical_holds {f : Bool → Bool → Bool} (h : a.logical f b = some w) :
    Scalar.bool.Holds w := by
  cases a <;> cases b <;> cases h
  trivial

theorem not_holds (h : a.not = some w) : Scalar.bool.Holds w := by
  cases a <;> cases h
  trivial

theorem Fits.negate (ha : a.Fits element.Holds counts) (h : a.negate = some w) :
    w.Fits element.Holds counts := by
  refine Fits.map (ofScalars_holds element) ?_ ha h
  intro v w hv h
  cases v <;> cases h <;> cases element <;> first | exact hv.elim | trivial

theorem Fits.arithmetic {operator : Arithmetic} (ha : a.Fits element.Holds counts)
    (hb : b.Fits element.Holds counts) (h : operator.apply a b = some w) :
    w.Fits element.Holds counts :=
  Fits.zip (ofScalars_holds element) (ofScalars_holds element)
    (fun _ hx _ _ hy h => onScalars_holds hx hy h) ha hb h

theorem Fits.arithmetic_scalar {operator : Arithmetic} (ha : a.Fits element.Holds counts)
    (hb : element.Holds b) (h : operator.apply a b = some w) : w.Fits element.Holds counts := by
  rw [Arithmetic.apply, zip_scalar_right _ a (isScalar_of_holds hb)] at h
  exact Fits.map (ofScalars_holds element) (fun _ _ hx h => onScalars_holds hx hb h) ha h

theorem Fits.scalar_arithmetic {operator : Arithmetic} (ha : element.Holds a)
    (hb : b.Fits element.Holds counts) (h : operator.apply a b = some w) :
    w.Fits element.Holds counts := by
  rw [Arithmetic.apply, zip_scalar_left _ b (isScalar_of_holds ha)] at h
  exact Fits.map (ofScalars_holds element) (fun _ _ hy h => onScalars_holds ha hy h) hb h

end Value

/-! ## Templates -/

namespace Builtin

open Value

/-- The values of the type that the slot stands for in the family member with so many
components. -/
def Slot.Fits (count : Nat) : Slot → Value → Prop
  | generic => Value.Fits Scalar.float.Holds (vectorCounts count)
  | matrix => Value.Fits Scalar.float.Holds [count, count]
  | vector element => Value.Fits element.Holds (vectorCounts count)
  | fixed type => type.Holds

theorem Slot.holds_resolve {slot : Slot} {count : Nat} {p : Primitive}
    (h : slot.resolve count = some p) : p.Holds = slot.Fits count := by
  cases slot with
  | generic => exact Primitive.holds_vectorOf? h
  | matrix => exact Primitive.holds_matrixOf? h
  | vector element => exact Primitive.holds_vectorOf? h
  | fixed type =>
      obtain rfl := Option.some.inj h
      rfl

theorem Slot.fit_of_resolve {slots : List Slot} {count : Nat} {parameters : List Primitive}
    {vs : List Value} (h : slots.mapM (·.resolve count) = some parameters)
    (hvs : List.Forall₂ Primitive.Holds parameters vs) :
    List.Forall₂ (fun slot v => Slot.Fits count slot v) slots vs := by
  have hslots := List.forall₂_of_mapM h
  clear h
  induction hslots generalizing vs with
  | nil =>
      cases hvs
      exact .nil
  | cons hslot _ ih =>
      cases hvs with
      | cons hv hvs =>
          rw [Slot.holds_resolve hslot] at hv
          exact .cons hv (ih hvs)

namespace Template

/-- The results of every member of the family are of the type that it returns. -/
def Computes (t : Template) : Prop :=
  ∀ evaluate ∈ t.evaluate, ∀ count vs w,
    List.Forall₂ (fun slot v => Slot.Fits count slot v) t.parameters vs →
      evaluate vs = some w → t.result.Fits count w

theorem Computes.faithful {t : Template} (h : t.Computes) (hname : '(' ∉ t.name.toList) :
    ∀ f ∈ t.overloads, f.Faithful := by
  intro f hf
  obtain ⟨count, -, hoverload⟩ := List.mem_filterMap.1 hf
  simp only [overload?, Option.bind_eq_bind, Option.bind_eq_some_iff, Option.pure_def,
    Option.some.injEq] at hoverload
  obtain ⟨parameters, hparameters, result, hresult, rfl⟩ := hoverload
  apply Function.builtin_faithful hname
  intro evaluate hevaluate vs w hvs hw
  rw [Slot.holds_resolve hresult]
  exact h evaluate hevaluate count vs w (Slot.fit_of_resolve hparameters hvs) hw

section

variable {name : String} {a b c result : Slot} {evaluate : Evaluator}

theorem computes_one (h : ∀ count x w, a.Fits count x → evaluate [x] = some w →
      result.Fits count w) :
    Computes ⟨name, [a], result, some evaluate⟩ := by
  rintro _ ⟨⟩ count vs w (_ | ⟨hx, _ | _⟩) hw
  exact h count _ w hx hw

theorem computes_two (h : ∀ count x y w, a.Fits count x → b.Fits count y →
      evaluate [x, y] = some w → result.Fits count w) :
    Computes ⟨name, [a, b], result, some evaluate⟩ := by
  rintro _ ⟨⟩ count vs w (_ | ⟨hx, _ | ⟨hy, _ | _⟩⟩) hw
  exact h count _ _ w hx hy hw

theorem computes_three (h : ∀ count x y z w, a.Fits count x → b.Fits count y → c.Fits count z →
      evaluate [x, y, z] = some w → result.Fits count w) :
    Computes ⟨name, [a, b, c], result, some evaluate⟩ := by
  rintro _ ⟨⟩ count vs w (_ | ⟨hx, _ | ⟨hy, _ | ⟨hz, _ | _⟩⟩⟩) hw
  exact h count _ _ _ w hx hy hz hw

theorem computes_none {parameters : List Slot} :
    Computes ⟨name, parameters, result, none⟩ := by
  rintro _ ⟨⟩

end

section

open Slot

variable {name : String} {f : Float32 → Float32} {g : Float32 → Float32 → Float32}
  {k : Float32 → Float32 → Float32 → Float32} {element : Scalar}

@[simp] theorem computes_float1 : Computes ⟨name, [generic], generic, some (float1 f)⟩ :=
  computes_one fun _ _ _ hx h => hx.mapFloat h

@[simp] theorem computes_float2 :
    Computes ⟨name, [generic, generic], generic, some (float2 g)⟩ :=
  computes_two fun _ _ _ _ hx hy h => Value.Fits.zipFloat hx hy h

@[simp] theorem computes_float2_scalar :
    Computes ⟨name, [generic, float], generic, some (float2 g)⟩ :=
  computes_two fun _ _ _ _ hx hy h => Value.Fits.zipFloat_scalar hx hy h

@[simp] theorem computes_scalar_float2 :
    Computes ⟨name, [float, generic], generic, some (float2 g)⟩ :=
  computes_two fun _ _ _ _ hx hy h => Value.Fits.scalar_zipFloat hx hy h

@[simp] theorem computes_matrices :
    Computes ⟨name, [matrix, matrix], matrix, some (float2 g)⟩ :=
  computes_two fun _ _ _ _ hx hy h => Value.Fits.zipFloat hx hy h

@[simp] theorem computes_float3 :
    Computes ⟨name, [generic, generic, generic], generic, some (float3 k)⟩ :=
  computes_three fun _ _ _ _ _ hx hy hz h => Value.Fits.zipFloat3 hx hy hz h

@[simp] theorem computes_float3_scalar :
    Computes ⟨name, [generic, generic, float], generic, some (float3 k)⟩ :=
  computes_three fun _ _ _ _ _ hx hy hz h => Value.Fits.zipFloat3_scalar hx hy hz h

@[simp] theorem computes_float3_scalars :
    Computes ⟨name, [generic, float, float], generic, some (float3 k)⟩ :=
  computes_three fun _ _ _ _ _ hx hy hz h => Value.Fits.zipFloat3_scalars hx hy hz h

@[simp] theorem computes_scalars_float3 :
    Computes ⟨name, [float, float, generic], generic, some (float3 k)⟩ :=
  computes_three fun _ _ _ _ _ hx hy hz h => Value.Fits.scalars_zipFloat3 hx hy hz h

/-! ### Vectors as a whole -/

theorem computes_vector1 {f : List Float32 → List Float32}
    (h : ∀ xs, (f xs).length = xs.length) :
    Computes ⟨name, [generic], generic, some (vector1 fun x => .ofFloats (f x))⟩ := by
  refine computes_one fun count x w hx hw => ?_
  obtain rfl := Option.some.inj hw
  have := ofFloats_fits (f x.floats)
  rwa [h, length_floats hx] at this

theorem computes_float_of_vector {f : List Float32 → Float32} :
    Computes ⟨name, [generic], float, some (vector1 fun x => .float (f x))⟩ := by
  refine computes_one fun count x w hx hw => ?_
  obtain rfl := Option.some.inj hw
  trivial

theorem computes_float_of_vectors {f : List Float32 → List Float32 → Option Float32} :
    Computes ⟨name, [generic, generic], float, some (vector2 fun x y => (f x y).map .float)⟩ := by
  refine computes_two fun count x y w hx hy hw => ?_
  obtain ⟨r, -, rfl⟩ := Option.map_eq_some_iff.1 hw
  trivial

theorem computes_cross : Computes ⟨name, [vec3, vec3], vec3,
    some (vector2 fun x y => (Geometry.cross x y).map .ofFloats)⟩ := by
  refine computes_two fun count x y w hx hy hw => ?_
  obtain ⟨r, hr, rfl⟩ := Option.map_eq_some_iff.1 hw
  have := ofFloats_fits r
  rwa [Geometry.length_cross hr] at this

theorem computes_reflect : Computes ⟨name, [generic, generic], generic,
    some (vector2 fun i n => (Geometry.reflect i n).map .ofFloats)⟩ := by
  refine computes_two fun count x y w hx hy hw => ?_
  obtain ⟨r, hr, rfl⟩ := Option.map_eq_some_iff.1 hw
  have := ofFloats_fits r
  rwa [Geometry.length_reflect hr, length_floats hx, length_floats hy, Nat.min_self] at this

theorem computes_faceForward :
    Computes ⟨name, [generic, generic, generic], generic, some faceForward⟩ := by
  refine computes_three fun count x y z w hx _ _ hw => ?_
  obtain ⟨r, hr, rfl⟩ := Option.map_eq_some_iff.1 hw
  have := ofFloats_fits r
  rwa [Geometry.length_faceForward hr, length_floats hx] at this

theorem computes_refraction :
    Computes ⟨name, [generic, generic, float], generic, some refraction⟩ := by
  refine computes_three fun count x y z w hx hy _ hw => ?_
  obtain ⟨ratio, -, hw⟩ := Option.bind_eq_some_iff.1 hw
  obtain ⟨r, hr, rfl⟩ := Option.map_eq_some_iff.1 hw
  have hlength : x.floats.length = y.floats.length := by
    rw [length_floats hx, length_floats hy]
  have := ofFloats_fits r
  rwa [Geometry.length_refract hlength hr, length_floats hx] at this

/-! ### Comparisons -/

theorem computes_relation {test : Ordering → Bool} :
    Computes ⟨name, [vector element, vector element], vector .bool, some (relation test)⟩ :=
  computes_two fun _ _ _ _ hx hy h =>
    Value.Fits.zip (ofScalars_holds element) (ofScalars_holds element)
      (fun _ _ _ _ _ h => relate_holds h) hx hy h

theorem computes_sameness {expected : Bool} :
    Computes ⟨name, [vector element, vector element], vector .bool, some (sameness expected)⟩ := by
  refine computes_two fun count x y w hx hy h => ?_
  refine Value.Fits.zip (ofScalars_holds element) (ofScalars_holds element) ?_ hx hy h
  rintro _ _ _ _ _ ⟨⟩
  trivial

theorem computes_join {f : List Bool → Bool} :
    Computes ⟨name, [vector .bool], bool, some (join f)⟩ := by
  refine computes_one fun count x w _ hw => ?_
  obtain ⟨bs, -, rfl⟩ := Option.map_eq_some_iff.1 hw
  trivial

theorem computes_negation :
    Computes ⟨name, [vector .bool], vector .bool, some negation⟩ :=
  computes_one fun _ _ _ hx h =>
    Value.Fits.map (ofScalars_holds .bool) (fun _ _ _ h => not_holds h) hx h

end

end Template

/-! ## The functions -/

theorem geometricTemplates_compute : ∀ t ∈ geometricTemplates, t.Computes := by
  simp only [geometricTemplates, List.forall_mem_cons]
  refine ⟨Template.computes_float_of_vector, ?_, Template.computes_float_of_vectors,
    Template.computes_cross, Template.computes_vector1 Geometry.length_normalize,
    Template.computes_faceForward, Template.computes_reflect, Template.computes_refraction,
    Template.computes_matrices, by simp⟩
  exact Template.computes_float_of_vectors
    (f := fun x y => some (Geometry.length (Geometry.subtract x y)))

theorem relationalTemplates_compute : ∀ t ∈ relationalTemplates, t.Computes := by
  simp only [relationalTemplates, List.forall_mem_cons]
  refine ⟨?_, ?_, ?_, ?_, ?_, ?_, ?_, ?_, ?_, ?_, ?_, ?_, ?_, ?_, Template.computes_join,
    Template.computes_join, Template.computes_negation, by simp⟩
  iterate 8 exact Template.computes_relation
  iterate 6 exact Template.computes_sameness

theorem textureTemplates_compute : ∀ t ∈ textureTemplates, t.Computes := by
  simp only [textureTemplates, List.forall_mem_cons, Template.computes_none, List.not_mem_nil,
    false_implies, implies_true, and_self]

theorem templates_compute : ∀ t ∈ templates, t.Computes := by
  simp only [templates, List.forall_mem_append]
  refine ⟨⟨⟨⟨⟨?_, ?_⟩, ?_⟩, geometricTemplates_compute⟩, relationalTemplates_compute⟩,
    textureTemplates_compute⟩
  · simp [angleTemplates]
  · simp [exponentialTemplates]
  · simp [commonTemplates]

theorem templates_names : ∀ t ∈ templates, '(' ∉ t.name.toList := by
  decide

theorem functions_faithful : ∀ f ∈ functions, f.Faithful := by
  intro f hf
  obtain ⟨t, ht, hf⟩ := List.mem_flatMap.1 hf
  exact (templates_compute t ht).faithful (templates_names t ht) f hf

/-! ## The operators -/

section

variable {name : String} {a b result : Primitive} {evaluate : Evaluator}

theorem computes_unary (h : ∀ x w, a.Holds x → evaluate [x] = some w → result.Holds w) :
    evaluate.Computes [a] result := by
  rintro vs w (_ | ⟨hx, _ | _⟩) hw
  exact h _ w hx hw

theorem computes_binary
    (h : ∀ x y w, a.Holds x → b.Holds y → evaluate [x, y] = some w → result.Holds w) :
    evaluate.Computes [a, b] result := by
  rintro vs w (_ | ⟨hx, _ | ⟨hy, _ | _⟩⟩) hw
  exact h _ _ w hx hy hw

end

/-- The values of a numeric type are composites of numbers. -/
theorem numericTypes_fits : ∀ p ∈ numericTypes, ∃ element counts,
    p.Holds = Value.Fits (Scalar.Holds element) counts ∧
      (p.primitiveClass = .matrix → ∃ size : Dimension, p = .matrix size) := by
  intro p hp
  cases p with
  | void => exact absurd hp (by decide)
  | scalar element => exact ⟨element, [], rfl, nofun⟩
  | vector element size => exact ⟨element, [size.toNat], rfl, nofun⟩
  | matrix size => exact ⟨.float, [size.toNat, size.toNat], rfl, fun _ => ⟨size, rfl⟩⟩
  | sampler2D => exact absurd hp (by decide)
  | samplerCube => exact absurd hp (by decide)

theorem product_computes (size : Dimension) :
    Evaluator.Computes product [.matrix size, .matrix size] (.matrix size) :=
  computes_binary fun _ _ _ hx hy h => linearProduct_matrices hx hy h

theorem product_computes_column (size : Dimension) :
    Evaluator.Computes product [.matrix size, .vector .float size] (.vector .float size) := by
  refine computes_binary fun x y w hx hy h => ?_
  have := linearProduct_column size.toNat_pos hx hy h
  rwa [vectorCounts_toNat] at this

theorem product_computes_row (size : Dimension) :
    Evaluator.Computes product [.vector .float size, .matrix size] (.vector .float size) := by
  refine computes_binary fun x y w hx hy h => ?_
  have := linearProduct_row size.toNat_pos hx hy h
  rwa [vectorCounts_toNat] at this

theorem alike_computes (operator : Arithmetic) {p : Primitive} (hp : p ∈ numericTypes) :
    Evaluator.Computes
      (if operator = .multiply ∧ p.primitiveClass = .matrix then product else arithmetic operator)
      [p, p] p := by
  obtain ⟨element, counts, hholds, hmatrix⟩ := numericTypes_fits p hp
  split
  · rename_i hproduct
    obtain ⟨size, rfl⟩ := hmatrix hproduct.2
    exact product_computes size
  · refine computes_binary fun x y w hx hy h => ?_
    rw [hholds] at hx hy ⊢
    exact hx.arithmetic hy h

/-- A scalar meets every component of a composite of such scalars. -/
theorem scaling_faithful {name : String} (hname : '(' ∉ name.toList) (operator : Arithmetic)
    {element : Scalar} {p : Primitive} (counts : List Nat)
    (hp : p.Holds = Value.Fits element.Holds counts) :
    ∀ f ∈ [Function.builtin name [.scalar element, p] p (some (arithmetic operator)),
      Function.builtin name [p, .scalar element] p (some (arithmetic operator))], f.Faithful := by
  have hleft : Evaluator.Computes (arithmetic operator) [.scalar element, p] p := by
    refine computes_binary fun x y w hx hy h => ?_
    rw [hp] at hy ⊢
    exact Fits.scalar_arithmetic hx hy h
  have hright : Evaluator.Computes (arithmetic operator) [p, .scalar element] p := by
    refine computes_binary fun x y w hx hy h => ?_
    rw [hp] at hx ⊢
    exact Fits.arithmetic_scalar hx hy h
  simpa using And.intro (Function.builtin_faithful hname (by simpa using hleft))
    (Function.builtin_faithful hname (by simpa using hright))

theorem arithmeticOverloads_faithful {name : String} (hname : '(' ∉ name.toList)
    (operator : Arithmetic) : ∀ f ∈ arithmeticOverloads name operator, f.Faithful := by
  simp only [arithmeticOverloads, List.forall_mem_append, List.forall_mem_map,
    List.forall_mem_flatMap]
  refine ⟨⟨⟨?_, ?_⟩, ?_⟩, ?_⟩
  · intro p hp
    exact Function.builtin_faithful hname (by simpa using alike_computes operator hp)
  · exact fun size _ => scaling_faithful hname operator [size.toNat] rfl
  · exact fun size _ => scaling_faithful hname operator [size.toNat] rfl
  · exact fun size _ => scaling_faithful hname operator [size.toNat, size.toNat] rfl

theorem vectorProducts_faithful : ∀ f ∈ vectorProducts, f.Faithful := by
  intro f hf
  obtain ⟨size, -, hf⟩ := List.mem_flatMap.1 hf
  rcases List.mem_pair.1 hf with rfl | rfl
  · exact Function.builtin_faithful (by decide) (by simpa using product_computes_column size)
  · exact Function.builtin_faithful (by decide) (by simpa using product_computes_row size)

theorem comparisonOverloads_faithful {name : String} (hname : '(' ∉ name.toList)
    (test : Ordering → Bool) : ∀ f ∈ comparisonOverloads name test, f.Faithful := by
  simp only [comparisonOverloads, List.forall_mem_map]
  intro p _
  have : Evaluator.Computes (comparison test) [p, p] .bool :=
    computes_binary fun _ _ _ _ _ h => relate_holds h
  exact Function.builtin_faithful hname (by simpa using this)

theorem equalityOverloads_faithful {name : String} (hname : '(' ∉ name.toList)
    (expected : Bool) : ∀ f ∈ equalityOverloads name expected, f.Faithful := by
  simp only [equalityOverloads, List.forall_mem_map]
  intro p _
  have : Evaluator.Computes (equality expected) [p, p] .bool := by
    refine computes_binary fun x y w _ _ h => ?_
    obtain rfl := Option.some.inj h
    trivial
  exact Function.builtin_faithful hname (by simpa using this)

theorem logicOverload_faithful {name : String} (hname : '(' ∉ name.toList)
    (f : Bool → Bool → Bool) : (logicOverload name f).Faithful := by
  have : Evaluator.Computes (logic f) [.bool, .bool] .bool :=
    computes_binary fun _ _ _ _ _ h => logical_holds h
  exact Function.builtin_faithful hname (by simpa using this)

theorem unaryOverloads_faithful {name : String} (hname : '(' ∉ name.toList)
    {evaluate : Option Evaluator}
    (h : ∀ e ∈ evaluate, ∀ p ∈ numericTypes, Evaluator.Computes e [p] p) :
    ∀ f ∈ unaryOverloads name evaluate, f.Faithful := by
  simp only [unaryOverloads, List.forall_mem_map]
  exact fun p hp => Function.builtin_faithful hname fun e he => h e he p hp

theorem opposite_computes : ∀ p ∈ numericTypes, Evaluator.Computes opposite [p] p := by
  intro p hp
  obtain ⟨element, counts, hholds, -⟩ := numericTypes_fits p hp
  refine computes_unary fun x w hx h => ?_
  rw [hholds] at hx ⊢
  exact hx.negate h

theorem identity_computes (p : Primitive) : Evaluator.Computes identity [p] p := by
  refine computes_unary fun x w hx h => ?_
  obtain rfl := Option.some.inj h
  exact hx

theorem complement_computes : Evaluator.Computes complement [.bool] .bool :=
  computes_unary fun _ _ _ h => not_holds h

theorem operators_faithful : ∀ f ∈ operators, f.Faithful := by
  simp only [operators, List.forall_mem_append]
  refine ⟨⟨⟨⟨⟨⟨⟨⟨⟨⟨⟨⟨⟨⟨⟨⟨?_, ?_⟩, ?_⟩, ?_⟩, vectorProducts_faithful⟩, ?_⟩, ?_⟩, ?_⟩, ?_⟩, ?_⟩, ?_⟩,
    ?_⟩, ?_⟩, ?_⟩, ?_⟩, ?_⟩, ?_⟩
  iterate 4 exact arithmeticOverloads_faithful (by decide) _
  iterate 4 exact comparisonOverloads_faithful (by decide) _
  iterate 2 exact equalityOverloads_faithful (by decide) _
  · simp only [List.forall_mem_cons, List.not_mem_nil, false_implies, implies_true, and_true]
    exact ⟨logicOverload_faithful (by decide) and, logicOverload_faithful (by decide) or,
      logicOverload_faithful (by decide) xor⟩
  · exact unaryOverloads_faithful (by decide) (by simpa using opposite_computes)
  · exact unaryOverloads_faithful (by decide) (by simpa using fun p _ => identity_computes p)
  iterate 2 exact unaryOverloads_faithful (by decide) (by simp)
  · simp only [List.mem_singleton, forall_eq]
    exact Function.builtin_faithful (by decide) (by simpa using complement_computes)

/-! ## Finding overloads -/

theorem mem_of_lookup_signature {fs : List Function} {s : String} {f : Function}
    (h : (fs.map fun f => (f.signature, f)).lookup s = some f) : f ∈ fs ∧ f.signature = s := by
  obtain ⟨before, after, hsplit, -⟩ := List.lookup_eq_some_iff.1 h
  have hmem : (s, f) ∈ fs.map fun f => (f.signature, f) := by
    rw [hsplit]
    simp
  obtain ⟨g, hg, heq⟩ := List.mem_map.1 hmem
  cases heq
  exact ⟨hg, rfl⟩

end Builtin

/-- The signature of a function on built-in types is that of no other types. -/
theorem Function.Faithful.types_eq {f : Function} (hf : f.Faithful) {name : String}
    {types : List Ty} (hname : '(' ∉ name.toList) (htypes : ∀ t ∈ types, t.Named)
    (h : f.signature = Essl.signature name (types.map Ty.text)) :
    f.name = name ∧ f.parameters.map Parameter.type = types := by
  obtain ⟨hplain, parameters, result, hparameters, -, -⟩ := hf
  have htexts : f.parameters.map (·.type.text) = (f.parameters.map Parameter.type).map Ty.text := by
    simp [Function.comp_def]
  have hbuiltin : ∀ t ∈ f.parameters.map Parameter.type, t.struct? = none := by
    rw [hparameters]
    intro t ht
    obtain ⟨p, -, rfl⟩ := List.mem_map.1 ht
    rfl
  rw [Function.signature, htexts] at h
  obtain ⟨heq, halike⟩ := alike_of_signature hname hplain (fun t ht => (htypes t ht).distinctive)
    (fun t ht s hs => by simp [hbuiltin t ht] at hs) h.symm
  refine ⟨heq.symm, (Ty.eq_of_forall₂_alike halike fun _ _ b hb _ _ t ht => ?_).symm⟩
  simp [hbuiltin b hb] at ht

namespace Builtin

variable {name : String} {types : List Ty} {f : Function}

theorem operator?_spec (hname : '(' ∉ name.toList) (htypes : ∀ t ∈ types, t.Named)
    (h : operator? name types = some f) :
    f ∈ operators ∧ f.name = name ∧ f.parameters.map Parameter.type = types := by
  obtain ⟨hf, hsignature⟩ := mem_of_lookup_signature h
  exact ⟨hf, (operators_faithful f hf).types_eq hname htypes hsignature⟩

theorem function?_spec (hname : '(' ∉ name.toList) (htypes : ∀ t ∈ types, t.Named)
    (h : function? name types = some f) :
    f ∈ functions ∧ f.name = name ∧ f.parameters.map Parameter.type = types := by
  obtain ⟨hf, hsignature⟩ := mem_of_lookup_signature h
  exact ⟨hf, (functions_faithful f hf).types_eq hname htypes hsignature⟩

end Builtin

end Essl
