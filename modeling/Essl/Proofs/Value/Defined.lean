import Essl.Proofs.Value.Construct
import Mathlib.Order.Compare

/-!
# Where operations on values are defined

A componentwise function gives a value where it does for all scalars that meet. Of the functions on
scalars only two can fail: integers may have no quotient, and what is not a number does not compare.
Products, geometric functions, parts and constructors have a value for all operands of the right
shape.
-/

namespace Essl

/-! ## The order of floats -/

section

variable {a b : Float.Model.UnpackedFloat}

theorem compare_swap (a b : Float.Model.UnpackedFloat) :
    a.compare b = (b.compare a).map Ordering.swap := by
  have hswap (m n : Nat) (e f : Int) :
      ((compare e f).then (compare m n)).swap = (compare f e).then (compare n m) := by
    rw [Ordering.swap_then, ← Std.OrientedCmp.eq_swap, ← Std.OrientedCmp.eq_swap]
  cases a with
  | notANumber => cases b <;> rfl
  | infinity s =>
      cases b with
      | infinity t => cases s <;> cases t <;> rfl
      | _ => cases s <;> rfl
  | zero s =>
      cases b with
      | infinity t => cases t <;> rfl
      | finite t => cases t <;> rfl
      | _ => rfl
  | finite s m e =>
      cases b with
      | infinity t => cases s <;> cases t <;> rfl
      | finite t n f =>
          cases s with
          | positive =>
              cases t with
              | positive => exact congrArg some (hswap n m f e).symm
              | negative => rfl
          | negative =>
              cases t with
              | positive => rfl
              | negative => exact congrArg (fun order => some order.swap) (hswap n m f e).symm
      | _ => cases s <;> rfl

theorem exists_compare (ha : a.isNaN = false) (hb : b.isNaN = false) :
    ∃ order, a.compare b = some order := by
  cases a with
  | notANumber => cases ha
  | infinity s =>
      cases b with
      | notANumber => cases hb
      | infinity t => exact ⟨_, rfl⟩
      | _ => cases s <;> exact ⟨_, rfl⟩
  | zero s =>
      cases b with
      | notANumber => cases hb
      | zero t => exact ⟨_, rfl⟩
      | infinity t => cases t <;> exact ⟨_, rfl⟩
      | finite t => cases t <;> exact ⟨_, rfl⟩
  | finite s =>
      cases b with
      | notANumber => cases hb
      | zero t => cases s <;> exact ⟨_, rfl⟩
      | infinity t => cases s <;> cases t <;> exact ⟨_, rfl⟩
      | finite t => cases s <;> cases t <;> exact ⟨_, rfl⟩

end

/-- Numbers are ordered, unless one of them is not a number. -/
theorem float_trichotomy {x y : Float32} (hx : x.isNaN = false) (hy : y.isNaN = false) :
    x < y ∨ y < x ∨ (x == y) = true := by
  have hlt {x y : Float32} (h : x.toModel.unpack.compare y.toModel.unpack = some .lt) :
      x < y := by
    have hmodel : x.toModel < y.toModel := by
      change (x.toModel.unpack.compare y.toModel.unpack == some Ordering.lt) = true
      rw [h]
      rfl
    exact decide_eq_true hmodel
  obtain ⟨order, horder⟩ := exists_compare (a := x.toModel.unpack) (b := y.toModel.unpack) hx hy
  cases order with
  | lt => exact .inl (hlt horder)
  | gt => exact .inr (.inl (hlt (by rw [compare_swap, horder]; rfl)))
  | eq =>
      refine .inr (.inr ?_)
      change (x.toModel.unpack.compare y.toModel.unpack == some Ordering.eq) = true
      rw [horder]
      rfl

/-! ## Operands without a result -/

namespace Value

/-- The value is a float that is not a number. -/
def isNaN : Value → Bool
  | float x => x.isNaN
  | _ => false

/-- Something that is not a number is inside. -/
def HasNaN (v : Value) : Prop := ∃ w ∈ v.scalars, w.isNaN = true

instance : DecidablePred HasNaN :=
  fun v => inferInstanceAs (Decidable (∃ w ∈ v.scalars, w.isNaN = true))

/-- Every scalar of an operand with the scalar that it meets in the other one, of operands that are
scalars or vectors. -/
def lanes : Value → Value → List (Value × Value)
  | composite as, composite bs => as.zip bs
  | composite as, b => as.map (·, b)
  | a, composite bs => bs.map (a, ·)
  | a, b => [(a, b)]

theorem lanes_of_scalars {a b : Value} (ha : a.IsScalar) (hb : b.IsScalar) :
    a.lanes b = [(a, b)] := by
  cases a with
  | composite as => cases ha
  | _ =>
      cases b with
      | composite bs => cases hb
      | _ => rfl

theorem lanes_of_scalar_left {a : Value} (bs : List Value) (ha : a.IsScalar) :
    a.lanes (composite bs) = bs.map (a, ·) := by
  cases a with
  | composite as => cases ha
  | _ => rfl

theorem lanes_of_scalar_right {b : Value} (as : List Value) (hb : b.IsScalar) :
    (composite as).lanes b = as.map (·, b) := by
  cases b with
  | composite bs => cases hb
  | _ => rfl

/-- Integers without a quotient: it does not exist, or it does not fit. -/
def isIndivisible : Value × Value → Bool
  | (int a, int b) => decide (b = 0 ∨ (a = Int32.minValue ∧ b = -1))
  | _ => false

end Value

/-! ## Componentwise functions -/

namespace Value

variable {P Q R : Value → Prop} {a b c v : Value} {as bs cs vs : List Value} {counts : List Nat}

theorem mapAll_ne_none {f : Value → Option Value} (h : ∀ v ∈ vs, v.map f ≠ none) :
    mapAll f vs ≠ none := by
  induction vs with
  | nil => simp [mapAll]
  | cons v vs ih =>
      obtain ⟨w, hw⟩ := Option.ne_none_iff_exists'.1 (h v List.mem_cons_self)
      obtain ⟨ws, hws⟩ := Option.ne_none_iff_exists'.1
        (ih fun u hu => h u (List.mem_cons_of_mem v hu))
      simp [mapAll, hw, hws]

theorem zipAll_ne_none {f : Value → Value → Option Value}
    (h : List.Forall₂ (fun a b => a.zip f b ≠ none) as bs) : zipAll f as bs ≠ none := by
  induction h with
  | nil => simp [zipAll]
  | cons h _ ih =>
      obtain ⟨w, hw⟩ := Option.ne_none_iff_exists'.1 h
      obtain ⟨ws, hws⟩ := Option.ne_none_iff_exists'.1 ih
      simp [zipAll, hw, hws]

theorem zipAll3_ne_none {f : Value → Value → Value → Option Value} (hb : as.length = bs.length)
    (hc : as.length = cs.length)
    (h : ∀ a ∈ as, ∀ b ∈ bs, ∀ c ∈ cs, a.zip3 f b c ≠ none) : zipAll3 f as bs cs ≠ none := by
  induction as generalizing bs cs with
  | nil =>
      obtain rfl := List.length_eq_zero_iff.1 hb.symm
      obtain rfl := List.length_eq_zero_iff.1 hc.symm
      simp [zipAll3]
  | cons a as ih =>
      obtain ⟨b, bs, rfl⟩ := List.exists_cons_of_length_eq_add_one hb.symm
      obtain ⟨c, cs, rfl⟩ := List.exists_cons_of_length_eq_add_one hc.symm
      simp only [List.forall_mem_cons] at h
      obtain ⟨w, hw⟩ := Option.ne_none_iff_exists'.1 h.1.1.1
      obtain ⟨ws, hws⟩ := Option.ne_none_iff_exists'.1
        (ih (Nat.succ.inj hb) (Nat.succ.inj hc) fun a ha b hb c hc => ((h.2 a ha).2 b hb).2 c hc)
      simp [zipAll3, hw, hws]

theorem Fits.mono (hv : v.Fits P counts) (h : ∀ w, P w → Q w) : v.Fits Q counts := by
  induction counts generalizing v with
  | nil => exact h v hv
  | cons count counts ih =>
      obtain ⟨vs, rfl, hlength, hvs⟩ := composes_iff.1 hv
      exact ⟨hlength, fun w hw => ih (hvs w hw)⟩

theorem Fits.map_ne_none {f : Value → Option Value} (hP : OfScalars P)
    (hf : ∀ x, P x → f x ≠ none) (hv : v.Fits P counts) : v.map f ≠ none := by
  induction counts generalizing v with
  | nil =>
      rw [map_of_isScalar f (hP v hv)]
      exact hf v hv
  | cons count counts ih =>
      obtain ⟨vs, rfl, -, hvs⟩ := composes_iff.1 hv
      have := mapAll_ne_none fun v hv => ih (hvs v hv)
      simpa [Value.map] using this

theorem Fits.zip_ne_none {f : Value → Value → Option Value} (hP : OfScalars P) (hQ : OfScalars Q)
    (hf : ∀ x y, P x → Q y → f x y ≠ none) (ha : a.Fits P counts) (hb : b.Fits Q counts) :
    a.zip f b ≠ none := by
  induction counts generalizing a b with
  | nil =>
      rw [zip_scalar_left f b (hP a ha), map_of_isScalar _ (hQ b hb)]
      exact hf a b ha hb
  | cons count counts ih =>
      obtain ⟨as, rfl, hlength, has⟩ := composes_iff.1 ha
      obtain ⟨bs, rfl, hlength', hbs⟩ := composes_iff.1 hb
      have := zipAll_ne_none (f := f) (List.forall₂_iff_zip.2 ⟨hlength.trans hlength'.symm,
        fun h => ih (has _ (List.of_mem_zip h).1) (hbs _ (List.of_mem_zip h).2)⟩)
      simpa [Value.zip] using this

theorem Fits.zip3_ne_none {f : Value → Value → Value → Option Value} (hP : OfScalars P)
    (hQ : OfScalars Q) (hR : OfScalars R) (hf : ∀ x y z, P x → Q y → R z → f x y z ≠ none)
    (ha : a.Fits P counts) (hb : b.Fits Q counts) (hc : c.Fits R counts) :
    a.zip3 f b c ≠ none := by
  induction counts generalizing a b c with
  | nil =>
      rw [zip3_scalar_left f b c (hP a ha), zip_scalar_left _ c (hQ b hb),
        map_of_isScalar _ (hR c hc)]
      exact hf a b c ha hb hc
  | cons count counts ih =>
      obtain ⟨as, rfl, hlength, has⟩ := composes_iff.1 ha
      obtain ⟨bs, rfl, hlength', hbs⟩ := composes_iff.1 hb
      obtain ⟨cs, rfl, hlength'', hcs⟩ := composes_iff.1 hc
      have := zipAll3_ne_none (f := f) (hlength.trans hlength'.symm)
        (hlength.trans hlength''.symm) fun a ha b hb c hc => ih (has a ha) (hbs b hb) (hcs c hc)
      simpa [Value.zip3] using this

/-! ### Scalars and composites -/

/-- A value that is of a shape, or a scalar, which has a part in every component. -/
def Meets (P : Value → Prop) (counts : List Nat) (v : Value) : Prop := v.Fits P counts ∨ P v

theorem zip3_scalar_middle (f : Value → Value → Value → Option Value) {b : Value} (a c : Value)
    (hb : b.IsScalar) : a.zip3 f b c = a.zip (f · b ·) c := by
  cases b with
  | composite bs => cases hb
  | _ => cases a <;> cases c <;> rfl

theorem Meets.zip_ne_none {f : Value → Value → Option Value} (hP : OfScalars P)
    (hQ : OfScalars Q) (hf : ∀ x y, P x → Q y → f x y ≠ none) (ha : a.Meets P counts)
    (hb : b.Meets Q counts) : a.zip f b ≠ none := by
  rcases ha with ha | ha
  · rcases hb with hb | hb
    · exact Fits.zip_ne_none hP hQ hf ha hb
    · rw [zip_scalar_right f a (hQ b hb)]
      exact Fits.map_ne_none hP (fun x hx => hf x b hx hb) ha
  · rw [zip_scalar_left f b (hP a ha)]
    rcases hb with hb | hb
    · exact Fits.map_ne_none hQ (fun y hy => hf a y ha hy) hb
    · rw [map_of_isScalar _ (hQ b hb)]
      exact hf a b ha hb

theorem Meets.zip3_ne_none {f : Value → Value → Value → Option Value} (hP : OfScalars P)
    (hQ : OfScalars Q) (hR : OfScalars R) (hf : ∀ x y z, P x → Q y → R z → f x y z ≠ none)
    (ha : a.Meets P counts) (hb : b.Meets Q counts) (hc : c.Meets R counts) :
    a.zip3 f b c ≠ none := by
  rcases hc with hc | hc
  · rcases hb with hb | hb
    · rcases ha with ha | ha
      · exact Fits.zip3_ne_none hP hQ hR hf ha hb hc
      · rw [zip3_scalar_left f b c (hP a ha)]
        exact Fits.zip_ne_none hQ hR (fun y z hy hz => hf a y z ha hy hz) hb hc
    · rw [zip3_scalar_middle f a c (hQ b hb)]
      exact ha.zip_ne_none hP hR (fun x z hx hz => hf x b z hx hb hz) (.inl hc)
  · rw [zip3_scalar_right f a b (hR c hc)]
    exact ha.zip_ne_none hP hQ (fun x y hx hy => hf x y c hx hy hc) hb

/-! ### Vectors -/

theorem Fits.scalar_or_vector {count : Nat} (h : v.Fits P (vectorCounts count)) :
    (count = 1 ∧ P v) ∨ (count ≠ 1 ∧ v.Composes P count) := by
  unfold vectorCounts at h
  split at h
  · rename_i hcount
    exact .inl ⟨hcount, h⟩
  · rename_i hcount
    exact .inr ⟨hcount, h⟩

/-- Scalars and vectors have a result if all scalars that meet have. -/
theorem Fits.zip_ne_none_of_lanes {f : Value → Value → Option Value} {m n : Nat}
    (hP : OfScalars P) (hQ : OfScalars Q) (ha : a.Fits P (vectorCounts m))
    (hb : b.Fits Q (vectorCounts n)) (hlength : m = 1 ∨ n = 1 ∨ m = n)
    (h : ∀ x y, (x, y) ∈ a.lanes b → P x → Q y → f x y ≠ none) : a.zip f b ≠ none := by
  rcases ha.scalar_or_vector with ⟨-, ha⟩ | ⟨hm, ha⟩
  · rw [zip_scalar_left f b (hP a ha)]
    rcases hb.scalar_or_vector with ⟨-, hb⟩ | ⟨-, hb⟩
    · rw [lanes_of_scalars (hP a ha) (hQ b hb)] at h
      rw [map_of_isScalar _ (hQ b hb)]
      exact h a b List.mem_cons_self ha hb
    · obtain ⟨bs, rfl, -, hbs⟩ := composes_iff.1 hb
      rw [lanes_of_scalar_left bs (hP a ha)] at h
      have hall : mapAll (f a) bs ≠ none := by
        apply mapAll_ne_none
        intro y hy
        rw [map_of_isScalar _ (hQ y (hbs y hy))]
        exact h a y (List.mem_map_of_mem hy) ha (hbs y hy)
      simpa [Value.map] using hall
  · obtain ⟨as, rfl, hlengthA, has⟩ := composes_iff.1 ha
    rcases hb.scalar_or_vector with ⟨-, hb⟩ | ⟨hn, hb⟩
    · rw [zip_scalar_right f _ (hQ b hb)]
      rw [lanes_of_scalar_right as (hQ b hb)] at h
      have hall : mapAll (f · b) as ≠ none := by
        apply mapAll_ne_none
        intro x hx
        rw [map_of_isScalar _ (hP x (has x hx))]
        exact h x b (List.mem_map_of_mem hx) (has x hx) hb
      simpa [Value.map] using hall
    · obtain ⟨bs, rfl, hlengthB, hbs⟩ := composes_iff.1 hb
      have hpairs : List.Forall₂ (fun x y => x.zip f y ≠ none) as bs := by
        refine List.forall₂_iff_zip.2 ⟨by omega, fun {x y} hmem => ?_⟩
        have hx := has x (List.of_mem_zip hmem).1
        have hy := hbs y (List.of_mem_zip hmem).2
        rw [zip_scalar_left f y (hP x hx), map_of_isScalar _ (hQ y hy)]
        exact h x y hmem hx hy
      simpa [Value.zip] using zipAll_ne_none hpairs

/-! ## Functions of floats -/

section

variable {f : Float32 → Float32} {g : Float32 → Float32 → Float32}
  {k : Float32 → Float32 → Float32 → Float32}

theorem ofScalars_isScalar : OfScalars IsScalar := fun _ h => h

theorem exists_toFloat? (h : v.IsScalar) : ∃ x, v.toFloat? = some x :=
  Option.isSome_iff_exists.1 (toFloat?_isSome h)

theorem mapFloat_ne_none (ha : a.Fits IsScalar counts) : a.mapFloat f ≠ none := by
  refine Fits.map_ne_none ofScalars_isScalar (fun x hx => ?_) ha
  obtain ⟨r, hr⟩ := exists_toFloat? hx
  simp [hr]

theorem zipFloat_ne_none (ha : a.Meets IsScalar counts) (hb : b.Meets IsScalar counts) :
    a.zipFloat g b ≠ none := by
  refine ha.zip_ne_none ofScalars_isScalar ofScalars_isScalar (fun x y hx hy => ?_) hb
  obtain ⟨r, hr⟩ := exists_toFloat? hx
  obtain ⟨s, hs⟩ := exists_toFloat? hy
  simp [hr, hs]

theorem zipFloat3_ne_none (ha : a.Meets IsScalar counts) (hb : b.Meets IsScalar counts)
    (hc : c.Meets IsScalar counts) : a.zipFloat3 k b c ≠ none := by
  refine ha.zip3_ne_none ofScalars_isScalar ofScalars_isScalar ofScalars_isScalar
    (fun x y z hx hy hz => ?_) hb hc
  obtain ⟨r, hr⟩ := exists_toFloat? hx
  obtain ⟨s, hs⟩ := exists_toFloat? hy
  obtain ⟨t, ht⟩ := exists_toFloat? hz
  simp [hr, hs, ht]

end

/-! ## Operators on scalars -/

theorem exists_float (h : Scalar.float.Holds v) : ∃ x, v = float x := by
  cases v <;> first | exact h.elim | exact ⟨_, rfl⟩

theorem exists_int (h : Scalar.int.Holds v) : ∃ i, v = int i := by
  cases v <;> first | exact h.elim | exact ⟨_, rfl⟩

theorem exists_bool (h : Scalar.bool.Holds v) : ∃ p, v = bool p := by
  cases v <;> first | exact h.elim | exact ⟨_, rfl⟩

theorem onScalars_ne_none_of_floats (operator : Arithmetic) (ha : Scalar.float.Holds a)
    (hb : Scalar.float.Holds b) : operator.onScalars a b ≠ none := by
  obtain ⟨x, rfl⟩ := exists_float ha
  obtain ⟨y, rfl⟩ := exists_float hb
  simp [Arithmetic.onScalars]

theorem onScalars_ne_none_of_ints {operator : Arithmetic} (ha : Scalar.int.Holds a)
    (hb : Scalar.int.Holds b) (h : operator = .divide → ¬ isIndivisible (a, b)) :
    operator.onScalars a b ≠ none := by
  obtain ⟨i, rfl⟩ := exists_int ha
  obtain ⟨j, rfl⟩ := exists_int hb
  cases operator with
  | divide =>
      have hquotient : ¬ (j = 0 ∨ (i = Int32.minValue ∧ j = -1)) := by
        simpa [isIndivisible] using h rfl
      simp [Arithmetic.onScalars, Arithmetic.onInts, hquotient]
  | _ => simp [Arithmetic.onScalars, Arithmetic.onInts]

theorem relate_ne_none_of_ints (test : Ordering → Bool) (ha : Scalar.int.Holds a)
    (hb : Scalar.int.Holds b) : a.relate test b ≠ none := by
  obtain ⟨i, rfl⟩ := exists_int ha
  obtain ⟨j, rfl⟩ := exists_int hb
  simp [relate, order?]

theorem relate_ne_none_of_floats (test : Ordering → Bool) (ha : Scalar.float.Holds a)
    (hb : Scalar.float.Holds b) (hx : a.isNaN = false) (hy : b.isNaN = false) :
    a.relate test b ≠ none := by
  obtain ⟨x, rfl⟩ := exists_float ha
  obtain ⟨y, rfl⟩ := exists_float hb
  rcases float_trichotomy hx hy with h | h | h
  · simp [relate, order?, h]
  · by_cases h' : x < y <;> simp [relate, order?, h, h']
  · by_cases h' : x < y <;> by_cases h'' : y < x <;> simp [relate, order?, h, h', h'']

theorem logical_ne_none (f : Bool → Bool → Bool) (ha : Scalar.bool.Holds a)
    (hb : Scalar.bool.Holds b) : a.logical f b ≠ none := by
  obtain ⟨p, rfl⟩ := exists_bool ha
  obtain ⟨q, rfl⟩ := exists_bool hb
  simp [logical]

theorem not_ne_none (ha : Scalar.bool.Holds a) : a.not ≠ none := by
  obtain ⟨p, rfl⟩ := exists_bool ha
  simp [Value.not]

theorem Fits.negate_ne_none {element : Scalar} (helement : element ≠ .bool)
    (hv : v.Fits element.Holds counts) : v.negate ≠ none := by
  refine Fits.map_ne_none (ofScalars_holds element) (fun x hx => ?_) hv
  cases element with
  | float =>
      obtain ⟨x, rfl⟩ := exists_float hx
      simp
  | int =>
      obtain ⟨i, rfl⟩ := exists_int hx
      simp
  | bool => exact absurd rfl helement

/-! ## The scalars inside -/

theorem mem_scalarsOf : v ∈ scalarsOf vs ↔ ∃ w ∈ vs, v ∈ w.scalars := by
  induction vs with
  | nil => simp [scalarsOf]
  | cons w vs ih => simp [scalarsOf, ih]

theorem length_scalarsOf {count : Nat} (h : ∀ v ∈ vs, v.scalars.length = count) :
    (scalarsOf vs).length = vs.length * count := by
  induction vs with
  | nil => simp [scalarsOf]
  | cons v vs ih =>
      rw [scalarsOf, List.length_append, h v List.mem_cons_self,
        ih fun u hu => h u (List.mem_cons_of_mem v hu), List.length_cons, Nat.succ_mul, Nat.add_comm]

mutual

theorem isScalar_of_mem_scalars : ∀ {v : Value}, ∀ w ∈ v.scalars, w.IsScalar
  | composite _, w, h => isScalar_of_mem_scalarsOf w h
  | bool _, w, h | int _, w, h | float _, w, h => by
      obtain rfl := List.mem_singleton.1 h
      rfl

theorem isScalar_of_mem_scalarsOf : ∀ {vs : List Value}, ∀ w ∈ scalarsOf vs, w.IsScalar
  | _ :: _, w, h => by
      rcases List.mem_append.1 h with h | h
      · exact isScalar_of_mem_scalars w h
      · exact isScalar_of_mem_scalarsOf w h

end

theorem Fits.of_mem_scalars (hP : OfScalars P) (hv : v.Fits P counts) {w : Value}
    (hw : w ∈ v.scalars) : P w := by
  induction counts generalizing v with
  | nil =>
      rw [scalars_of_isScalar (hP v hv)] at hw
      obtain rfl := List.mem_singleton.1 hw
      exact hv
  | cons count counts ih =>
      obtain ⟨vs, rfl, -, hvs⟩ := composes_iff.1 hv
      obtain ⟨u, hu, hw⟩ := mem_scalarsOf.1 hw
      exact ih (hvs u hu) hw

/-- What holds of all scalars inside holds of them in their places. -/
theorem Fits.and (hP : OfScalars P) (hv : v.Fits P counts) (h : ∀ w ∈ v.scalars, Q w) :
    v.Fits (fun w => P w ∧ Q w) counts := by
  induction counts generalizing v with
  | nil =>
      rw [scalars_of_isScalar (hP v hv)] at h
      exact ⟨hv, h v List.mem_cons_self⟩
  | cons count counts ih =>
      obtain ⟨vs, rfl, hlength, hvs⟩ := composes_iff.1 hv
      refine ⟨hlength, fun w hw => ih (hvs w hw) fun u hu => h u ?_⟩
      exact mem_scalarsOf.2 ⟨w, hw, hu⟩

end Value

theorem Primitive.length_scalars {p : Primitive} {v : Value} (h : p.Holds v) :
    v.scalars.length = p.scalarCount := by
  have hvector {element : Scalar} {count : Nat} {v : Value}
      (h : v.Composes element.Holds count) : v.scalars.length = count := by
    obtain ⟨vs, rfl, hlength, hvs⟩ := Value.composes_iff.1 h
    rw [Value.scalars, Value.scalarsOf_of_isScalar fun w hw => Value.isScalar_of_holds (hvs w hw),
      hlength]
  cases p with
  | scalar element =>
      rw [Value.scalars_of_isScalar (Value.isScalar_of_holds h)]
      rfl
  | vector element size => exact hvector h
  | matrix size =>
      obtain ⟨vs, rfl, hlength, hvs⟩ := Value.composes_iff.1 h
      rw [Value.scalars, Value.length_scalarsOf fun w hw => hvector (hvs w hw), hlength]
      rfl
  | void => exact h.elim
  | sampler2D => exact h.elim
  | samplerCube => exact h.elim

/-! ## Vectors and matrices -/

section

variable {xs ys zs : List Float32} {columns : List (List Float32)}

theorem dotProduct_ne_none (h : xs.length = ys.length) : dotProduct xs ys ≠ none := by
  simp [dotProduct, h]

theorem multiplyVector_ne_none (hne : columns ≠ []) (h : columns.length = xs.length) :
    multiplyVector columns xs ≠ none := by
  cases columns with
  | nil => exact absurd rfl hne
  | cons first rest => simpa [multiplyVector] using h

namespace Geometry

theorem cross_ne_none (hx : xs.length = 3) (hy : ys.length = 3) : cross xs ys ≠ none := by
  obtain ⟨_, _, _, rfl⟩ := List.length_eq_three.1 hx
  obtain ⟨_, _, _, rfl⟩ := List.length_eq_three.1 hy
  simp [cross]

theorem faceForward_ne_none (h : zs.length = ys.length) : faceForward xs ys zs ≠ none := by
  simp [faceForward, dotProduct_ne_none h]

theorem reflect_ne_none (h : ys.length = xs.length) : reflect xs ys ≠ none := by
  simp [reflect, dotProduct_ne_none h]

theorem refract_ne_none (h : ys.length = xs.length) (ratio : Float32) :
    refract xs ys ratio ≠ none := by
  simp [refract, dotProduct_ne_none h]

end Geometry

end

namespace Value

variable {P : Value → Prop} {a b v : Value} {arguments : List Value} {element : Scalar}
  {size : Dimension}

theorem linearProduct_matrices_ne_none (ha : a.Fits Scalar.float.Holds [size.toNat, size.toNat])
    (hb : b.Fits Scalar.float.Holds [size.toNat, size.toNat]) : a.linearProduct b ≠ none := by
  obtain ⟨as, has, hlength, -⟩ := columns?_of_fits ha
  obtain ⟨bs, hbs, -, hcolumns⟩ := columns?_of_fits hb
  have hproduct : bs.mapM (multiplyVector as) ≠ none := by
    apply List.mapM_ne_none
    intro column hcolumn
    refine multiplyVector_ne_none ?_ (hlength.trans (hcolumns column hcolumn).symm)
    exact List.ne_nil_of_length_pos (hlength ▸ size.toNat_pos)
  simp [linearProduct, has, hbs, hproduct]

theorem linearProduct_column_ne_none (ha : a.Fits Scalar.float.Holds [size.toNat, size.toNat])
    (hb : b.Fits Scalar.float.Holds [size.toNat]) : a.linearProduct b ≠ none := by
  obtain ⟨as, has, hlength, -⟩ := columns?_of_fits ha
  have hfloats : b.floats.length = size.toNat := length_floats (by rwa [vectorCounts_toNat])
  have hproduct : multiplyVector as b.floats ≠ none :=
    multiplyVector_ne_none (List.ne_nil_of_length_pos (hlength ▸ size.toNat_pos))
      (hlength.trans hfloats.symm)
  simp [linearProduct, has, columns?_of_vector size.toNat_pos hb, hproduct]

theorem linearProduct_row_ne_none (ha : a.Fits Scalar.float.Holds [size.toNat])
    (hb : b.Fits Scalar.float.Holds [size.toNat, size.toNat]) : a.linearProduct b ≠ none := by
  obtain ⟨bs, hbs, -, hcolumns⟩ := columns?_of_fits hb
  have hfloats : a.floats.length = size.toNat := length_floats (by rwa [vectorCounts_toNat])
  have hproduct : bs.mapM (dotProduct a.floats) ≠ none := by
    apply List.mapM_ne_none
    intro column hcolumn
    exact dotProduct_ne_none (hfloats.trans (hcolumns column hcolumn).symm)
  simp [linearProduct, columns?_of_vector size.toNat_pos ha, hbs, hproduct]

/-! ## Parts -/

theorem component?_ne_none {count index : Nat} (hv : v.Composes P count) (h : index < count) :
    v.component? index ≠ none := by
  obtain ⟨vs, rfl, rfl, -⟩ := composes_iff.1 hv
  simpa [component?, components?] using h

theorem swizzle_ne_none {count : Nat} {indices : List Nat} (hv : v.Composes P count)
    (h : ∀ i ∈ indices, i < count) : v.swizzle indices ≠ none := by
  unfold swizzle
  split
  · exact component?_ne_none hv (h _ List.mem_cons_self)
  · have hparts : indices.mapM v.component? ≠ none :=
      List.mapM_ne_none fun i hi => component?_ne_none hv (h i hi)
    simpa using hparts

/-! ## Constructors -/

theorem convert_ne_none (element : Scalar) (hv : v.IsScalar) : convert element v ≠ none := by
  cases v with
  | composite vs => cases hv
  | _ => cases element <;> simp [convert, toFloat?, toInt?, toBool?]

theorem length_converted (element : Scalar) (arguments : List Value) :
    ((scalarsOf arguments).filterMap (convert element)).length = (scalarsOf arguments).length := by
  apply List.filterMap_length_eq_length.2
  intro v hv
  exact Option.isSome_iff_ne_none.2 (convert_ne_none element (isScalar_of_mem_scalarsOf v hv))

theorem constructVector_ne_none {count : Nat}
    (h : count ≤ (scalarsOf arguments).length ∨ ∃ v : Value, v.IsScalar ∧ arguments = [v]) :
    constructVector element count arguments ≠ none := by
  have hleading (hcount : count ≤ (scalarsOf arguments).length) :
      (if count ≤ ((scalarsOf arguments).filterMap (convert element)).length then
        some (composite (((scalarsOf arguments).filterMap (convert element)).take count))
        else none) ≠ none := by
    rw [length_converted, if_pos hcount]
    exact Option.some_ne_none _
  unfold constructVector
  dsimp only
  split
  · rcases h with h | ⟨v, hv, heq⟩
    · exact hleading h
    · obtain rfl := List.singleton_inj.1 heq
      cases hv
  · rename_i argument hcomposite
    have hscalar : argument.IsScalar := by
      cases argument with
      | composite vs => exact absurd rfl (hcomposite vs)
      | _ => rfl
    simpa using convert_ne_none element hscalar
  · rename_i hsingle
    rcases h with h | ⟨v, -, heq⟩
    · exact hleading h
    · exact absurd heq (hsingle v)

theorem constructMatrix_ne_none {count : Nat} (h : count * count ≤ (scalarsOf arguments).length ∨
      ∃ v : Value, (v.IsScalar ∨ v.columns? ≠ none) ∧ arguments = [v]) :
    constructMatrix count arguments ≠ none := by
  have hfromScalars (hcount : count * count ≤ (scalarsOf arguments).length) :
      count * count ≤ ((scalarsOf arguments).filterMap toFloat?).length := by
    rwa [length_filterMap_toFloat? fun v => isScalar_of_mem_scalarsOf v]
  unfold constructMatrix
  dsimp only
  split
  · rename_i argument
    split
    · exact Option.some_ne_none _
    · exact Option.some_ne_none _
    · rename_i hfloat hcolumns
      rcases h with h | ⟨v, hv, heq⟩
      · rw [if_pos (hfromScalars h)]
        exact Option.some_ne_none _
      · obtain rfl := List.singleton_inj.1 heq
        rcases hv with hv | hv
        · have := toFloat?_isSome hv
          rw [hfloat] at this
          cases this
        · exact absurd hcolumns hv
  · rename_i hsingle
    rcases h with h | ⟨v, -, heq⟩
    · rw [if_pos (hfromScalars h)]
      exact Option.some_ne_none _
    · exact absurd heq (hsingle v)

end Value

/-- A constructor has a value for a single scalar, for a matrix in place of a matrix, and for
enough scalars. -/
theorem Primitive.construct_ne_none {target : Primitive} {arguments : List Value}
    (htarget : 0 < target.scalarCount)
    (h : target.scalarCount ≤ (Value.scalarsOf arguments).length ∨ ∃ v, arguments = [v] ∧
      (v.IsScalar ∨ (target.primitiveClass = .matrix ∧ v.columns? ≠ none))) :
    target.construct arguments ≠ none := by
  cases target with
  | scalar element =>
      have hsome : 0 < (Value.scalarsOf arguments).length := by
        rcases h with h | ⟨v, rfl, hv⟩
        · exact h
        · have hscalar : v.IsScalar := hv.resolve_right (by simp [primitiveClass])
          simp [Value.scalarsOf, Value.scalars_of_isScalar hscalar]
      rw [← Value.length_converted element] at hsome
      simpa [construct, List.head?_eq_none_iff] using List.ne_nil_of_length_pos hsome
  | vector element size =>
      apply Value.constructVector_ne_none
      rcases h with h | ⟨v, rfl, hv⟩
      · exact .inl h
      · exact .inr ⟨v, hv.resolve_right (by simp [primitiveClass]), rfl⟩
  | matrix size =>
      apply Value.constructMatrix_ne_none
      rcases h with h | ⟨v, rfl, hv⟩
      · exact .inl h
      · exact .inr ⟨v, hv.imp_right And.right, rfl⟩
  | void => cases htarget
  | sampler2D => cases htarget
  | samplerCube => cases htarget

end Essl
