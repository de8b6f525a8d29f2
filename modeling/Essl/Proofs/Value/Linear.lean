import Essl.Proofs.Value.Shape
import Essl.Value.Linear

/-!
# Shapes of vectors and matrices of floats

Products of linear algebra and geometric functions give vectors with as many components, and
matrices with as many columns, as their operands make it.
-/

namespace Essl

theorem List.forall₂_of_mapM {α β : Type} {f : α → Option β} {xs : List α} {ys : List β}
    (h : xs.mapM f = some ys) : List.Forall₂ (fun x y => f x = some y) xs ys := by
  induction xs generalizing ys with
  | nil =>
      obtain rfl := Option.some.inj h
      exact .nil
  | cons x xs ih =>
      simp only [List.mapM_cons, Option.bind_eq_bind, Option.pure_def, Option.bind_eq_some_iff,
        Option.some.injEq] at h
      obtain ⟨y, hy, ys, hys, rfl⟩ := h
      exact .cons hy (ih hys)

theorem List.mapM_ne_none {α β : Type} {f : α → Option β} {xs : List α}
    (h : ∀ x ∈ xs, f x ≠ none) : xs.mapM f ≠ none := by
  induction xs with
  | nil => simp
  | cons x xs ih =>
      obtain ⟨y, hy⟩ := Option.ne_none_iff_exists'.1 (h x List.mem_cons_self)
      obtain ⟨ys, hys⟩ := Option.ne_none_iff_exists'.1
        (ih fun z hz => h z (List.mem_cons_of_mem x hz))
      simp [List.mapM_cons, hy, hys]

theorem List.exists_of_forall₂_mem {α β : Type} {R : α → β → Prop} {xs : List α}
    {ys : List β} (h : List.Forall₂ R xs ys) {y : β} (hy : y ∈ ys) : ∃ x ∈ xs, R x y := by
  induction h with
  | nil => cases hy
  | cons hxy _ ih =>
      rcases List.mem_cons.1 hy with rfl | hy
      · exact ⟨_, List.mem_cons_self, hxy⟩
      · obtain ⟨x, hx, hxy⟩ := ih hy
        exact ⟨x, List.mem_cons_of_mem _ hx, hxy⟩

/-! ## Geometry -/

namespace Geometry

variable {xs ys zs ws : List Float32}

@[simp] theorem length_scale (xs : List Float32) (factor : Float32) :
    (scale xs factor).length = xs.length := by
  simp [scale]

@[simp] theorem length_subtract (xs ys : List Float32) :
    (subtract xs ys).length = min xs.length ys.length := by
  simp [subtract]

@[simp] theorem length_normalize (xs : List Float32) : (normalize xs).length = xs.length := by
  simp [normalize]

theorem length_cross (h : cross xs ys = some ws) : ws.length = 3 := by
  unfold cross at h
  split at h
  · obtain rfl := Option.some.inj h
    rfl
  · cases h

theorem length_faceForward (h : faceForward xs ys zs = some ws) : ws.length = xs.length := by
  obtain ⟨d, -, rfl⟩ := Option.map_eq_some_iff.1 h
  split <;> simp

theorem length_reflect (h : reflect xs ys = some ws) : ws.length = min xs.length ys.length := by
  obtain ⟨d, -, rfl⟩ := Option.map_eq_some_iff.1 h
  simp

theorem length_refract {ratio : Float32} (hlength : xs.length = ys.length)
    (h : refract xs ys ratio = some ws) : ws.length = xs.length := by
  obtain ⟨d, -, rfl⟩ := Option.map_eq_some_iff.1 h
  dsimp only
  split <;> simp [hlength]

end Geometry

theorem length_multiplyVector {columns : List (List Float32)} {xs ys : List Float32} {n : Nat}
    (hcolumns : ∀ column ∈ columns, column.length = n)
    (h : multiplyVector columns xs = some ys) : ys.length = n := by
  unfold multiplyVector at h
  split at h
  · cases h
  · rename_i first rest
    split at h
    · cases h
    · obtain rfl := Option.some.inj h
      simpa using hcolumns first List.mem_cons_self

/-! ## Vectors and matrices -/

/-- How many components a vector has at each depth; a single one is a scalar. -/
def vectorCounts (count : Nat) : List Nat := if count = 1 then [] else [count]

theorem Dimension.toNat_pos (size : Dimension) : 0 < size.toNat := by
  cases size <;> decide

theorem vectorCounts_toNat (size : Dimension) : vectorCounts size.toNat = [size.toNat] := by
  cases size <;> rfl

namespace Value

variable {a b v w : Value} {vs : List Value} {m n : Nat}

theorem scalars_of_isScalar (h : v.IsScalar) : v.scalars = [v] := by
  cases v with
  | composite vs => cases h
  | _ => rfl

theorem scalarsOf_of_isScalar (h : ∀ v ∈ vs, v.IsScalar) : scalarsOf vs = vs := by
  induction vs with
  | nil => rfl
  | cons v vs ih =>
      rw [scalarsOf, scalars_of_isScalar (h v List.mem_cons_self),
        ih fun u hu => h u (List.mem_cons_of_mem v hu)]
      rfl

theorem toFloat?_isSome (h : v.IsScalar) : v.toFloat?.isSome := by
  cases v with
  | composite vs => cases h
  | _ => rfl

theorem length_filterMap_toFloat? (h : ∀ v ∈ vs, v.IsScalar) :
    (vs.filterMap toFloat?).length = vs.length := by
  apply List.filterMap_length_eq_length.2
  intro v hv
  exact toFloat?_isSome (h v hv)

/-- A vector has as many floats as components. -/
theorem length_floats {element : Scalar} (h : v.Fits element.Holds (vectorCounts n)) :
    v.floats.length = n := by
  unfold floats
  by_cases hn : n = 1
  · subst hn
    rw [scalars_of_isScalar (isScalar_of_holds h)]
    exact length_filterMap_toFloat? (by simpa using isScalar_of_holds h)
  · rw [vectorCounts, if_neg hn] at h
    obtain ⟨vs, rfl, hlength, hvs⟩ := composes_iff.1 h
    have hscalars : ∀ v ∈ vs, v.IsScalar := fun v hv => isScalar_of_holds (hvs v hv)
    rw [scalars, scalarsOf_of_isScalar hscalars, length_filterMap_toFloat? hscalars, hlength]

theorem composite_floats_fits (xs : List Float32) :
    (composite (xs.map float)).Fits Scalar.float.Holds [xs.length] := by
  refine ⟨by simp, ?_⟩
  intro v hv
  obtain ⟨x, -, rfl⟩ := List.mem_map.1 hv
  trivial

theorem ofFloats_fits (xs : List Float32) :
    (ofFloats xs).Fits Scalar.float.Holds (vectorCounts xs.length) := by
  unfold ofFloats
  split
  · trivial
  · rename_i hxs
    have hlength : xs.length ≠ 1 := by
      intro h
      obtain ⟨x, rfl⟩ := List.length_eq_one_iff.1 h
      exact hxs x rfl
    rw [vectorCounts, if_neg hlength]
    exact composite_floats_fits xs

theorem columns?_of_fits {element : Scalar} (h : v.Fits element.Holds [m, n]) :
    ∃ columns, v.columns? = some columns ∧ columns.length = m ∧
      ∀ column ∈ columns, column.length = n := by
  obtain ⟨vs, rfl, hlength, hvs⟩ := composes_iff.1 h
  have hall : vs.all (·.components?.isSome) = true := by
    apply List.all_eq_true.2
    intro v hv
    obtain ⟨us, rfl, -⟩ := composes_iff.1 (hvs v hv)
    rfl
  refine ⟨vs.map floats, by rw [columns?, if_pos hall], by simpa using hlength, ?_⟩
  intro column hcolumn
  obtain ⟨v, hv, rfl⟩ := List.mem_map.1 hcolumn
  obtain ⟨us, rfl, hus, hscalars⟩ := composes_iff.1 (hvs v hv)
  have hscalars' : ∀ u ∈ us, u.IsScalar := fun u hu => isScalar_of_holds (hscalars u hu)
  rw [floats, scalars, scalarsOf_of_isScalar hscalars', length_filterMap_toFloat? hscalars', hus]

theorem columns?_of_vector {element : Scalar} (hn : 0 < n) (h : v.Fits element.Holds [n]) :
    v.columns? = none := by
  obtain ⟨vs, rfl, hlength, hvs⟩ := composes_iff.1 h
  cases vs with
  | nil => simp at hlength; omega
  | cons u us =>
      have hu : u.components? = none := isScalar_of_holds (hvs u List.mem_cons_self)
      simp [columns?, hu]

/-! ## Products -/

theorem linearProduct_matrices (ha : a.Fits Scalar.float.Holds [n, n])
    (hb : b.Fits Scalar.float.Holds [n, n]) (h : a.linearProduct b = some w) :
    w.Fits Scalar.float.Holds [n, n] := by
  obtain ⟨as, has, -, hcolumns⟩ := columns?_of_fits ha
  obtain ⟨bs, hbs, hlength, -⟩ := columns?_of_fits hb
  rw [linearProduct, has, hbs] at h
  obtain ⟨columns, hmap, rfl⟩ := Option.map_eq_some_iff.1 h
  have hmap := List.forall₂_of_mapM hmap
  refine ⟨by simp [← hmap.length_eq, hlength], ?_⟩
  intro column hcolumn
  obtain ⟨xs, hxs, rfl⟩ := List.mem_map.1 hcolumn
  obtain ⟨b, -, hproduct⟩ := List.exists_of_forall₂_mem hmap hxs
  have := composite_floats_fits xs
  rwa [length_multiplyVector hcolumns hproduct] at this

theorem linearProduct_column (hn : 0 < n) (ha : a.Fits Scalar.float.Holds [n, n])
    (hb : b.Fits Scalar.float.Holds [n]) (h : a.linearProduct b = some w) :
    w.Fits Scalar.float.Holds (vectorCounts n) := by
  obtain ⟨as, has, -, hcolumns⟩ := columns?_of_fits ha
  rw [linearProduct, has, columns?_of_vector hn hb] at h
  obtain ⟨xs, hxs, rfl⟩ := Option.map_eq_some_iff.1 h
  rw [← length_multiplyVector hcolumns hxs]
  exact ofFloats_fits xs

theorem linearProduct_row (hn : 0 < n) (ha : a.Fits Scalar.float.Holds [n])
    (hb : b.Fits Scalar.float.Holds [n, n]) (h : a.linearProduct b = some w) :
    w.Fits Scalar.float.Holds (vectorCounts n) := by
  obtain ⟨bs, hbs, hlength, -⟩ := columns?_of_fits hb
  rw [linearProduct, columns?_of_vector hn ha, hbs] at h
  obtain ⟨xs, hxs, rfl⟩ := Option.map_eq_some_iff.1 h
  rw [← hlength, (List.forall₂_of_mapM hxs).length_eq]
  exact ofFloats_fits xs

end Value

end Essl
