import Essl.Proofs.Value.Defined

/-!
# What constructors make

The scalars of a constructed value are those of the arguments as scalars of the target, in order and
as many as it has, unless there is a single scalar or a matrix is made from a matrix. Matrices have
their scalars column by column.
-/

namespace Essl

/-! ## Windows of a list -/

/-- Windows of one width, one after the other. -/
theorem List.flatMap_windows {α : Type} (f : Nat → α) (count width : Nat) :
    ((List.range count).flatMap fun i => (List.range width).map fun j => f (i * width + j)) =
      (List.range (count * width)).map f := by
  induction count with
  | zero => simp
  | succ count ih =>
      rw [List.range_succ, List.flatMap_append, ih, Nat.succ_mul, List.range_add, List.map_append,
        List.flatMap_singleton, List.map_map]
      rfl

/-- Looking at the first places of a list is taking them. -/
theorem List.map_getD_range {α : Type} (xs : List α) (default : α) {count : Nat}
    (h : count ≤ xs.length) :
    ((List.range count).map fun i => xs[i]?.getD default) = xs.take count := by
  apply List.ext_getElem
  · rw [List.length_map, List.length_range, List.length_take, Nat.min_eq_left h]
  · intro i hi _
    rw [List.length_map, List.length_range] at hi
    rw [List.getElem_map, List.getElem_range, List.getElem_take,
      List.getElem?_eq_getElem (by omega), Option.getD_some]

namespace Value

variable {v w x : Value} {vs arguments : List Value} {kind : Scalar} {count row column : Nat}

/-! ## Scalars of composites -/

/-- All scalars can be converted. -/
theorem map_some_converted (kind : Scalar) (arguments : List Value) :
    ((scalarsOf arguments).filterMap (convert kind)).map some =
      (scalarsOf arguments).map (convert kind) := by
  have h : ∀ v ∈ scalarsOf arguments, convert kind v ≠ none :=
    fun v hv => convert_ne_none kind (isScalar_of_mem_scalarsOf v hv)
  generalize scalarsOf arguments = vs at h ⊢
  induction vs with
  | nil => rfl
  | cons v vs ih =>
      obtain ⟨x, hx⟩ := Option.ne_none_iff_exists'.1 (h v List.mem_cons_self)
      rw [List.filterMap_cons_some hx, List.map_cons, List.map_cons, hx,
        ih fun u hu => h u (List.mem_cons_of_mem v hu)]

theorem isScalar_of_mem_converted (h : w ∈ vs.filterMap (convert kind)) : w.IsScalar :=
  isScalar_of_holds (holds_of_mem_converted h)

theorem scalars_composite (h : ∀ v ∈ vs, v.IsScalar) : (composite vs).scalars = vs :=
  scalarsOf_of_isScalar h

theorem scalarsOf_map {α : Type} (f : α → Value) (xs : List α) :
    scalarsOf (xs.map f) = xs.flatMap fun x => (f x).scalars := by
  induction xs with
  | nil => rfl
  | cons x xs ih => rw [List.map_cons, scalarsOf, ih, List.flatMap_cons]

/-- A matrix has its entries column by column. -/
theorem scalars_matrix (size : Nat) (entry : Nat → Nat → Float32) :
    (matrix size entry).scalars = (List.range size).flatMap fun column =>
      (List.range size).map fun row => float (entry row column) := by
  unfold matrix
  rw [scalars, scalarsOf_map]
  congr 1
  funext column
  apply scalars_composite
  intro v hv
  obtain ⟨row, -, rfl⟩ := List.mem_map.1 hv
  rfl

/-! ## Entries -/

/-- The scalar in a row and column of a matrix. -/
def cell? (v : Value) (row column : Nat) : Option Value :=
  (v.component? column).bind (·.component? row)

theorem cell?_matrix {size : Nat} (entry : Nat → Nat → Float32) (hrow : row < size)
    (hcolumn : column < size) :
    (matrix size entry).cell? row column = some (float (entry row column)) := by
  simp [matrix, cell?, component?, components?, hrow, hcolumn]

/-- The components of a vector of floats. -/
theorem component?_of_floats {n : Nat} (h : v.Composes Scalar.float.Holds n) (index : Nat) :
    v.component? index = v.floats[index]?.map float := by
  obtain ⟨vs, rfl, -, hvs⟩ := composes_iff.1 h
  have hscalars : (composite vs).scalars = vs :=
    scalars_composite fun u hu => isScalar_of_holds (hvs u hu)
  have hfloats : (vs.filterMap toFloat?).map float = vs := by
    clear hscalars h
    induction vs with
    | nil => rfl
    | cons v vs ih =>
        obtain ⟨x, rfl⟩ := exists_float (hvs v List.mem_cons_self)
        rw [List.filterMap_cons_some (show (float x).toFloat? = some x from rfl), List.map_cons,
          ih fun u hu => hvs u (List.mem_cons_of_mem _ hu)]
  rw [component?, components?, Option.bind_some, floats, hscalars, ← List.getElem?_map, hfloats]

/-- The entries of a matrix are those of its columns. -/
theorem cell?_of_columns {m n : Nat} (h : v.Fits Scalar.float.Holds [m, n])
    {columns : List (List Float32)} (hcolumns : v.columns? = some columns) (row column : Nat) :
    v.cell? row column = (columns[column]?.bind (·[row]?)).map float := by
  obtain ⟨vs, rfl, -, hvs⟩ := composes_iff.1 h
  have hall : vs.all (·.components?.isSome) = true := by
    apply List.all_eq_true.2
    intro u hu
    obtain ⟨us, rfl, -⟩ := composes_iff.1 (hvs u hu)
    rfl
  rw [columns?, if_pos hall] at hcolumns
  cases hcolumns
  rw [cell?, component?, components?, Option.bind_some, List.getElem?_map]
  cases hu : vs[column]? with
  | none => rfl
  | some u => exact component?_of_floats (hvs u (List.mem_of_getElem? hu)) row

/-! ## Vectors and matrices -/

theorem constructVector_of_scalar (hv : v.IsScalar) {size : Nat} (hx : convert kind v = some x) :
    constructVector kind size [v] = some (composite (List.replicate size x)) := by
  cases v with
  | composite vs => cases hv
  | _ => simp [constructVector, hx]

/-- The arguments are not a single scalar. -/
theorem constructVector_scalars {size : Nat} (hvs : ∀ v : Value, v.IsScalar → arguments ≠ [v])
    (h : constructVector kind size arguments = some w) :
    w.scalars.map some = ((scalarsOf arguments).take size).map (convert kind) := by
  have hleading : ∀ {w}, (if size ≤ ((scalarsOf arguments).filterMap (convert kind)).length then
      some (composite (((scalarsOf arguments).filterMap (convert kind)).take size))
      else none) = some w →
        w = composite (((scalarsOf arguments).filterMap (convert kind)).take size) := by
    intro w h
    split at h
    · exact (Option.some.inj h).symm
    · cases h
  have hw : w = composite (((scalarsOf arguments).filterMap (convert kind)).take size) := by
    unfold constructVector at h
    dsimp only at h
    split at h
    · exact hleading h
    · rename_i argument hcomposite
      refine absurd rfl (hvs argument ?_)
      cases argument with
      | composite us => exact absurd rfl (hcomposite us)
      | _ => rfl
    · exact hleading h
  have hscalars : w.scalars = ((scalarsOf arguments).filterMap (convert kind)).take size := by
    rw [hw]
    exact scalars_composite fun u hu => isScalar_of_mem_converted (List.mem_of_mem_take hu)
  rw [hscalars, List.map_take, map_some_converted, ← List.map_take]

theorem constructMatrix_of_scalar {r : Float32} (hr : v.toFloat? = some r) (size : Nat) :
    constructMatrix size [v] =
      some (matrix size fun row column => if row = column then r else 0.0) := by
  simp [constructMatrix, hr]

theorem constructMatrix_of_columns {columns : List (List Float32)} (hv : v.toFloat? = none)
    (hcolumns : v.columns? = some columns) (size : Nat) :
    constructMatrix size [v] = some (matrix size fun row column =>
      (columns[column]?.bind (·[row]?)).getD (if row = column then 1.0 else 0.0)) := by
  simp [constructMatrix, hv, hcolumns]

/-- The arguments are neither a single scalar nor a single matrix. -/
theorem constructMatrix_scalars {size : Nat}
    (hvs : ∀ v, arguments = [v] → v.toFloat? = none ∧ v.columns? = none)
    (h : constructMatrix size arguments = some w) :
    w.scalars.map some = ((scalarsOf arguments).take (size * size)).map (convert .float) := by
  let entries := (scalarsOf arguments).filterMap toFloat?
  have hfromScalars : ∀ {w}, (if size * size ≤ entries.length then
      some (matrix size fun row column => entries[column * size + row]?.getD 0.0) else none) =
        some w → w.scalars = (entries.take (size * size)).map float := by
    intro w h
    split at h
    · rename_i henough
      cases h
      rw [scalars_matrix, List.flatMap_windows fun i => float (entries[i]?.getD 0.0),
        ← List.map_getD_range entries 0.0 henough, List.map_map]
      rfl
    · cases h
  have hscalars : w.scalars = (entries.take (size * size)).map float := by
    unfold constructMatrix at h
    dsimp only at h
    split at h
    · rename_i argument
      obtain ⟨hfloat, hcolumns⟩ := hvs argument rfl
      rw [hfloat, hcolumns] at h
      exact hfromScalars h
    · exact hfromScalars h
  have hconverted : entries.map float = (scalarsOf arguments).filterMap (convert .float) :=
    List.map_filterMap
  rw [hscalars, List.map_take, hconverted, List.map_take, map_some_converted, ← List.map_take]

end Value

end Essl
