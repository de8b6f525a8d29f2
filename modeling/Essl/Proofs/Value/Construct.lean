import Essl.Proofs.Value.Linear
import Essl.Value.Arithmetic
import Essl.Value.Construct

/-!
# Shapes of parts and of constructed values

What is taken out of a value, by selecting a component, by a swizzle or by an index, has the type
that typing gives it, and so has what constructors make.
-/

namespace Essl

namespace Value

variable {P : Value → Prop} {v w : Value} {count index : Nat}

/-! ## Parts -/

theorem component?_of_composes (hv : v.Composes P count) (h : v.component? index = some w) :
    P w := by
  obtain ⟨vs, rfl, -, hvs⟩ := composes_iff.1 hv
  exact hvs w (List.mem_of_getElem? h)

theorem swizzle_fits {element : Scalar} {indices : List Nat}
    (hv : v.Composes element.Holds count) (h : v.swizzle indices = some w) :
    w.Fits element.Holds (vectorCounts indices.length) := by
  unfold swizzle at h
  split at h
  · exact component?_of_composes hv h
  · rename_i hindices
    have hlength : indices.length ≠ 1 := by
      intro h
      obtain ⟨i, rfl⟩ := List.length_eq_one_iff.1 h
      exact hindices i rfl
    obtain ⟨ws, hws, rfl⟩ := Option.map_eq_some_iff.1 h
    have hws := List.forall₂_of_mapM hws
    rw [vectorCounts, if_neg hlength]
    refine ⟨hws.length_eq.symm, ?_⟩
    intro w hw
    obtain ⟨i, -, hi⟩ := List.exists_of_forall₂_mem hws hw
    exact component?_of_composes hv hi

/-! ## Constructors -/

theorem convert_holds {element : Scalar} (h : convert element v = some w) : element.Holds w := by
  cases element <;>
    · obtain ⟨x, -, rfl⟩ := Option.map_eq_some_iff.1 h
      trivial

theorem holds_of_mem_converted {element : Scalar} {vs : List Value}
    (h : w ∈ vs.filterMap (convert element)) : element.Holds w := by
  obtain ⟨v, -, hv⟩ := List.mem_filterMap.1 h
  exact convert_holds hv

theorem matrix_fits (size : Nat) (entry : Nat → Nat → Float32) :
    (matrix size entry).Fits Scalar.float.Holds [size, size] := by
  refine ⟨by simp, ?_⟩
  intro column hcolumn
  obtain ⟨i, -, rfl⟩ := List.mem_map.1 hcolumn
  refine ⟨by simp, ?_⟩
  intro v hv
  obtain ⟨j, -, rfl⟩ := List.mem_map.1 hv
  trivial

theorem constructVector_composes {element : Scalar} {size : Nat} {arguments : List Value}
    (h : constructVector element size arguments = some w) : w.Composes element.Holds size := by
  have hleading : ∀ {w}, (if size ≤ ((scalarsOf arguments).filterMap (convert element)).length then
      some (composite (((scalarsOf arguments).filterMap (convert element)).take size))
      else none) = some w → w.Composes element.Holds size := by
    intro w h
    split at h
    · rename_i hsize
      obtain rfl := Option.some.inj h
      refine ⟨by rw [List.length_take]; omega, ?_⟩
      exact fun v hv => holds_of_mem_converted (List.mem_of_mem_take hv)
    · cases h
  unfold constructVector at h
  dsimp only at h
  split at h
  · exact hleading h
  · obtain ⟨x, hx, rfl⟩ := Option.map_eq_some_iff.1 h
    refine ⟨by simp, ?_⟩
    intro v hv
    rw [List.eq_of_mem_replicate hv]
    exact convert_holds hx
  · exact hleading h

theorem constructMatrix_fits {size : Nat} {arguments : List Value}
    (h : constructMatrix size arguments = some w) : w.Fits Scalar.float.Holds [size, size] := by
  obtain ⟨entry, rfl⟩ : ∃ entry, w = matrix size entry := by
    unfold constructMatrix at h
    dsimp only at h
    split at h
    · split at h
      · exact ⟨_, (Option.some.inj h).symm⟩
      · exact ⟨_, (Option.some.inj h).symm⟩
      · split at h
        · exact ⟨_, (Option.some.inj h).symm⟩
        · cases h
    · split at h
      · exact ⟨_, (Option.some.inj h).symm⟩
      · cases h
  exact matrix_fits size entry

end Value

theorem Primitive.construct_holds {target : Primitive} {arguments : List Value} {w : Value}
    (h : target.construct arguments = some w) : target.Holds w := by
  cases target with
  | scalar element => exact Value.holds_of_mem_converted (List.mem_of_head? h)
  | vector element size => exact Value.constructVector_composes h
  | matrix size => exact Value.constructMatrix_fits h
  | void => cases h
  | sampler2D => cases h
  | samplerCube => cases h

end Essl
