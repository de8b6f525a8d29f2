import Essl.Proofs.Typing.Folding
import Essl.Proofs.Value.Constructed

/-!
# Constructors of accepted arguments

Typing counts the scalars that arguments supply by their types alone. Where it finds no fault, the
values of the arguments are enough for the constructor, and what it makes of them can be told from
their types.
-/

namespace Essl

open Value

/-- What the constructor of a scalar, vector or matrix makes of arguments of some types. -/
structure Primitive.Constructs (target : Primitive) (types : List Ty) (vs : List Value)
    (w : Value) : Prop where
  shape : target.Holds w
  /-- A single scalar is every component. -/
  filled : ∀ kind element v, target.element = .scalar kind → target.isMatrix = false →
    types = [.primitive (.scalar element)] → vs = [v] →
      ∃ x, convert kind v = some x ∧ w.scalars = List.replicate target.scalarCount x
  /-- In a matrix it is those of the diagonal. -/
  diagonal : ∀ size element v, target = .matrix size → types = [.primitive (.scalar element)] →
    vs = [v] → ∃ x, v.toFloat? = some x ∧ ∀ row < size.toNat, ∀ column < size.toNat,
      w.cell? row column = some (.float (if row = column then x else 0.0))
  /-- A single matrix replaces a corner of the identity matrix. -/
  copied : ∀ size source v, target = .matrix size → types = [.primitive (.matrix source)] →
    vs = [v] → ∀ row < size.toNat, ∀ column < size.toNat,
      w.cell? row column =
        if row < source.toNat ∧ column < source.toNat then v.cell? row column
        else some (.float (if row = column then 1.0 else 0.0))
  /-- Other arguments supply their scalars in order; those of a matrix come column by column. -/
  listed : ∀ kind, target.element = .scalar kind →
    (∀ element, types ≠ [.primitive (.scalar element)]) →
    (∀ source, target.isMatrix = true → types ≠ [.primitive (.matrix source)]) →
      w.scalars.map some = ((scalarsOf vs).take target.scalarCount).map (convert kind)

variable {target : Primitive} {types : List Ty} {vs : List Value} {v w : Value}

namespace Primitive

theorem construct_filled {kind : Scalar} (hkind : target.element = .scalar kind)
    (hmatrix : target.isMatrix = false) (hv : v.IsScalar) (hw : target.construct [v] = some w) :
    ∃ x, convert kind v = some x ∧ w.scalars = List.replicate target.scalarCount x := by
  obtain ⟨x, hx⟩ := Option.ne_none_iff_exists'.1 (convert_ne_none kind hv)
  have hscalar : x.IsScalar := isScalar_of_holds (convert_holds hx)
  refine ⟨x, hx, ?_⟩
  cases target with
  | scalar element =>
      cases hkind
      have hhead : [x].head? = some w := by
        simpa [construct, scalarsOf, scalars_of_isScalar hv, hx] using hw
      cases hhead
      exact scalars_of_isScalar hscalar
  | vector element size =>
      cases hkind
      rw [construct, constructVector_of_scalar hv hx] at hw
      cases hw
      exact scalars_composite fun u hu => List.eq_of_mem_replicate hu ▸ hscalar
  | matrix size => cases hmatrix
  | void | sampler2D | samplerCube => cases hkind

theorem construct_diagonal {size : Dimension} (hv : v.IsScalar)
    (hw : construct (.matrix size) [v] = some w) :
    ∃ x, v.toFloat? = some x ∧ ∀ row < size.toNat, ∀ column < size.toNat,
      w.cell? row column = some (.float (if row = column then x else 0.0)) := by
  obtain ⟨x, hx⟩ := exists_toFloat? hv
  refine ⟨x, hx, fun row hrow column hcolumn => ?_⟩
  rw [construct, constructMatrix_of_scalar hx] at hw
  cases hw
  exact cell?_matrix _ hrow hcolumn

theorem construct_copied {size source : Dimension} (hv : Holds (.matrix source) v)
    (hw : construct (.matrix size) [v] = some w) {row column : Nat} (hrow : row < size.toNat)
    (hcolumn : column < size.toNat) :
    w.cell? row column =
      if row < source.toNat ∧ column < source.toNat then v.cell? row column
      else some (.float (if row = column then 1.0 else 0.0)) := by
  obtain ⟨columns, hcolumns, hlength, hrows⟩ := columns?_of_fits hv
  have hfloat : v.toFloat? = none := by
    obtain ⟨us, rfl, -⟩ := composes_iff.1 hv
    rfl
  rw [construct, constructMatrix_of_columns hfloat hcolumns] at hw
  cases hw
  rw [cell?_matrix _ hrow hcolumn, cell?_of_columns hv hcolumns]
  by_cases hinside : row < source.toNat ∧ column < source.toNat
  · have hcolumnLength : column < columns.length := hlength.symm ▸ hinside.2
    have hrowLength : row < columns[column].length :=
      (hrows _ (List.getElem_mem hcolumnLength)).symm ▸ hinside.1
    simp [hinside, hcolumnLength, hrowLength]
  · have houtside : columns[column]?.bind (·[row]?) = none := by
      refine Option.bind_eq_none_iff.2 fun floats hfloats => List.getElem?_eq_none ?_
      obtain ⟨hcolumnLength, rfl⟩ := List.getElem?_eq_some_iff.1 hfloats
      have hrowLength := hrows _ (List.getElem_mem hcolumnLength)
      omega
    rw [if_neg hinside, houtside, Option.getD_none]

theorem construct_listed {kind : Scalar} (hkind : target.element = .scalar kind)
    (hvs : ∀ v, vs = [v] → ¬ v.IsScalar ∧ (target.isMatrix = true → v.columns? = none))
    (hw : target.construct vs = some w) :
    w.scalars.map some = ((scalarsOf vs).take target.scalarCount).map (convert kind) := by
  have hsingle : ∀ v : Value, v.IsScalar → vs ≠ [v] := fun v hv heq => (hvs v heq).1 hv
  cases target with
  | scalar element =>
      cases hkind
      have hscalar : w.IsScalar := isScalar_of_mem_converted (List.mem_of_head? hw)
      obtain ⟨rest, hrest⟩ := List.head?_eq_some_iff.1 hw
      rw [scalars_of_isScalar hscalar, List.map_take, ← map_some_converted, hrest]
      rfl
  | vector element size =>
      cases hkind
      exact constructVector_scalars hsingle hw
  | matrix size =>
      cases hkind
      refine constructMatrix_scalars (fun v heq => ⟨?_, (hvs v heq).2 rfl⟩) hw
      cases v with
      | composite us => rfl
      | _ => exact absurd rfl (hvs _ heq).1
  | void | sampler2D | samplerCube => cases hkind

end Primitive

/-! ## Accepted arguments -/

/-- Of values of a scalar, vector or matrix type only those of scalar types are scalars, and only
those of matrix types have columns. -/
theorem not_single_of_hold {parts : List Primitive}
    (hholds : List.Forall₂ Ty.Holds (parts.map .primitive) vs)
    (hscalar : ∀ element, parts ≠ [.scalar element]) (heq : vs = [v]) :
    ¬ v.IsScalar ∧ ((∀ source, parts ≠ [.matrix source]) → v.columns? = none) := by
  subst heq
  obtain ⟨part, rfl⟩ : ∃ part, parts = [part] := by
    rw [← List.length_eq_one_iff, ← List.length_map, hholds.length_eq, List.length_singleton]
  obtain _ | ⟨hv, _ | _⟩ := hholds
  cases part with
  | scalar element => exact absurd rfl (hscalar element)
  | vector element size =>
      refine ⟨?_, fun _ => columns?_of_vector size.toNat_pos hv⟩
      obtain ⟨us, rfl, -⟩ := composes_iff.1 hv
      nofun
  | matrix size =>
      refine ⟨?_, fun h => absurd rfl (h size)⟩
      obtain ⟨us, rfl, -⟩ := composes_iff.1 hv
      nofun
  | void | sampler2D | samplerCube => exact hv.elim

theorem constructorFault?_of_problems {arguments : List Expr} {location : Location}
    (htarget : (constructorPart? (.primitive target)).isSome)
    (h : (typePrimitiveConstructor target types arguments location).problems = []) :
    constructorFault? target types = none := by
  have hpart : ¬ (constructorPart? (.primitive target)).isNone := by
    simpa [Option.isSome_iff_ne_none] using htarget
  rw [typePrimitiveConstructor, if_neg hpart] at h
  split at h
  · cases h
  · cases h
  · assumption

/-- If typing has nothing to say about the arguments, the constructor has a value for them, which is
what their types tell, and which is the constant of the expression. -/
theorem typePrimitiveConstructor_constructs {arguments : List Expr} {location : Location}
    (htarget : (constructorPart? (.primitive target)).isSome)
    (hvs : constants? arguments = some vs) (hholds : List.Forall₂ Ty.Holds types vs)
    (h : (typePrimitiveConstructor target types arguments location).problems = []) :
    ∃ w, target.construct vs = some w ∧ target.Constructs types vs w ∧
      (typePrimitiveConstructor target types arguments location).value =
        .ofValue (.primitive target) (some w) := by
  have hfault := constructorFault?_of_problems htarget h
  obtain ⟨w, hw⟩ := Option.ne_none_iff_exists'.1 (construct_ne_none htarget hfault hholds)
  refine ⟨w, hw, ?_, ?_⟩
  · obtain ⟨parts, rfl, -⟩ := constructorFault?_eq_none hfault
    constructor
    case shape => exact Primitive.construct_holds hw
    case filled =>
      rintro kind element v hkind hmatrix hparts rfl
      rw [hparts] at hholds
      obtain _ | ⟨hv, _ | _⟩ := hholds
      exact Primitive.construct_filled hkind hmatrix (isScalar_of_holds hv) hw
    case diagonal =>
      rintro size element v rfl hparts rfl
      rw [hparts] at hholds
      obtain _ | ⟨hv, _ | _⟩ := hholds
      exact Primitive.construct_diagonal (isScalar_of_holds hv) hw
    case copied =>
      rintro size source v rfl hparts rfl row hrow column hcolumn
      rw [hparts] at hholds
      obtain _ | ⟨hv, _ | _⟩ := hholds
      exact Primitive.construct_copied hv hw hrow hcolumn
    case listed =>
      intro kind hkind hscalar hmatrix
      refine Primitive.construct_listed hkind (fun v heq => ?_) hw
      have hnotScalar : ∀ element, parts ≠ [.scalar element] := by
        rintro element rfl
        exact hscalar element rfl
      obtain ⟨hnot, hcolumns⟩ := not_single_of_hold hholds hnotScalar heq
      refine ⟨hnot, fun htarget => hcolumns ?_⟩
      rintro source rfl
      exact hmatrix source htarget rfl
  · have hpart : ¬ (constructorPart? (.primitive target)).isNone := by
      simpa [Option.isSome_iff_ne_none] using htarget
    rw [typePrimitiveConstructor, if_neg hpart, hfault, hvs, Option.bind_some, hw]
    rfl

/-- A matrix is filled from an integer and a vector of truth values. -/
theorem typePrimitiveConstructor_constructs_mixed :
    let word : String → Token := fun text => ⟨.identifier, text, .whole text, false, true⟩
    let count := Expr.variable (.ofValue .int (some (.int 7))) (word "count")
    let flags := Expr.variable
      (.ofValue (.primitive (.vector .bool .three))
        (some (.composite [.bool true, .bool false, .bool true]))) (word "flags")
    let types : List Ty := [.int, .primitive (.vector .bool .three)]
    let vs : List Value := [.int 7, .composite [.bool true, .bool false, .bool true]]
    let typed := typePrimitiveConstructor (.matrix .two) types [count, flags] (.whole "mat2")
    typed.problems = [] ∧ ∃ w, Primitive.construct (.matrix .two) vs = some w ∧
      Primitive.Constructs (.matrix .two) types vs w ∧
        typed.value = .ofValue (.primitive (.matrix .two)) (some w) := by
  intro word count flags types vs typed
  have hflags : Ty.Holds (.primitive (.vector .bool .three))
      (.composite [.bool true, .bool false, .bool true]) :=
    ⟨rfl, by simp [Scalar.Holds]⟩
  have hholds : List.Forall₂ Ty.Holds types vs := .cons trivial (.cons hflags .nil)
  exact ⟨rfl, typePrimitiveConstructor_constructs rfl rfl hholds rfl⟩

end Essl
