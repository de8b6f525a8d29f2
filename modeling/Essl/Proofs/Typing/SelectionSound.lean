import Essl.Proofs.Typing.OperationSound
import Essl.Proofs.Value.Construct

/-!
# Selections keep the rules

A part of something typed is typed: a field has the type and value that the struct has for it, a
swizzle as many components as it names, and an index is one of a part that is there.
-/

namespace Essl

variable {clean : Prop}

/-! ## Swizzles -/

section

variable {vector : Primitive} {set : Option Nat} {offset : Nat} {names : List Char}
  {indices : List Nat}

theorem swizzleIndices_cons {c : Char}
    (h : swizzleIndices vector set offset (c :: names) = .ok indices) :
    ∃ own index rest, index < vector.componentCount ∧
      swizzleIndices vector (some own) (offset + c.utf8Size) names = .ok rest ∧
        indices = index :: rest := by
  unfold swizzleIndices at h
  split at h
  · cases h
  · rename_i own index hcomponent
    split at h
    · cases h
    · split at h
      · cases h
      · rename_i hbound
        cases hrest : swizzleIndices vector (some own) (offset + c.utf8Size) names with
        | error fault =>
            rw [hrest] at h
            cases h
        | ok rest =>
            rw [hrest] at h
            cases h
            exact ⟨own, index, rest, Nat.lt_of_not_le hbound, hrest, rfl⟩

theorem swizzleIndices_length (h : swizzleIndices vector set offset names = .ok indices) :
    indices.length = names.length := by
  induction names generalizing set offset indices with
  | nil =>
      cases h
      rfl
  | cons c names ih =>
      obtain ⟨own, index, rest, -, hrest, rfl⟩ := swizzleIndices_cons h
      rw [List.length_cons, List.length_cons, ih hrest]

/-- What a swizzle selects is there. -/
theorem swizzleIndices_lt (h : swizzleIndices vector set offset names = .ok indices) :
    ∀ i ∈ indices, i < vector.componentCount := by
  induction names generalizing set offset indices with
  | nil =>
      cases h
      simp
  | cons c names ih =>
      obtain ⟨own, index, rest, hindex, hrest, rfl⟩ := swizzleIndices_cons h
      exact List.forall_mem_cons.2 ⟨hindex, ih hrest⟩

end

theorem vectorOf?_ne_none {element : Scalar} {count : Nat} (hpos : 0 < count) (hle : count ≤ 4) :
    (Primitive.scalar element).vectorOf? count ≠ none := by
  obtain rfl | rfl | rfl | rfl : count = 1 ∨ count = 2 ∨ count = 3 ∨ count = 4 := by omega
  all_goals simp [Primitive.vectorOf?, Dimension.ofNat?]

theorem typeSwizzle_ensures {element : Scalar} {size : Dimension} {constant : Option Value}
    (h : Typed clean (some (.primitive (.vector element size))) constant) {selector : Token}
    (hselector : selector.text.toList ≠ []) :
    (typeSwizzle (.vector element size) constant selector).Ensures clean fun info =>
      info.Typed clean ∧ (clean → ∃ indices,
        swizzleIndices (.vector element size) none 0 selector.text.toList = .ok indices ∧
          info.constant = constant.bind (·.swizzle indices)) := by
  unfold typeSwizzle
  dsimp only
  split
  · exact Noted.Ensures.reported fun hnot => ⟨Typed.unknown hnot, hnot.elim⟩
  · rename_i hlength
    split
    · exact Noted.Ensures.reported fun hnot => ⟨Typed.unknown hnot, hnot.elim⟩
    · rename_i indices hindices
      apply Noted.Ensures.pure
      split
      · rename_i result hresult
        refine ⟨Typed.primitive ?_, fun _ => ⟨indices, hindices, rfl⟩⟩
        intro hclean v hv
        obtain ⟨w, hw, hv⟩ := Option.bind_eq_some_iff.1 hv
        have hw : w.Composes element.Holds size.toNat := h.holds hclean _ rfl w hw
        rw [Primitive.holds_vectorOf? hresult, ← swizzleIndices_length hindices]
        exact Value.swizzle_fits hw hv
      · rename_i hresult
        have hpos := List.length_pos_iff.2 hselector
        exact absurd hresult (vectorOf?_ne_none hpos (by omega))

/-! ## Fields -/

theorem StructDef.mem_of_find? {s : StructDef} {name : String} {index : Nat} {field : Field}
    (h : s.find? name = some (index, field)) : s.fields[index]? = some field := by
  obtain ⟨i, -, hfield⟩ := Option.bind_eq_some_iff.1 h
  obtain ⟨f, hf, heq⟩ := Option.map_eq_some_iff.1 hfield
  cases heq
  exact hf

theorem StructDef.Holds.component? {s : StructDef} {v w : Value} (hv : s.Holds v) {index : Nat}
    {field : Field} (hfield : s.fields[index]? = some field)
    (hw : v.component? index = some w) {t : Ty} (ht : field.type = some t) : t.Holds w := by
  obtain ⟨vs, rfl, hfields⟩ := StructDef.holds_iff.1 hv
  obtain ⟨hi, rfl⟩ := List.getElem?_eq_some_iff.1 hfield
  obtain ⟨hi', rfl⟩ := List.getElem?_eq_some_iff.1 hw
  obtain ⟨type, htype, hholds⟩ := hfields.get hi hi'
  obtain rfl : type = t := Option.some.inj (htype.symm.trans ht)
  exact hholds

theorem typeField_ensures {operand : Expr} (dot : Token) (h : operand.info.Typed clean)
    {selector : Token} (hselector : selector.text.toList ≠ []) :
    (typeField operand selector).Ensures clean fun info => info.Typed clean ∧
      (clean → Expr.Folded (.field info operand dot selector)) := by
  unfold typeField
  split
  · rename_i hnone
    have hnot : ¬ clean := by simpa [hnone] using h.known
    exact Noted.Ensures.pure ⟨Typed.unknown hnot, hnot.elim⟩
  · rename_i element size htype
    simp only [Expr.Folded, htype]
    refine typeSwizzle_ensures ?_ hselector
    rw [← htype]
    exact h
  · rename_i s htype
    have hs : s.Proper clean := h.known.proper htype
    split
    · rename_i index field hfind
      have hfield := StructDef.mem_of_find? hfind
      simp only [Expr.Folded, htype]
      apply Noted.Ensures.pure
      refine ⟨⟨(StructDef.proper_iff.1 hs).2 field (List.mem_of_getElem? hfield), ?_⟩,
        fun _ => ⟨index, field, hfind, rfl⟩⟩
      intro hclean t ht v hv
      obtain ⟨w, hw, hv⟩ := Option.bind_eq_some_iff.1 hv
      have hw : s.Holds w := h.holds hclean _ htype w hw
      exact hw.component? hfield hv ht
    · exact Noted.Ensures.reported fun hnot => ⟨Typed.unknown hnot, hnot.elim⟩
  · exact Noted.Ensures.reported fun hnot => ⟨Typed.unknown hnot, hnot.elim⟩

/-! ## Indices -/

theorem hasParts_of_indexed? {type part : Ty} {length : Nat}
    (h : indexed? type = some (part, length)) : HasParts type part length := by
  unfold indexed? at h
  split at h
  all_goals cases h
  · exact .matrix _
  · exact .vector _ _
  · exact .array _ _

namespace HasParts

variable {type part : Ty} {length : Nat} (h : HasParts type part length)

include h

theorem proper (htype : type.Proper clean) : part.Proper clean := by
  cases h with
  | matrix size => trivial
  | vector element size => trivial
  | array element length => exact htype

theorem holds_component? {v w : Value} {index : Nat} (hv : type.Holds v)
    (hw : v.component? index = some w) : part.Holds w := by
  cases h with
  | matrix size => exact Value.component?_of_composes hv hw
  | vector element size => exact Value.component?_of_composes hv hw
  | array element length => exact Value.component?_of_composes hv hw

end HasParts

theorem asInt?_eq_some {v : Value} {i : Int32} (h : v.asInt? = some i) : v = .int i := by
  cases v <;> cases h
  rfl

theorem typePosition_ensures {position : Expr} (h : position.info.Typed clean) (length : Nat) :
    (typePosition position length).Ensures clean fun selected => clean →
      position.info.type = some .int ∧ ∃ i : Int32, position.info.constant = some (.int i) ∧
        0 ≤ i.toInt ∧ i.toInt < length ∧ selected = some i.toInt.toNat := by
  unfold typePosition
  split
  · rename_i hnone
    apply Noted.Ensures.pure
    intro hclean
    obtain ⟨t, ht⟩ := h.known.eq_some hclean
    rw [hnone] at ht
    cases ht
  · rename_i type htype
    split
    · exact Noted.Ensures.reported Not.elim
    · rename_i hint
      split
      · exact Noted.Ensures.reported Not.elim
      · rename_i i hconstant
        split
        · rename_i hbounds
          apply Noted.Ensures.pure
          intro _
          obtain ⟨v, hv, hi⟩ := Option.bind_eq_some_iff.1 hconstant
          have hzero : 0 ≤ i.toInt := by simpa [Int32.le_iff_toInt_le] using hbounds.1
          refine ⟨by rw [htype, not_not.1 hint], i, by rw [hv, asInt?_eq_some hi], hzero, ?_, rfl⟩
          have := hbounds.2
          omega
        · exact Noted.Ensures.reported Not.elim

theorem typeIndex_ensures {operand position : Expr} (opening closing : Token)
    (hoperand : operand.info.Typed clean) (hposition : position.info.Typed clean) :
    (typeIndex operand position).Ensures clean fun info => info.Typed clean ∧
      (clean → Expr.Ruled (.index info operand opening position closing)) := by
  unfold typeIndex
  split
  · rename_i hnone
    have hnot : ¬ clean := by simpa [hnone] using hoperand.known
    exact Noted.Ensures.pure ⟨Typed.unknown hnot, hnot.elim⟩
  · rename_i type htype
    split
    · exact Noted.Ensures.reported fun hnot =>
        ⟨Typed.unknown hnot, hnot.elim⟩
    · rename_i part length hindexed
      have hparts := hasParts_of_indexed? hindexed
      refine (typePosition_ensures hposition length).bind fun index hindex => ?_
      apply Noted.Ensures.pure
      constructor
      · refine Typed.some (hparts.proper (hoperand.known.proper htype)) ?_
        intro hclean v hv
        obtain ⟨w, hw, hv⟩ := Option.bind_eq_some_iff.1 hv
        obtain ⟨i, -, hv⟩ := Option.bind_eq_some_iff.1 hv
        exact hparts.holds_component? (hoperand.holds hclean _ htype w hw) hv
      · intro hclean
        obtain ⟨hint, i, hposition, hzero, hbound, rfl⟩ := hindex hclean
        refine ⟨?_, i, hposition, rfl⟩
        exact ⟨type, part, length, htype, hparts, rfl, hint, i, hposition, hzero, hbound⟩

end Essl
