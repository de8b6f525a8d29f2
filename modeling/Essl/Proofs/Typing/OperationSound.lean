import Essl.Proofs.Typing.Rules
import Essl.Typing.Operation

/-!
# Operators and assignments keep the rules

Operands that are typed make an expression that is typed.
-/

namespace Essl

/-- The type is known, and the constant is one of the type. -/
abbrev ExprInfo.Typed (clean : Prop) (info : ExprInfo) : Prop :=
  Essl.Typed clean info.type info.constant

variable {clean : Prop}

/-! ## Common rules -/

theorem requireType_known {expected actual : Option Ty} (hexpected : Known clean expected)
    (hactual : Known clean actual) (location : Location) :
    (requireType expected actual location).Ensures clean fun _ => clean → expected = actual := by
  cases expected with
  | none => exact fun _ hclean => absurd hclean hexpected
  | some expected =>
      cases actual with
      | none => exact fun _ hclean => absurd hclean hactual
      | some actual =>
          unfold requireType
          dsimp only
          split
          · rename_i heq
            exact fun _ _ => congrArg some heq
          · exact Noted.Ensures.report_imp _ _

theorem requireType_ensures {expected actual : Ty} (hexpected : expected.Proper clean)
    (hactual : actual.Proper clean) (location : Location) :
    (requireType expected actual location).Ensures clean fun _ => clean → expected = actual :=
  (requireType_known hexpected.known hactual.known location).mono
    fun _ h hclean => Option.some.inj (h hclean)

theorem requireBool_ensures {type : Option Ty} (h : Known clean type) (location : Location) :
    (requireBool type location).Ensures clean fun _ => clean → type = some .bool := by
  cases type with
  | none => exact fun _ hclean => absurd hclean h
  | some type =>
      unfold requireBool
      dsimp only
      split
      · rename_i heq
        exact fun _ _ => congrArg some heq
      · exact Noted.Ensures.report_imp _ _

section

variable {es : List Expr} {ts : List Ty} {vs : List Value}

theorem types?_ne_none (h : ∀ e ∈ es, e.info.Typed clean) (hclean : clean) :
    types? es ≠ none := by
  apply List.mapM_ne_none
  intro e he
  obtain ⟨t, ht⟩ := (h e he).known.eq_some hclean
  simp [ht]

theorem types?_map (h : types? es = some ts) : es.map (·.info.type) = ts.map some := by
  have hpairs := List.forall₂_of_mapM h
  clear h
  induction hpairs with
  | nil => rfl
  | cons he _ ih => rw [List.map_cons, List.map_cons, he, ih]

theorem types?_proper (h : ∀ e ∈ es, e.info.Typed clean) (hts : types? es = some ts) :
    ∀ t ∈ ts, t.Proper clean := by
  intro t ht
  obtain ⟨e, he, hte⟩ := List.exists_of_forall₂_mem (List.forall₂_of_mapM hts) ht
  exact (h e he).known.proper hte

/-- Constants of typed expressions are of their types. -/
theorem constants?_hold (h : ∀ e ∈ es, e.info.Typed clean) (hclean : clean)
    (hts : types? es = some ts) (hvs : constants? es = some vs) :
    List.Forall₂ Ty.Holds ts vs := by
  have htypes := List.forall₂_of_mapM hts
  have hconstants := List.forall₂_of_mapM hvs
  clear hts hvs
  induction htypes generalizing vs with
  | nil =>
      cases hconstants
      exact .nil
  | @cons e t es ts he _ ih =>
      cases hconstants with
      | cons hv hvs =>
          have hhead := (h e List.mem_cons_self).holds hclean t he _ hv
          exact .cons hhead (ih (fun d hd => h d (List.mem_cons_of_mem e hd)) hvs)

end

/-! ## Names and literals -/

theorem typeLiteral_typed (token : Token) : (typeLiteral token).Typed clean := by
  unfold typeLiteral
  split
  · apply Typed.primitive
    intro _ v hv
    obtain ⟨i, -, rfl⟩ := Option.map_eq_some_iff.1 hv
    trivial
  · apply Typed.primitive
    intro _ v hv
    obtain ⟨x, -, rfl⟩ := Option.map_eq_some_iff.1 hv
    trivial
  · apply Typed.primitive
    rintro _ _ ⟨⟩
    trivial

theorem typeLiteral_folded (token : Token) : Expr.Folded (.literal (typeLiteral token) token) := by
  simp only [Expr.Folded, typeLiteral]
  cases token.kind with
  | intConstant => rfl
  | floatConstant => rfl
  | _ => rfl

theorem typeVariable_ensures {c : Context} {returnType : Option Ty}
    (hc : c.Sound clean returnType) (name : Token) :
    (typeVariable c name).Ensures clean fun info => info.Typed clean ∧
      Expr.Folded (.variable info name) := by
  unfold typeVariable
  refine (hc.variableNamed? name).bind fun found hfound => ?_
  cases found with
  | none =>
      refine Noted.Ensures.pure ⟨Typed.unknown fun hclean => hfound.1 hclean rfl, ?_⟩
      rintro v ⟨⟩
  | some v =>
      refine Noted.Ensures.pure ⟨hfound.2 v rfl, ?_⟩
      rintro _ ⟨⟩
      rfl

/-! ## Operators -/

theorem HasResult.hasOperator {name : String} {operands : List Expr} {info : ExprInfo}
    (h : HasResult name operands info) : HasOperator name (operands.map (·.info.type)) info.type := by
  obtain ⟨f, hf, hname, htypes, htype, -⟩ := h
  refine ⟨f, hf, hname, ?_, htype⟩
  rw [types?_map htypes, List.map_map]
  rfl

section

variable {op : Token} {operands : List Expr}

theorem findOperator_ensures {name : String} {types : List Ty} (hname : '(' ∉ name.toList)
    (htypes : ∀ t ∈ types, t.Proper clean) (location : Location) :
    (findOperator name types location).Ensures clean fun found =>
      (clean → found ≠ none) ∧ ∀ f ∈ found, f ∈ Builtin.operators ∧ f.name = name ∧
        f.parameters.map Parameter.type = types := by
  unfold findOperator
  split
  · rename_i f hf
    apply Noted.Ensures.pure
    refine ⟨by simp, ?_⟩
    rintro _ ⟨⟩
    exact Builtin.operator?_spec hname (fun t ht => (htypes t ht).named) hf
  · apply Noted.Ensures.reported
    simp

theorem typeOperator_ensures (hop : '(' ∉ op.text.toList)
    (h : ∀ e ∈ operands, e.info.Typed clean) :
    (typeOperator op operands).Ensures clean fun info => info.Typed clean ∧
      (clean → HasResult op.text operands info) := by
  unfold typeOperator
  cases htypes : types? operands with
  | none =>
      have hnot : ¬ clean := fun hclean => types?_ne_none h hclean htypes
      exact Noted.Ensures.pure ⟨Typed.unknown hnot, hnot.elim⟩
  | some types =>
      refine (findOperator_ensures hop (types?_proper h htypes) op.location).bind
        fun found hfound => ?_
      cases found with
      | none =>
          have hnot : ¬ clean := fun hclean => hfound.1 hclean rfl
          exact Noted.Ensures.pure ⟨Typed.unknown hnot, hnot.elim⟩
      | some f =>
          obtain ⟨hf, hname, hparameters⟩ := hfound.2 f rfl
          have hfaithful := Builtin.operators_faithful f hf
          obtain ⟨result, hresult⟩ := hfaithful.returnType_primitive
          apply Noted.Ensures.pure
          constructor
          · apply Typed.some
            · rw [hresult]
              trivial
            · intro hclean v hv
              obtain ⟨evaluate, hevaluate, hv⟩ := Option.bind_eq_some_iff.1 hv
              obtain ⟨vs, hvs, hv⟩ := Option.bind_eq_some_iff.1 hv
              refine hfaithful.holds hevaluate ?_ hv
              rw [hparameters]
              exact constants?_hold h hclean htypes hvs
          · exact fun _ => ⟨f, hf, hname, hparameters ▸ htypes, rfl, rfl⟩

end

section

variable {left right operand : Expr} {op : Token}

theorem equalityResult?_kind {expected : Bool} (h : equalityResult? op = some expected) :
    op.kind = .operator (if expected then .equal else .notEqual) := by
  unfold equalityResult? at h
  split at h
  · rename_i heq
    obtain rfl := Option.some.inj h
    simpa [Token.isOperator] using heq
  · split at h
    · rename_i heq
      obtain rfl := Option.some.inj h
      simpa [Token.isOperator] using heq
    · cases h

/-- A type that is known of one operand only is known of the other one as well if there are no
problems. -/
private theorem ofType_ensures {type : Option Ty} {P : ExprInfo → Prop} (hnot : ¬ clean)
    (htype : ∀ t ∈ type, t.Proper clean) :
    (pure (.ofType type) : Noted ExprInfo).Ensures clean fun info =>
      info.Typed clean ∧ (clean → P info) := by
  apply Noted.Ensures.pure
  refine ⟨Known.typed ?_, hnot.elim⟩
  cases type with
  | none => exact hnot
  | some type => exact htype type rfl

theorem typeBinary_ensures (hop : '(' ∉ op.text.toList) (hleft : left.info.Typed clean)
    (hright : right.info.Typed clean) :
    (typeBinary left op right).Ensures clean fun info => info.Typed clean ∧
      (clean → Expr.Ruled (.binary info left op right)) := by
  have hoperator : (typeOperator op [left, right]).Ensures clean fun info => info.Typed clean ∧
      (clean → Expr.Ruled (.binary info left op right)) := by
    refine (typeOperator_ensures hop ?_).mono fun info h =>
      ⟨h.1, fun hclean => ⟨.inr (h.2 hclean).hasOperator, .inr (h.2 hclean)⟩⟩
    simpa using ⟨hleft, hright⟩
  have hleftKnown := hleft.known
  have hrightKnown := hright.known
  unfold typeBinary
  split
  · rename_i hnone _
    rw [hnone] at hleftKnown
    apply ofType_ensures (show ¬ clean from hleftKnown)
    simp
  · rename_i htype hnone
    rw [hnone] at hrightKnown
    exact ofType_ensures hrightKnown fun t ht => hleftKnown.proper (htype ▸ ht)
  · rename_i hnone htype
    rw [hnone] at hleftKnown
    exact ofType_ensures hleftKnown fun t ht => hrightKnown.proper (htype ▸ ht)
  · rename_i leftType rightType hleftType hrightType
    split
    · rename_i expected hexpected
      split
      · rename_i heq
        apply Noted.Ensures.pure
        refine ⟨Typed.primitive ?_, ?_⟩
        · intro _ v hv
          obtain ⟨a, -, hv⟩ := Option.bind_eq_some_iff.1 hv
          obtain ⟨b, -, hb⟩ := Option.bind_eq_some_iff.1 hv
          obtain rfl := Option.some.inj hb
          trivial
        · intro _
          have hkind := equalityResult?_kind hexpected
          refine ⟨.inl ⟨?_, by rw [hleftType, hrightType, heq], rfl⟩, .inl ⟨expected, hkind, rfl⟩⟩
          cases expected with
          | true => exact .inl hkind
          | false => exact .inr hkind
      · exact hoperator
    · exact hoperator

theorem typeUnary_ensures (hop : '(' ∉ op.text.toList) (h : operand.info.Typed clean) :
    (typeUnary op operand).Ensures clean fun info => info.Typed clean ∧
      (clean → HasResult op.text [operand] info) := by
  have hoperator : (typeOperator op [operand]).Ensures clean _ :=
    typeOperator_ensures hop (by simpa using h)
  unfold typeUnary
  dsimp only
  split
  · exact Noted.Ensures.andThen fun _ => hoperator
  · exact hoperator

theorem compound?_text {op base : Operator} (h : Operator.compound? op = some base) :
    '(' ∉ base.text.toList := by
  cases op <;> cases h <;> decide

theorem checkCompound_ensures {base : Operator} (hbase : '(' ∉ base.text.toList)
    {leftType rightType : Ty} (hleft : leftType.Proper clean) (hright : rightType.Proper clean) :
    (checkCompound base op leftType rightType right).Ensures clean fun _ =>
      clean → HasOperator base.text [some leftType, some rightType] (some leftType) := by
  unfold checkCompound
  refine (findOperator_ensures hbase (by simpa using ⟨hleft, hright⟩) op.location).bind
    fun found hfound => ?_
  cases found with
  | none => exact fun _ hclean => absurd rfl (hfound.1 hclean)
  | some f =>
      obtain ⟨hf, hname, hparameters⟩ := hfound.2 f rfl
      obtain ⟨result, hresult⟩ := (Builtin.operators_faithful f hf).returnType_primitive
      have hresult : f.returnType.Proper clean := by simp [hresult]
      refine (requireType_ensures hleft hresult right.location).mono fun _ heq hclean => ?_
      refine ⟨f, hf, hname, ?_, congrArg some (heq hclean)⟩
      rw [show f.parameters.map (some ·.type) = (f.parameters.map Parameter.type).map some by simp,
        hparameters]
      rfl

theorem typeAssignment_ensures (hleft : left.info.Typed clean) (hright : right.info.Typed clean) :
    (typeAssignment left op right).Ensures clean fun info => info.Typed clean ∧
      (clean → Expr.Ruled (.assignment info left op right)) := by
  have hleftKnown := hleft.known
  have hrightKnown := hright.known
  refine Noted.Ensures.andThen fun _ => ?_
  extract_lets typed
  have htyped : ∀ u, (clean → Expr.WellTyped (.assignment (.ofType left.info.type) left op right)) →
      (typed u).Ensures clean fun info => info.Typed clean ∧
        (clean → Expr.Ruled (.assignment info left op right)) :=
    fun _ h => Noted.Ensures.pure ⟨hleftKnown.typed, fun hclean => ⟨h hclean, rfl⟩⟩
  split
  · rename_i leftType rightType hleftType hrightType
    have hleftType' : leftType.Proper clean := hleftKnown.proper hleftType
    have hrightType' : rightType.Proper clean := hrightKnown.proper hrightType
    split
    · rename_i base hbase
      obtain ⟨assignment, -, hcompound⟩ := Option.bind_eq_some_iff.1 hbase
      refine (checkCompound_ensures (compound?_text hcompound) hleftType' hrightType').bind
        fun u h => htyped u ?_
      simpa only [Expr.WellTyped, hbase, hleftType, hrightType] using h
    · rename_i hnone
      refine (requireType_ensures hleftType' hrightType' right.location).bind
        fun u h => htyped u fun hclean => ?_
      simpa only [Expr.WellTyped, hnone] using ⟨leftType, hleftType, h hclean ▸ hrightType⟩
  · rename_i hunknown
    refine htyped () fun hclean => ?_
    obtain ⟨leftType, hleftType⟩ := hleftKnown.eq_some hclean
    obtain ⟨rightType, hrightType⟩ := hrightKnown.eq_some hclean
    exact absurd hrightType (hunknown leftType rightType hleftType)

theorem typeChoice_ensures {condition whenTrue whenFalse : Expr} (question colon : Token)
    (hcondition : clean → condition.info.type = some .bool) (htrue : whenTrue.info.Typed clean)
    (hfalse : whenFalse.info.Typed clean) :
    (typeChoice condition whenTrue whenFalse).Ensures clean fun info => info.Typed clean ∧
      (clean → Expr.Ruled (.ternary info condition question whenTrue colon whenFalse)) := by
  have htrueKnown := htrue.known
  have hfalseKnown := hfalse.known
  unfold typeChoice
  dsimp only
  split
  · rename_i a b ha hb
    rw [ha] at htrueKnown
    split
    · rename_i heq
      apply Noted.Ensures.pure
      refine ⟨Typed.some htrueKnown ?_,
        fun hclean => ⟨⟨hcondition hclean, a, ha, heq ▸ hb, rfl⟩, rfl⟩⟩
      intro hclean v hv
      obtain ⟨value, -, hv⟩ := Option.bind_eq_some_iff.1 hv
      obtain ⟨chosen, -, hv⟩ := Option.bind_eq_some_iff.1 hv
      split at hv
      · exact htrue.holds hclean a ha v hv
      · exact hfalse.holds hclean a (heq ▸ hb) v hv
    · refine (Noted.Ensures.report _ _).bind fun _ hnot => Noted.Ensures.pure ?_
      exact ⟨Typed.ofType htrueKnown, hnot.elim⟩
  · rename_i hunknown
    have hnot : ¬ clean := by
      intro hclean
      obtain ⟨a, ha⟩ := htrueKnown.eq_some hclean
      obtain ⟨b, hb⟩ := hfalseKnown.eq_some hclean
      exact hunknown a b ha hb
    apply Noted.Ensures.pure
    refine ⟨⟨?_, hnot.elim⟩, hnot.elim⟩
    cases ha : whenTrue.info.type with
    | none => simpa using hfalseKnown
    | some a => simpa [ha] using htrueKnown

end

end Essl
