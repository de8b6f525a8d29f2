import Essl.Proofs.Tree.Origin
import Essl.Proofs.Typing.ExprTrace
import Essl.Proofs.Typing.Placing

/-!
# What problems with expressions point at

Every rule for expressions speaks of operands and tokens of the expression, so a problem is at
tokens of it; the only ones that cut a place out of a token are those about single components of a
swizzle. No problem with an expression goes back to a declaration.
-/

namespace Essl

open Text

variable {names part : List Token} {c : Context} {location : Location} {left right e : Expr}
  {op name selector : Token}

/-- The problems point at tokens of a part. -/
abbrev Noted.PointsAt (names part : List Token) {α : Type} (x : Noted α) : Prop :=
  x.Finds (SemanticError.PointsAt names part) fun _ => True

namespace Noted.PointsAt

variable {α β : Type} {x : Noted α} {f : α → Noted β} {cause : SemanticCause}

theorem bind {Q : β → Prop} (hx : x.PointsAt names part)
    (hf : ∀ a, (f a).Finds (SemanticError.PointsAt names part) Q) :
    (x >>= f).Finds (SemanticError.PointsAt names part) Q :=
  Finds.bind hx fun a _ => hf a

/-- One problem at tokens, about no earlier declaration. -/
theorem report (hl : location.JoinedFrom part) (hcomponent : cause.component? = none)
    (hprevious : cause.previous = none) : (Essl.report cause location).PointsAt names part :=
  Finds.report (.plain hl hcomponent hprevious)

theorem reported {a : α} (hl : location.JoinedFrom part) (hcomponent : cause.component? = none)
    (hprevious : cause.previous = none) :
    PointsAt names part (do Essl.report cause location; Pure.pure a) :=
  Finds.reported (.plain hl hcomponent hprevious) trivial

end Noted.PointsAt

/-! ## Names -/

theorem Context.variableNamed?_pointsAt (hname : name ∈ part) :
    (c.variableNamed? name).PointsAt names part := by
  unfold variableNamed?
  split
  · exact .pure trivial
  · exact .reported (.token hname) rfl rfl
  · split
    · exact .pure trivial
    · exact .reported (.token hname) rfl rfl

theorem Context.typeNamed?_pointsAt (hname : name ∈ part) :
    (c.typeNamed? name).PointsAt names part := by
  unfold typeNamed?
  split
  · exact .pure trivial
  · exact .reported (.token hname) rfl rfl
  · split
    · exact .pure trivial
    · exact .reported (.token hname) rfl rfl

theorem typeVariable_pointsAt (hname : name ∈ part) :
    (typeVariable c name).PointsAt names part := by
  refine (Context.variableNamed?_pointsAt hname).bind fun found => ?_
  split <;> exact .pure trivial

/-! ## Rules about types -/

theorem requireType_pointsAt {expected actual : Option Ty} (h : location.JoinedFrom part) :
    (requireType expected actual location).PointsAt names part := by
  unfold requireType
  split
  · split
    · exact .pure trivial
    · exact .report h rfl rfl
  · exact .pure trivial

theorem requireBool_pointsAt {type : Option Ty} (h : location.JoinedFrom part) :
    (requireBool type location).PointsAt names part := by
  unfold requireBool
  split
  · split
    · exact .pure trivial
    · exact .report h rfl rfl
  · exact .pure trivial

theorem requireWritable_pointsAt : ∀ {e : Expr}, e.MadeOf part →
    (requireWritable e).PointsAt names part
  | .variable info name, h => by
      unfold requireWritable
      split
      · split
        · exact .report (.token h) rfl rfl
        · exact .pure trivial
      · exact .pure trivial
  | .group _ _ inner _, h => requireWritable_pointsAt (e := inner) h.2.1
  | .field _ operand _ _, h => requireWritable_pointsAt (e := operand) h.1
  | .index _ operand _ _ _, h => requireWritable_pointsAt (e := operand) h.1
  | .assignment .., h | .ternary .., h | .binary .., h | .unary .., h | .step .., h
  | .literal .., h | .call .., h | .arrayCall .., h | .list .., h => by
      unfold requireWritable
      split
      · exact .report h.location rfl rfl
      · exact .pure trivial

/-! ## Operators -/

theorem findOperator_pointsAt {operator : String} {types : List Ty}
    (h : location.JoinedFrom part) :
    (findOperator operator types location).PointsAt names part := by
  unfold findOperator
  split
  · exact .pure trivial
  · exact .reported h rfl rfl

theorem typeOperator_pointsAt {operands : List Expr} (hop : op ∈ part) :
    (typeOperator op operands).PointsAt names part := by
  unfold typeOperator
  split
  · exact .pure trivial
  · refine (findOperator_pointsAt (.token hop)).bind fun f => ?_
    split <;> exact .pure trivial

theorem typeBinary_pointsAt (hop : op ∈ part) :
    (typeBinary left op right).PointsAt names part := by
  unfold typeBinary
  split
  · exact .pure trivial
  · exact .pure trivial
  · exact .pure trivial
  · split
    · split
      · exact .pure trivial
      · exact typeOperator_pointsAt hop
    · exact typeOperator_pointsAt hop

theorem typeUnary_pointsAt (hop : op ∈ part) (he : e.MadeOf part) :
    (typeUnary op e).PointsAt names part := by
  unfold typeUnary
  exact Noted.Finds.first_if (requireWritable_pointsAt he) fun _ => typeOperator_pointsAt hop

theorem checkCompound_pointsAt {base : Operator} {leftType rightType : Ty} (hop : op ∈ part)
    (hright : right.MadeOf part) :
    (checkCompound base op leftType rightType right).PointsAt names part := by
  refine (findOperator_pointsAt (.token hop)).bind fun f => ?_
  split
  · exact requireType_pointsAt hright.location
  · exact .pure trivial

theorem typeAssignment_pointsAt (hleft : left.MadeOf part) (hop : op ∈ part)
    (hright : right.MadeOf part) : (typeAssignment left op right).PointsAt names part := by
  refine (requireWritable_pointsAt hleft).bind fun _ => ?_
  extract_lets finish
  have hfinish : ∀ u, (finish u).PointsAt names part := fun _ => .pure trivial
  split
  · split
    · exact (checkCompound_pointsAt hop hright).bind hfinish
    · exact (requireType_pointsAt hright.location).bind hfinish
  · exact hfinish ()

theorem typeChoice_pointsAt {condition : Expr} (hleft : left.MadeOf part)
    (hright : right.MadeOf part) : (typeChoice condition left right).PointsAt names part := by
  unfold typeChoice
  extract_lets constant
  split
  · split
    · exact .pure trivial
    · exact .reported (.join hleft.location hright.location) rfl rfl
  · exact .pure trivial

/-! ## Selection -/

/-- A fault is about one of the names, at the offset of the bytes in front of it. -/
theorem swizzleIndices_fault {vector : Primitive} : ∀ {set : Option Nat} {offset : Nat}
    {components : List Char} {fault : SwizzleFault},
      swizzleIndices vector set offset components = .error fault →
        fault.cause.component? = some fault.character ∧ ∃ before after,
          components = before ++ fault.character :: after ∧
            fault.offset = offset + byteLength before
  | _, _, [], _, h => by cases h
  | _, offset, component :: components, fault, h => by
      rw [swizzleIndices] at h
      split at h
      · cases h
        exact ⟨rfl, [], components, rfl, rfl⟩
      · rename_i own index _
        split at h
        · cases h
          exact ⟨rfl, [], components, rfl, rfl⟩
        · split at h
          · cases h
            exact ⟨rfl, [], components, rfl, rfl⟩
          · cases hrest : swizzleIndices vector (some own) (offset + component.utf8Size)
                components with
            | ok indices =>
                rw [hrest] at h
                cases h
            | error rest =>
                rw [hrest] at h
                cases h
                obtain ⟨hcause, before, after, rfl, hoffset⟩ := swizzleIndices_fault hrest
                refine ⟨hcause, component :: before, after, rfl, ?_⟩
                rw [hoffset, byteLength_cons, Nat.add_assoc]

theorem SemanticCause.previous_of_component {cause : SemanticCause} {character : Char}
    (h : cause.component? = some character) : cause.previous = none := by
  unfold component? at h
  split at h
  · rfl
  · rfl
  · rfl
  · cases h

theorem typeSwizzle_pointsAt {vector : Primitive} {constant : Option Value}
    (hselector : selector ∈ part) :
    (typeSwizzle vector constant selector).PointsAt names part := by
  unfold typeSwizzle
  extract_lets components
  split
  · exact .reported (.token hselector) rfl rfl
  · split
    · rename_i fault hfault
      obtain ⟨hcause, before, after, hsplit, hoffset⟩ := swizzleIndices_fault hfault
      refine Noted.Finds.reported ⟨fun hnone => ?_, fun found hfound => ?_, ?_⟩ trivial
      · cases hcause.symm.trans hnone
      · cases hcause.symm.trans hfound
        refine ⟨selector, hselector, before, after, hsplit, ?_⟩
        rw [hoffset, Nat.zero_add]
      · rw [SemanticCause.previous_of_component hcause]
        rintro _ ⟨⟩
    · exact .pure trivial

theorem typeField_pointsAt (hselector : selector ∈ part) :
    (typeField e selector).PointsAt names part := by
  unfold typeField
  split
  · exact .pure trivial
  · exact typeSwizzle_pointsAt hselector
  · split
    · exact .pure trivial
    · exact .reported (.token hselector) rfl rfl
  · exact .reported (.token hselector) rfl rfl

theorem typePosition_pointsAt {length : Nat} (he : e.MadeOf part) :
    (typePosition e length).PointsAt names part := by
  unfold typePosition
  split
  · exact .pure trivial
  · split
    · exact .reported he.location rfl rfl
    · split
      · exact .reported he.location rfl rfl
      · split
        · exact .pure trivial
        · exact .reported he.location rfl rfl

theorem typeIndex_pointsAt (hleft : left.MadeOf part) (hright : right.MadeOf part) :
    (typeIndex left right).PointsAt names part := by
  unfold typeIndex
  split
  · exact .pure trivial
  · split
    · exact .reported hleft.location rfl rfl
    · exact (typePosition_pointsAt hright).bind fun _ => .pure trivial

theorem typeLength_pointsAt (he : e.MadeOf part) : (typeLength e).PointsAt names part := by
  unfold typeLength
  split
  · exact .pure trivial
  · split
    · exact .reported he.location rfl rfl
    · split
      · exact .reported he.location rfl rfl
      · split
        · exact .reported he.location rfl rfl
        · exact .pure trivial

/-! ## Calls and constructors -/

section

variable {arguments : List Expr}

theorem typePrimitiveConstructor_pointsAt {target : Primitive} {types : List Ty}
    (harguments : Expr.EachMadeOf part arguments) (h : location.JoinedFrom part) :
    (typePrimitiveConstructor target types arguments location).PointsAt names part := by
  unfold typePrimitiveConstructor
  extract_lets type
  split
  · exact .reported h rfl rfl
  · split
    · rename_i i cause hfault
      have hargument : ((arguments[i]?.map Expr.location).getD location).JoinedFrom part := by
        cases hi : arguments[i]? with
        | none => exact h
        | some e =>
            exact (Expr.eachMadeOf_iff.1 harguments e (List.mem_of_getElem? hi)).location
      obtain ⟨type, rfl | rfl⟩ := constructorFault?_cause hfault
      · exact .reported hargument rfl rfl
      · exact .reported hargument rfl rfl
    · exact .reported h rfl rfl
    · exact .pure trivial

theorem requireTypes_pointsAt : ∀ {types : List (Option Ty)} {arguments : List Expr},
    Expr.EachMadeOf part arguments → (requireTypes types arguments).PointsAt names part
  | some _ :: _, _ :: _, h =>
      (requireType_pointsAt h.1.location).bind fun _ =>
        (requireTypes_pointsAt h.2).bind fun _ => .pure trivial
  | none :: _, _ :: _, h => by
      rw [requireTypes]
      exact requireTypes_pointsAt h.2
  | [], _, _ | some _ :: _, [], _ | none :: _, [], _ => .pure trivial

theorem typeStructConstructor_pointsAt {s : StructDef}
    (harguments : Expr.EachMadeOf part arguments) (h : location.JoinedFrom part) :
    (typeStructConstructor s arguments location).PointsAt names part := by
  unfold typeStructConstructor
  split
  · exact .reported h rfl rfl
  · exact (requireTypes_pointsAt harguments).bind fun _ => .pure trivial

theorem typeArrayElements_pointsAt {element : Ty} {length : Option Nat}
    (harguments : Expr.EachMadeOf part arguments) (h : location.JoinedFrom part) :
    (typeArrayElements element length arguments location).PointsAt names part := by
  unfold typeArrayElements
  split
  · extract_lets type
    split
    · exact .reported h rfl rfl
    · exact (requireTypes_pointsAt harguments).bind fun _ => .pure trivial
  · exact .pure trivial

theorem typeArrayConstructor_pointsAt {length : Option Nat} (hname : name ∈ part)
    (harguments : Expr.EachMadeOf part arguments) (h : location.JoinedFrom part) :
    (typeArrayConstructor c name length arguments location).PointsAt names part := by
  refine (Context.typeNamed?_pointsAt hname).bind fun found => ?_
  split
  · exact .pure trivial
  · split
    · exact typeArrayElements_pointsAt harguments h
    · exact Noted.PointsAt.reported (.token hname) rfl rfl

theorem requireOutputs_pointsAt : ∀ {parameters : List Parameter} {arguments : List Expr},
    Expr.EachMadeOf part arguments → (requireOutputs parameters arguments).PointsAt names part
  | parameter :: parameters, e :: arguments, h => by
      rw [requireOutputs]
      exact Noted.Finds.first_if (requireWritable_pointsAt h.1)
        fun _ => requireOutputs_pointsAt h.2
  | [], _, _ | _ :: _, [], _ => .pure trivial

theorem typeCall_pointsAt (hname : name ∈ part) (harguments : Expr.EachMadeOf part arguments)
    (h : location.JoinedFrom part) : (typeCall c name arguments location).PointsAt names part := by
  unfold typeCall
  split
  · exact .pure trivial
  · split
    · exact (requireOutputs_pointsAt harguments).bind fun _ => .pure trivial
    · exact typeStructConstructor_pointsAt harguments h
    · exact typePrimitiveConstructor_pointsAt harguments h
    · split
      · exact .pure trivial
      · exact .reported (.token hname) rfl rfl

end

/-! ## Expressions -/

namespace Expr

mutual

/-- Problems with an expression point at its tokens, and typing leaves these as they are. -/
theorem check_pointsAt : ∀ {e : Expr}, e.MadeOf part →
    (e.check c).Finds (SemanticError.PointsAt names part) (MadeOf part)
  | .assignment _ left op right, ⟨hleft, hop, hright⟩ => by
      refine (check_pointsAt hleft).bind fun left hleft => ?_
      refine (check_pointsAt hright).bind fun right hright => ?_
      exact (typeAssignment_pointsAt hleft hop hright).bind
        fun _ => .pure ⟨hleft, hop, hright⟩
  | .ternary _ condition question whenTrue colon whenFalse, ⟨hcondition, htrue, hfalse⟩ => by
      refine (check_pointsAt hcondition).bind fun condition hcondition => ?_
      refine (requireBool_pointsAt hcondition.location).bind fun _ => ?_
      refine (check_pointsAt htrue).bind fun whenTrue htrue => ?_
      refine (check_pointsAt hfalse).bind fun whenFalse hfalse => ?_
      exact (typeChoice_pointsAt htrue hfalse).bind
        fun _ => .pure ⟨hcondition, htrue, hfalse⟩
  | .binary _ left op right, ⟨hleft, hop, hright⟩ => by
      refine (check_pointsAt hleft).bind fun left hleft => ?_
      refine (check_pointsAt hright).bind fun right hright => ?_
      exact (typeBinary_pointsAt hop).bind fun _ => .pure ⟨hleft, hop, hright⟩
  | .unary _ op operand, ⟨hop, hoperand⟩ => by
      refine (check_pointsAt hoperand).bind fun operand hoperand => ?_
      exact (typeUnary_pointsAt hop hoperand).bind fun _ => .pure ⟨hop, hoperand⟩
  | .step _ operand op, ⟨hoperand, hop⟩ => by
      refine (check_pointsAt hoperand).bind fun operand hoperand => ?_
      exact (typeUnary_pointsAt hop hoperand).bind fun _ => .pure ⟨hoperand, hop⟩
  | .literal _ token, h => .pure h
  | .group _ opening inner closing, ⟨hopening, hinner, hclosing⟩ =>
      (check_pointsAt hinner).bind fun _ hinner => .pure ⟨hopening, hinner, hclosing⟩
  | .variable _ name, h => (typeVariable_pointsAt h).bind fun _ => .pure h
  | .call _ callee opening void arguments closing, ⟨hcallee, harguments, hclosing⟩ => by
      refine (checkAll_pointsAt harguments).bind fun arguments ⟨harguments, _⟩ => ?_
      exact (typeCall_pointsAt hcallee harguments (.join (.token hcallee) (.token hclosing))).bind
        fun _ => .pure ⟨hcallee, harguments, hclosing⟩
  | .arrayCall _ callee bracket size bracketEnd opening void arguments closing,
      ⟨hcallee, hsize, harguments, hclosing⟩ => by
      refine (check_pointsAt hsize).bind fun size hsize => ?_
      refine (typeLength_pointsAt hsize).bind fun length => ?_
      refine (checkAll_pointsAt harguments).bind fun arguments ⟨harguments, _⟩ => ?_
      have hlocation := Location.JoinedFrom.join (.token hcallee) (.token hclosing)
      exact (typeArrayConstructor_pointsAt hcallee harguments hlocation).bind
        fun _ => .pure ⟨hcallee, hsize, harguments, hclosing⟩
  | .field _ operand dot selector, ⟨hoperand, hselector⟩ => by
      refine (check_pointsAt hoperand).bind fun operand hoperand => ?_
      exact (typeField_pointsAt hselector).bind fun _ => .pure ⟨hoperand, hselector⟩
  | .index _ operand opening position closing, ⟨hoperand, hposition, hclosing⟩ => by
      refine (check_pointsAt hoperand).bind fun operand hoperand => ?_
      refine (check_pointsAt hposition).bind fun position hposition => ?_
      exact (typeIndex_pointsAt hoperand hposition).bind
        fun _ => .pure ⟨hoperand, hposition, hclosing⟩
  | .list _ exprs, ⟨hne, hexprs⟩ =>
      (checkAll_pointsAt hexprs).bind fun _ h =>
        .pure ⟨List.ne_nil_of_length_pos (h.2 ▸ List.length_pos_iff.2 hne), h.1⟩

theorem checkAll_pointsAt : ∀ {es : List Expr}, EachMadeOf part es →
    (checkAll c es).Finds (SemanticError.PointsAt names part) fun es' =>
      EachMadeOf part es' ∧ es'.length = es.length
  | [], _ => .pure ⟨trivial, rfl⟩
  | e :: es, h => by
      refine (check_pointsAt h.1).bind fun e he => ?_
      exact (checkAll_pointsAt h.2).bind
        fun es hes => .pure ⟨⟨he, hes.1⟩, congrArg (· + 1) hes.2⟩

end

end Expr

theorem ArraySize.check_pointsAt {size : ArraySize} (h : size.MadeOf part) :
    (size.check c).Finds (SemanticError.PointsAt names part) fun checked =>
      checked.1.MadeOf part := by
  refine (Expr.check_pointsAt h.size).bind fun e he => ?_
  exact (typeLength_pointsAt he).bind fun _ => .pure ⟨he, h.closing⟩

end Essl
