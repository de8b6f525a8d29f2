import Essl.Proofs.Typing.ExprPlacing
import Essl.Typing.Shader

/-!
# Disputes between declarations of a function

A later declaration of a function may contradict an earlier one. What declares no function gives
no reason for a dispute: expressions, types, fields and variables, conditions and jumps.
-/

namespace Essl

/-- The problem is that a declaration of a function contradicts an earlier one of it. -/
def SemanticCause.isDispute : SemanticCause → Bool
  | functionRedefinition .. | prototypeAfterDefinition .. | returnTypeMismatch ..
  | parameterQualifierMismatch .. => true
  | _ => false

/-- None of the problems is a dispute. -/
abbrev Noted.Undisputed {α : Type} (x : Noted α) : Prop :=
  x.Finds (·.cause.isDispute = false) fun _ => True

namespace Noted.Undisputed

variable {α β : Type} {x : Noted α} {f : α → Noted β} {cause : SemanticCause} {location : Location}

theorem pure {a : α} : Undisputed (pure a) := Finds.pure trivial

theorem bind (hx : x.Undisputed) (hf : ∀ a, (f a).Undisputed) : (x >>= f).Undisputed :=
  Finds.bind hx fun a _ => hf a

theorem report (h : cause.isDispute = false) : (Essl.report cause location).Undisputed :=
  Finds.report h

theorem reported {a : α} (h : cause.isDispute = false) :
    Undisputed (do Essl.report cause location; Pure.pure a) :=
  Finds.reported h trivial

end Noted.Undisputed

variable {c : Context} {location : Location} {left right e : Expr} {op name selector : Token}

/-! ## Names -/

theorem Context.variableNamed?_undisputed : (c.variableNamed? name).Undisputed := by
  unfold variableNamed?
  split
  · exact .pure
  · exact .reported rfl
  · split
    · exact .pure
    · exact .reported rfl

theorem Context.typeNamed?_undisputed : (c.typeNamed? name).Undisputed := by
  unfold typeNamed?
  split
  · exact .pure
  · exact .reported rfl
  · split
    · exact .pure
    · exact .reported rfl

theorem typeVariable_undisputed : (typeVariable c name).Undisputed := by
  refine Context.variableNamed?_undisputed.bind fun found => ?_
  split <;> exact .pure

/-! ## Rules about types -/

theorem requireType_undisputed {expected actual : Option Ty} :
    (requireType expected actual location).Undisputed := by
  unfold requireType
  split
  · split
    · exact .pure
    · exact .report rfl
  · exact .pure

theorem requireBool_undisputed {type : Option Ty} : (requireBool type location).Undisputed := by
  unfold requireBool
  split
  · split
    · exact .pure
    · exact .report rfl
  · exact .pure

theorem requireWritable_undisputed : ∀ {e : Expr}, (requireWritable e).Undisputed
  | .variable info name => by
      unfold requireWritable
      split
      · split
        · exact .report rfl
        · exact .pure
      · exact .pure
  | .group _ _ inner _ => requireWritable_undisputed (e := inner)
  | .field _ operand _ _ => requireWritable_undisputed (e := operand)
  | .index _ operand _ _ _ => requireWritable_undisputed (e := operand)
  | .assignment .. | .ternary .. | .binary .. | .unary .. | .step .. | .literal .. | .call ..
  | .arrayCall .. | .list .. => by
      unfold requireWritable
      split
      · exact .report rfl
      · exact .pure

/-! ## Operators -/

theorem findOperator_undisputed {operator : String} {types : List Ty} :
    (findOperator operator types location).Undisputed := by
  unfold findOperator
  split
  · exact .pure
  · exact .reported rfl

theorem typeOperator_undisputed {operands : List Expr} :
    (typeOperator op operands).Undisputed := by
  unfold typeOperator
  split
  · exact .pure
  · refine findOperator_undisputed.bind fun f => ?_
    split <;> exact .pure

theorem typeBinary_undisputed : (typeBinary left op right).Undisputed := by
  unfold typeBinary
  split
  · exact .pure
  · exact .pure
  · exact .pure
  · split
    · split
      · exact .pure
      · exact typeOperator_undisputed
    · exact typeOperator_undisputed

theorem typeUnary_undisputed : (typeUnary op e).Undisputed := by
  unfold typeUnary
  exact Noted.Finds.first_if requireWritable_undisputed fun _ => typeOperator_undisputed

theorem checkCompound_undisputed {base : Operator} {leftType rightType : Ty} :
    (checkCompound base op leftType rightType right).Undisputed := by
  refine findOperator_undisputed.bind fun f => ?_
  split
  · exact requireType_undisputed
  · exact .pure

theorem typeAssignment_undisputed : (typeAssignment left op right).Undisputed := by
  refine requireWritable_undisputed.bind fun _ => ?_
  extract_lets finish
  have hfinish : ∀ u, (finish u).Undisputed := fun _ => .pure
  split
  · split
    · exact checkCompound_undisputed.bind hfinish
    · exact requireType_undisputed.bind hfinish
  · exact hfinish ()

theorem typeChoice_undisputed {condition : Expr} :
    (typeChoice condition left right).Undisputed := by
  unfold typeChoice
  extract_lets constant
  split
  · split
    · exact .pure
    · exact .reported rfl
  · exact .pure

/-! ## Selection -/

/-- A fault is about a component. -/
theorem SemanticCause.undisputed_of_component {cause : SemanticCause} {character : Char}
    (h : cause.component? = some character) : cause.isDispute = false := by
  unfold component? at h
  split at h
  · rfl
  · rfl
  · rfl
  · cases h

theorem typeSwizzle_undisputed {vector : Primitive} {constant : Option Value} :
    (typeSwizzle vector constant selector).Undisputed := by
  unfold typeSwizzle
  extract_lets components
  split
  · exact .reported rfl
  · split
    · rename_i fault hfault
      exact .reported (SemanticCause.undisputed_of_component (swizzleIndices_fault hfault).1)
    · exact .pure

theorem typeField_undisputed : (typeField e selector).Undisputed := by
  unfold typeField
  split
  · exact .pure
  · exact typeSwizzle_undisputed
  · split
    · exact .pure
    · exact .reported rfl
  · exact .reported rfl

theorem typePosition_undisputed {length : Nat} : (typePosition e length).Undisputed := by
  unfold typePosition
  split
  · exact .pure
  · split
    · exact .reported rfl
    · split
      · exact .reported rfl
      · split
        · exact .pure
        · exact .reported rfl

theorem typeIndex_undisputed : (typeIndex left right).Undisputed := by
  unfold typeIndex
  split
  · exact .pure
  · split
    · exact .reported rfl
    · exact typePosition_undisputed.bind fun _ => .pure

theorem typeLength_undisputed : (typeLength e).Undisputed := by
  unfold typeLength
  split
  · exact .pure
  · split
    · exact .reported rfl
    · split
      · exact .reported rfl
      · split
        · exact .reported rfl
        · exact .pure

/-! ## Calls and constructors -/

section

variable {arguments : List Expr}

theorem typePrimitiveConstructor_undisputed {target : Primitive} {types : List Ty} :
    (typePrimitiveConstructor target types arguments location).Undisputed := by
  unfold typePrimitiveConstructor
  extract_lets type
  split
  · exact .reported rfl
  · split
    · rename_i i cause hfault
      obtain ⟨type, rfl | rfl⟩ := constructorFault?_cause hfault
      · exact .reported rfl
      · exact .reported rfl
    · exact .reported rfl
    · exact .pure

theorem requireTypes_undisputed : ∀ {types : List (Option Ty)} {arguments : List Expr},
    (requireTypes types arguments).Undisputed
  | some _ :: _, _ :: _ =>
      requireType_undisputed.bind fun _ => requireTypes_undisputed.bind fun _ => .pure
  | none :: _, _ :: _ => by
      rw [requireTypes]
      exact requireTypes_undisputed
  | [], _ | some _ :: _, [] | none :: _, [] => .pure

theorem typeStructConstructor_undisputed {s : StructDef} :
    (typeStructConstructor s arguments location).Undisputed := by
  unfold typeStructConstructor
  split
  · exact .reported rfl
  · exact requireTypes_undisputed.bind fun _ => .pure

theorem typeArrayElements_undisputed {element : Ty} {length : Option Nat} :
    (typeArrayElements element length arguments location).Undisputed := by
  unfold typeArrayElements
  split
  · extract_lets type
    split
    · exact .reported rfl
    · exact requireTypes_undisputed.bind fun _ => .pure
  · exact .pure

theorem typeArrayConstructor_undisputed {length : Option Nat} :
    (typeArrayConstructor c name length arguments location).Undisputed := by
  refine Context.typeNamed?_undisputed.bind fun found => ?_
  split
  · exact .pure
  · split
    · exact typeArrayElements_undisputed
    · exact .reported rfl

theorem requireOutputs_undisputed : ∀ {parameters : List Parameter} {arguments : List Expr},
    (requireOutputs parameters arguments).Undisputed
  | parameter :: parameters, e :: arguments => by
      rw [requireOutputs]
      exact Noted.Finds.first_if requireWritable_undisputed fun _ => requireOutputs_undisputed
  | [], _ | _ :: _, [] => .pure

theorem typeCall_undisputed : (typeCall c name arguments location).Undisputed := by
  unfold typeCall
  split
  · exact .pure
  · split
    · exact requireOutputs_undisputed.bind fun _ => .pure
    · exact typeStructConstructor_undisputed
    · exact typePrimitiveConstructor_undisputed
    · split
      · exact .pure
      · exact .reported rfl

end

/-! ## Expressions -/

namespace Expr

mutual

theorem check_undisputed : ∀ e : Expr, (e.check c).Undisputed
  | .assignment _ left op right => by
      refine (check_undisputed left).bind fun left => ?_
      refine (check_undisputed right).bind fun right => ?_
      exact typeAssignment_undisputed.bind fun _ => .pure
  | .ternary _ condition question whenTrue colon whenFalse => by
      refine (check_undisputed condition).bind fun condition => ?_
      refine requireBool_undisputed.bind fun _ => ?_
      refine (check_undisputed whenTrue).bind fun whenTrue => ?_
      refine (check_undisputed whenFalse).bind fun whenFalse => ?_
      exact typeChoice_undisputed.bind fun _ => .pure
  | .binary _ left op right => by
      refine (check_undisputed left).bind fun left => ?_
      refine (check_undisputed right).bind fun right => ?_
      exact typeBinary_undisputed.bind fun _ => .pure
  | .unary _ op operand => by
      refine (check_undisputed operand).bind fun operand => ?_
      exact typeUnary_undisputed.bind fun _ => .pure
  | .step _ operand op => by
      refine (check_undisputed operand).bind fun operand => ?_
      exact typeUnary_undisputed.bind fun _ => .pure
  | .literal _ token => .pure
  | .group _ opening inner closing => (check_undisputed inner).bind fun _ => .pure
  | .variable _ name => typeVariable_undisputed.bind fun _ => .pure
  | .call _ callee opening void arguments closing => by
      refine (checkAll_undisputed arguments).bind fun arguments => ?_
      exact typeCall_undisputed.bind fun _ => .pure
  | .arrayCall _ callee bracket size bracketEnd opening void arguments closing => by
      refine (check_undisputed size).bind fun size => ?_
      refine typeLength_undisputed.bind fun length => ?_
      refine (checkAll_undisputed arguments).bind fun arguments => ?_
      exact typeArrayConstructor_undisputed.bind fun _ => .pure
  | .field _ operand dot selector => by
      refine (check_undisputed operand).bind fun operand => ?_
      exact typeField_undisputed.bind fun _ => .pure
  | .index _ operand opening position closing => by
      refine (check_undisputed operand).bind fun operand => ?_
      refine (check_undisputed position).bind fun position => ?_
      exact typeIndex_undisputed.bind fun _ => .pure
  | .list _ exprs => (checkAll_undisputed exprs).bind fun _ => .pure

theorem checkAll_undisputed : ∀ es : List Expr, (checkAll c es).Undisputed
  | [] => .pure
  | e :: es =>
      (check_undisputed e).bind fun _ => (checkAll_undisputed es).bind fun _ => .pure

end

end Expr

theorem ArraySize.check_undisputed {size : ArraySize} : (size.check c).Undisputed :=
  (Expr.check_undisputed size.size).bind fun _ => typeLength_undisputed.bind fun _ => .pure

/-! ## Types and variables -/

theorem requireStorage_undisputed {word : Token} : (requireStorage c word).Undisputed := by
  unfold requireStorage
  split
  · exact .pure
  · refine Noted.Finds.first_if (Noted.Undisputed.report rfl) fun _ => ?_
    split
    · exact Noted.Undisputed.report rfl
    · exact Noted.Undisputed.pure

theorem requireStorages_undisputed : ∀ words : List Token, (requireStorages c words).Undisputed
  | [] => .pure
  | _ :: words => requireStorage_undisputed.bind fun _ => requireStorages_undisputed words

theorem declaredType_undisputed {base : Option Ty} :
    ∀ size : Option ArraySize, (declaredType c base size).Undisputed
  | none => .pure
  | some _ => ArraySize.check_undisputed.bind fun _ => .pure

theorem requireNotVoid_undisputed {type : Option Ty} {name : String} :
    (requireNotVoid type name location).Undisputed := by
  unfold requireNotVoid
  split
  · exact .report rfl
  · exact .pure

theorem checkFieldNames_undisputed {base : Option Ty} : ∀ (ds : List Declarator)
    {fields : List Field}, (checkFieldNames c base fields ds).Undisputed
  | [], _ => .pure
  | d :: ds, fields => by
      refine (declaredType_undisputed d.size).bind fun checked => ?_
      refine requireNotVoid_undisputed.bind fun _ => ?_
      extract_lets typed field
      split
      · rename_i previous _
        refine Noted.Undisputed.bind (.report rfl) fun _ => ?_
        exact (checkFieldNames_undisputed ds).bind fun _ => .pure
      · exact (checkFieldNames_undisputed ds).bind fun _ => .pure

theorem requireConstant_undisputed {d : Declarator} : (requireConstant d).Undisputed := by
  unfold requireConstant
  split
  · exact .report rfl
  · split
    · exact .report rfl
    · exact .pure

theorem checkInitializer_undisputed {type : Option Ty} :
    ∀ initializer : Option Expr, (checkInitializer c type initializer).Undisputed
  | none => .pure
  | some e => (Expr.check_undisputed e).bind fun _ => requireType_undisputed.bind fun _ => .pure

theorem requireNoVoid_undisputed : ∀ parameters : List Parameter,
    (requireNoVoid location parameters).Undisputed
  | [] => .pure
  | _ :: parameters => requireNotVoid_undisputed.bind fun _ => requireNoVoid_undisputed parameters

/-! ## Names and jumps -/

theorem checkInvariants_undisputed : ∀ ns : List InvariantName,
    (checkInvariants c ns).Undisputed
  | [] => .pure
  | _ :: ns =>
      Context.variableNamed?_undisputed.bind fun _ =>
        (checkInvariants_undisputed ns).bind fun _ => .pure

theorem requireLoop_undisputed {keyword : Token} : (requireLoop c keyword).Undisputed := by
  unfold requireLoop
  split
  case h_3 => exact .pure
  all_goals
    split
    · split
      · exact .report rfl
      · exact .pure
    · exact .pure

theorem requireReturn_undisputed {keyword : Token} {value : Option Expr} :
    (requireReturn c keyword value).Undisputed := by
  unfold requireReturn
  split
  · exact .pure
  · split
    · split
      · exact .pure
      · exact .report rfl
    · exact .pure
  · split
    · exact .pure
    · exact .report rfl

end Essl
