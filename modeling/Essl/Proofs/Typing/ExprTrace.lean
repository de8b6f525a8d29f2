import Essl.Proofs.Typing.Simulation
import Essl.Typing.Expr

/-!
# Typed expressions follow their events

Only names and what is written to are remarked upon; all other problems of expressions are about
types. By induction on the expression, typing it follows the events that the typed expression has.
-/

namespace Essl

variable {c : Context}

/-! ## Rules about types -/

theorem requireType_quiet (expected actual : Option Ty) (location : Location) :
    (requireType expected actual location).Quiet := by
  unfold requireType
  split
  · split <;> rfl
  · rfl

theorem requireBool_quiet (type : Option Ty) (location : Location) :
    (requireBool type location).Quiet := by
  unfold requireBool
  split
  · split <;> rfl
  · rfl

theorem findOperator_quiet (name : String) (types : List Ty) (location : Location) :
    (findOperator name types location).Quiet := by
  unfold findOperator
  split <;> rfl

theorem typeOperator_quiet (op : Token) (operands : List Expr) :
    (typeOperator op operands).Quiet := by
  unfold typeOperator
  split
  · rfl
  · refine (findOperator_quiet _ _ _).bind fun f => ?_
    split <;> rfl

theorem typeBinary_quiet (left : Expr) (op : Token) (right : Expr) :
    (typeBinary left op right).Quiet := by
  unfold typeBinary
  split
  · rfl
  · rfl
  · rfl
  · split
    · split
      · rfl
      · exact typeOperator_quiet _ _
    · exact typeOperator_quiet _ _

theorem checkCompound_quiet (base : Operator) (op : Token) (leftType rightType : Ty)
    (right : Expr) : (checkCompound base op leftType rightType right).Quiet := by
  refine (findOperator_quiet _ _ _).bind fun f => ?_
  split
  · exact requireType_quiet _ _ _
  · rfl

theorem typeChoice_quiet (condition whenTrue whenFalse : Expr) :
    (typeChoice condition whenTrue whenFalse).Quiet := by
  unfold typeChoice
  extract_lets
  split
  · split <;> rfl
  · rfl

theorem typeLength_quiet (size : Expr) : (typeLength size).Quiet := by
  unfold typeLength
  split
  · rfl
  · split
    · rfl
    · split
      · rfl
      · split <;> rfl

/-! ## Selections -/

theorem swizzleIndices_quiet {vector : Primitive} : ∀ {set : Option Nat} {offset : Nat}
    {names : List Char} {fault : SwizzleFault},
      swizzleIndices vector set offset names = .error fault → fault.cause.remark? = none
  | _, _, [], _, h => by cases h
  | _, offset, name :: names, fault, h => by
      rw [swizzleIndices] at h
      split at h
      · cases h
        rfl
      · rename_i own index _
        split at h
        · cases h
          rfl
        · split at h
          · cases h
            rfl
          · cases hrest : swizzleIndices vector (some own) (offset + name.utf8Size) names with
            | ok indices =>
                rw [hrest] at h
                cases h
            | error rest =>
                rw [hrest] at h
                cases h
                exact swizzleIndices_quiet hrest

theorem typeSwizzle_quiet (vector : Primitive) (constant : Option Value) (selector : Token) :
    (typeSwizzle vector constant selector).Quiet := by
  unfold typeSwizzle
  extract_lets names
  split
  · rfl
  · split
    · rename_i fault hfault
      exact .reported (swizzleIndices_quiet hfault)
    · rfl

theorem typeField_quiet (operand : Expr) (selector : Token) :
    (typeField operand selector).Quiet := by
  unfold typeField
  split
  · rfl
  · exact typeSwizzle_quiet _ _ _
  · split <;> rfl
  · rfl

theorem typePosition_quiet (index : Expr) (length : Nat) : (typePosition index length).Quiet := by
  unfold typePosition
  split
  · rfl
  · split
    · rfl
    · split
      · rfl
      · split <;> rfl

theorem typeIndex_quiet (operand index : Expr) : (typeIndex operand index).Quiet := by
  unfold typeIndex
  split
  · rfl
  · split
    · rfl
    · exact (typePosition_quiet _ _).bind fun _ => .pure

/-! ## Constructors -/

/-- The argument does not belong, or there are enough without it. -/
def SemanticCause.IsAboutArgument (cause : SemanticCause) : Prop :=
  ∃ type, cause = .invalidConstructorArgument type ∨ cause = .tooManyConstructorArguments type

theorem supplyFault?_cause {target : Primitive} : ∀ {supplied position : Nat}
    {parts : List Primitive} {i : Nat} {cause : SemanticCause},
      supplyFault? target supplied position parts = some (.argument i cause) →
        cause.IsAboutArgument
  | _, _, [], _, _, h => by
      rw [supplyFault?] at h
      split at h <;> cases h
  | _, _, _ :: _, _, _, h => by
      rw [supplyFault?] at h
      split at h
      · cases h
        exact ⟨_, .inr rfl⟩
      · exact supplyFault?_cause h

theorem partsFault?_cause {target : Primitive} {parts : List Primitive} {i : Nat}
    {cause : SemanticCause} (h : partsFault? target parts = some (.argument i cause)) :
    cause.IsAboutArgument := by
  unfold partsFault? at h
  extract_lets general at h
  have hgeneral : general = some (.argument i cause) → cause.IsAboutArgument := by
    intro hgeneral
    dsimp only [general] at hgeneral
    split at hgeneral
    · obtain ⟨p, -, hcause⟩ := Option.map_eq_some_iff.1 hgeneral
      cases hcause
      exact ⟨_, .inl rfl⟩
    · exact supplyFault?_cause hgeneral
  split at h
  · cases h
  · split at h
    · cases h
    · exact hgeneral h
  · exact hgeneral h

theorem constructorFault?_cause {target : Primitive} {types : List Ty} {i : Nat}
    {cause : SemanticCause} (h : constructorFault? target types = some (.argument i cause)) :
    cause.IsAboutArgument := by
  unfold constructorFault? at h
  split at h
  · obtain ⟨type, -, hcause⟩ := Option.map_eq_some_iff.1 h
    cases hcause
    exact ⟨_, .inl rfl⟩
  · exact partsFault?_cause h

theorem typePrimitiveConstructor_quiet (target : Primitive) (types : List Ty)
    (arguments : List Expr) (location : Location) :
    (typePrimitiveConstructor target types arguments location).Quiet := by
  unfold typePrimitiveConstructor
  extract_lets type
  split
  · rfl
  · split
    · rename_i i cause hfault
      obtain ⟨t, rfl | rfl⟩ := constructorFault?_cause hfault
      · exact .reported rfl
      · exact .reported rfl
    · rfl
    · rfl

theorem requireTypes_quiet : ∀ (types : List (Option Ty)) (arguments : List Expr),
    (requireTypes types arguments).Quiet
  | some _ :: types, _ :: arguments =>
      (requireType_quiet _ _ _).bind fun _ => (requireTypes_quiet types arguments).bind
        fun _ => .pure
  | none :: types, _ :: arguments => requireTypes_quiet types arguments
  | [], _ | some _ :: _, [] | none :: _, [] => rfl

theorem typeStructConstructor_quiet (s : StructDef) (arguments : List Expr)
    (location : Location) : (typeStructConstructor s arguments location).Quiet := by
  unfold typeStructConstructor
  split
  · rfl
  · exact (requireTypes_quiet _ _).bind fun _ => .pure

theorem typeArrayElements_quiet (element : Ty) (length : Option Nat) (arguments : List Expr)
    (location : Location) : (typeArrayElements element length arguments location).Quiet := by
  unfold typeArrayElements
  split
  · extract_lets
    split
    · rfl
    · exact (requireTypes_quiet _ _).bind fun _ => .pure
  · rfl

/-! ## Names and what is written to -/

theorem typeVariable_notes (name : Token) :
    (typeVariable c name).Notes c fun info events => events = [.reference name info.symbol] := by
  have hproblems : (typeVariable c name).problems = (c.variableNamed? name).problems := by
    unfold typeVariable
    simp only [Noted.problems_bind]
    split <;> exact List.append_nil _
  have hsymbol : (typeVariable c name).value.symbol =
      (c.env.variableNamed? c.stage name.text).map .variable := by
    rw [← Context.variableNamed?_value]
    unfold typeVariable
    simp only [Noted.value_bind]
    cases (c.variableNamed? name).value <;> rfl
  refine .event rfl rfl ?_ hsymbol
  rw [hproblems, Context.remarksIn_variableNamed?]
  rfl

theorem typeArrayConstructor_notes (callee : Token) (length : Option Nat) (arguments : List Expr)
    (location : Location) :
    (typeArrayConstructor c callee length arguments location).Notes c fun _ events =>
      events = [.typeName callee] := by
  refine (Noted.Notes.event (P := fun _ events => events = [.typeName callee]) rfl rfl
    (Context.remarksIn_typeNamed? callee) trivial).bind ?_
  rintro type _ rfl
  split
  · exact .pure rfl
  · split
    · exact (Noted.Notes.quiet (typeArrayElements_quiet _ _ _ _)).mono fun _ _ h => by rw [h.2]; rfl
    · exact .skip rfl fun _ => .pure rfl

/-- What is checked is what stands inside all parentheses, selections and indices. -/
theorem remarksIn_requireWritable : ∀ target : Expr,
    remarksIn (requireWritable target).problems = target.writeRemarks
  | .variable ⟨_, symbol, _⟩ name => by
      unfold requireWritable Expr.writeRemarks Expr.root
      cases symbol with
      | none => rfl
      | some symbol =>
          cases symbol with
          | «variable» v =>
              dsimp only
              split <;> rfl
          | function f => rfl
          | struct s => rfl
  | .group _ _ inner _ => remarksIn_requireWritable inner
  | .field _ operand _ _ | .index _ operand _ _ _ => remarksIn_requireWritable operand
  | .assignment .. | .ternary .. | .binary .. | .unary .. | .step .. | .literal .. | .call ..
  | .arrayCall .. | .list .. => by
      unfold requireWritable Expr.writeRemarks Expr.root
      dsimp only
      split <;> rfl

theorem requireWritable_notes (target : Expr) :
    (requireWritable target).Notes c fun _ events => events = [.write target] :=
  .event rfl rfl (remarksIn_requireWritable target) trivial

theorem typeAssignment_notes (left : Expr) (op : Token) (right : Expr) :
    (typeAssignment left op right).Notes c fun _ events => events = [.write left] := by
  refine (requireWritable_notes left).bind ?_
  rintro _ _ rfl
  split
  · split
    · exact .skip (checkCompound_quiet _ _ _ _ _) fun _ => .pure rfl
    · exact .skip (requireType_quiet _ _ _) fun _ => .pure rfl
  · exact Noted.Notes.pure (a := ExprInfo.ofType left.info.type) rfl

theorem typeUnary_notes (op : Token) (operand : Expr) :
    (typeUnary op operand).Notes c fun _ events =>
      events = (if op.isOperator .increment || op.isOperator .decrement then [operand]
        else []).map .write := by
  unfold typeUnary
  split
  · refine (requireWritable_notes operand).bind ?_
    rintro _ _ rfl
    exact (Noted.Notes.quiet (typeOperator_quiet _ _)).mono fun _ _ h => by rw [h.2]; rfl
  · exact (Noted.Notes.quiet (typeOperator_quiet _ _)).mono fun _ _ h => by rw [h.2]; rfl

theorem requireOutputs_notes : ∀ (parameters : List Parameter) (arguments : List Expr),
    (requireOutputs parameters arguments).Notes c fun _ events =>
      events = (outputs parameters arguments).map .write
  | p :: parameters, e :: arguments => by
      have hrest := requireOutputs_notes parameters arguments
      unfold requireOutputs outputs
      split
      · refine (requireWritable_notes e).bind ?_
        rintro _ _ rfl
        exact hrest.mono fun _ _ h => by rw [h]; rfl
      · exact hrest
  | [], _ | _ :: _, [] => .pure rfl

theorem typeStructConstructor_symbol_ne (s : StructDef) (arguments : List Expr)
    (location : Location) (f : Function) :
    (typeStructConstructor s arguments location).value.symbol ≠ some (.function f) := by
  intro h
  unfold typeStructConstructor at h
  split at h <;> cases h

theorem typePrimitiveConstructor_symbol (target : Primitive) (types : List Ty)
    (arguments : List Expr) (location : Location) :
    (typePrimitiveConstructor target types arguments location).value.symbol = none := by
  unfold typePrimitiveConstructor
  extract_lets type
  split
  · rfl
  · split <;> rfl

/-- Only functions write to arguments. -/
theorem typeCall_notes (callee : Token) (arguments : List Expr) (location : Location) :
    (typeCall c callee arguments location).Notes c fun info events =>
      ∀ opening void closing,
        events = (Expr.call info callee opening void arguments closing).acts := by
  have of_quiet {x : Noted ExprInfo} (hx : x.Quiet)
      (hvalue : ∀ f, x.value.symbol ≠ some (.function f)) : x.Notes c fun info events =>
        ∀ opening void closing,
          events = (Expr.call info callee opening void arguments closing).acts := by
    refine (Noted.Notes.quiet hx).mono ?_
    rintro info events ⟨rfl, rfl⟩ opening void closing
    have hacts : (Expr.call x.value callee opening void arguments closing).acts =
        (Expr.call x.value callee opening void arguments closing).targets.map .write := rfl
    rw [hacts, Expr.targets]
    split
    · rename_i f hf
      exact absurd hf (hvalue f)
    · rfl
  unfold typeCall
  split
  · exact of_quiet rfl nofun
  · split
    · rename_i f _
      refine (requireOutputs_notes f.parameters arguments).bind ?_
      rintro _ _ rfl
      exact .pure fun _ _ _ => List.append_nil _
    · exact of_quiet (typeStructConstructor_quiet _ _ _)
        (typeStructConstructor_symbol_ne _ _ _)
    · refine of_quiet (typePrimitiveConstructor_quiet _ _ _ _) fun f h => ?_
      rw [typePrimitiveConstructor_symbol] at h
      cases h
    · split
      · exact of_quiet rfl nofun
      · exact of_quiet rfl nofun

namespace Expr

mutual

theorem check_notes : ∀ e : Expr, (e.check c).Notes c fun e' events => events = e'.events
  | .assignment _ left op right => by
      refine (check_notes left).bind ?_
      rintro left _ rfl
      refine (check_notes right).bind ?_
      rintro right _ rfl
      refine (typeAssignment_notes left op right).bind ?_
      rintro info _ rfl
      exact .pure (by simp [events, acts, targets])
  | .ternary _ condition question whenTrue colon whenFalse => by
      refine (check_notes condition).bind ?_
      rintro condition _ rfl
      refine .skip (requireBool_quiet _ _) fun _ => ?_
      refine (check_notes whenTrue).bind ?_
      rintro whenTrue _ rfl
      refine (check_notes whenFalse).bind ?_
      rintro whenFalse _ rfl
      exact .skip (typeChoice_quiet _ _ _) fun _ => .pure (by simp [events, acts, targets])
  | .binary _ left op right => by
      refine (check_notes left).bind ?_
      rintro left _ rfl
      refine (check_notes right).bind ?_
      rintro right _ rfl
      exact .skip (typeBinary_quiet _ _ _) fun _ => .pure (by simp [events, acts, targets])
  | .unary _ op operand => by
      refine (check_notes operand).bind ?_
      rintro operand _ rfl
      refine (typeUnary_notes op operand).bind ?_
      rintro info _ rfl
      exact .pure (by simp [events, acts, targets])
  | .step _ operand op => by
      refine (check_notes operand).bind ?_
      rintro operand _ rfl
      refine (typeUnary_notes op operand).bind ?_
      rintro info _ rfl
      exact .pure (by simp [events, acts, targets])
  | .literal _ token => .pure rfl
  | .group _ opening inner closing => by
      refine (check_notes inner).bind ?_
      rintro inner _ rfl
      exact .pure (by simp [events, acts, targets])
  | .variable _ name => by
      refine (typeVariable_notes name).bind ?_
      rintro info _ rfl
      exact .pure rfl
  | .call _ callee opening void arguments closing => by
      refine (checkAll_notes arguments).bind ?_
      rintro arguments _ rfl
      refine (typeCall_notes callee arguments _).bind ?_
      intro info events hevents
      exact .pure (by simp [Expr.events, hevents opening void closing])
  | .arrayCall _ callee bracket size bracketEnd opening void arguments closing => by
      refine (check_notes size).bind ?_
      rintro size _ rfl
      refine .skip (typeLength_quiet size) fun length => ?_
      refine (checkAll_notes arguments).bind ?_
      rintro arguments _ rfl
      refine (typeArrayConstructor_notes callee length arguments _).bind ?_
      rintro info _ rfl
      exact .pure (by simp [events, acts])
  | .field _ operand dot selector => by
      refine (check_notes operand).bind ?_
      rintro operand _ rfl
      exact .skip (typeField_quiet _ _) fun _ => .pure (by simp [events, acts, targets])
  | .index _ operand opening position closing => by
      refine (check_notes operand).bind ?_
      rintro operand _ rfl
      refine (check_notes position).bind ?_
      rintro position _ rfl
      exact .skip (typeIndex_quiet _ _) fun _ => .pure (by simp [events, acts, targets])
  | .list _ exprs => by
      refine (checkAll_notes exprs).bind ?_
      rintro exprs _ rfl
      exact .pure (by simp [events, acts, targets])

theorem checkAll_notes : ∀ es : List Expr,
    (checkAll c es).Notes c fun es' events => events = eventsOfEach es'
  | [] => .pure rfl
  | e :: es => by
      refine (check_notes e).bind ?_
      rintro e _ rfl
      refine (checkAll_notes es).bind ?_
      rintro es _ rfl
      exact .pure (by simp [eventsOfEach])

end

end Expr

theorem ArraySize.check_notes (size : ArraySize) :
    (size.check c).Notes c fun sized events => events = sized.1.size.events := by
  refine (Expr.check_notes size.size).bind ?_
  rintro expr _ rfl
  exact .skip (typeLength_quiet expr) fun _ => .pure (List.append_nil _)

end Essl
