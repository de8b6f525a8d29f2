import Essl.Proofs.Builtin.Evaluation
import Essl.Proofs.Tree.Nodes
import Essl.Proofs.Typing.Declared
import Essl.Typing.Expr

/-!
# Arrays have elements

No array type that typing writes into an expression is empty: array types come from sizes, which
have to be positive, and from what is declared.
-/

namespace Essl

/-! ## Types -/

mutual

/-- Every array in the type has elements, also in the fields of structs. -/
def Ty.Sized : Ty → Prop
  | .primitive _ => True
  | .array element length => 1 ≤ length ∧ element.Sized
  | .struct s => s.Sized

def StructDef.Sized : StructDef → Prop
  | ⟨_, _, fields, _⟩ => Field.AllSized fields

def Field.AllSized : List Field → Prop
  | [] => True
  | ⟨_, some type, _⟩ :: fields => type.Sized ∧ Field.AllSized fields
  | ⟨_, none, _⟩ :: fields => Field.AllSized fields

end

/-- Every array in the type, if it is known, has elements. -/
def SizedType (type : Option Ty) : Prop := ∀ t ∈ type, t.Sized

section

variable {type : Option Ty} {t : Ty}

@[simp] theorem sizedType_none : SizedType none := fun _ h => nomatch h

@[simp] theorem sizedType_some : SizedType (some t) ↔ t.Sized := by simp [SizedType]

@[simp] theorem Ty.sized_primitive {p : Primitive} : (Ty.primitive p).Sized := trivial

theorem Field.allSized_iff {fields : List Field} :
    Field.AllSized fields ↔ ∀ field ∈ fields, SizedType field.type := by
  induction fields with
  | nil => simp [Field.AllSized]
  | cons field fields ih =>
      obtain ⟨name, type, location⟩ := field
      cases type <;> simp [Field.AllSized, ih]

theorem StructDef.sized_iff {s : StructDef} :
    s.Sized ↔ ∀ field ∈ s.fields, SizedType field.type := by
  obtain ⟨id, name, fields, location⟩ := s
  exact Field.allSized_iff

theorem StructDef.Sized.find? {s : StructDef} (h : s.Sized) {name : String} {i : Nat}
    {field : Field} (hfound : s.find? name = some (i, field)) : SizedType field.type := by
  obtain ⟨j, -, hj⟩ := Option.bind_eq_some_iff.1 hfound
  obtain ⟨found, hfield, heq⟩ := Option.map_eq_some_iff.1 hj
  obtain ⟨-, rfl⟩ := Prod.mk.inj heq
  exact StructDef.sized_iff.1 h found (List.mem_of_getElem? hfield)

end

/-! ## Symbols -/

/-- The types of the parameters and of the result have no empty arrays. -/
structure Function.Sized (f : Function) : Prop where
  returnType : f.returnType.Sized
  parameters : ∀ p ∈ f.parameters, p.type.Sized

def Symbol.Sized : Symbol → Prop
  | .variable v => SizedType v.type
  | .struct s => s.Sized
  | .function f => f.Sized

/-- Nothing in scope has an empty array in its type. -/
abbrev Context.Sized : Context → Prop := Context.All Symbol.Sized Function.Sized

theorem Function.Faithful.sized {f : Function} (h : f.Faithful) : f.Sized := by
  obtain ⟨-, parameters, result, hparameters, hresult, -⟩ := h
  refine ⟨by simp [hresult], fun p hp => ?_⟩
  have hmem : p.type ∈ parameters.map Ty.primitive := hparameters ▸ List.mem_map_of_mem hp
  obtain ⟨primitive, -, heq⟩ := List.mem_map.1 hmem
  simp [← heq]

theorem Builtin.variableNamed?_sized {name : String} {stage : Stage} {v : Variable}
    (h : Builtin.variableNamed? name stage = some v) : SizedType v.type := by
  have hstage : ∀ v ∈ Builtin.stageVariables stage, SizedType v.type := by
    cases stage <;> simp [Builtin.stageVariables, Builtin.stageVariable, Ty.Sized]
  have hconstants : ∀ v ∈ Builtin.constants, SizedType v.type := by
    intro v hv
    obtain ⟨_, -, rfl⟩ := List.mem_map.1 hv
    exact sizedType_some.2 trivial
  rcases List.mem_append.1 (List.mem_of_find?_eq_some h) with hv | hv
  · exact hstage v hv
  · exact hconstants v hv

/-- What is known of an expression has no empty arrays in it. -/
structure ExprInfo.Sized (info : ExprInfo) : Prop where
  type : SizedType info.type
  symbol : ∀ s ∈ info.symbol, s.Sized

namespace ExprInfo

variable {type : Option Ty}

@[simp] theorem sized_none : ExprInfo.none.Sized := ⟨sizedType_none, fun _ h => nomatch h⟩

@[simp] theorem sized_ofType : (ofType type).Sized ↔ SizedType type :=
  ⟨Sized.type, fun h => ⟨h, fun _ h => nomatch h⟩⟩

@[simp] theorem sized_ofValue {t : Ty} {constant : Option Value} :
    (ofValue t constant).Sized ↔ t.Sized :=
  ⟨fun h => h.type t rfl, fun h => ⟨sizedType_some.2 h, fun _ h => nomatch h⟩⟩

end ExprInfo

variable {clean : Prop} {c : Context}

/-! ## Names and operators -/

theorem Context.Sized.variableNamed? (hc : c.Sized) (name : Token) :
    (c.variableNamed? name).Ensures clean fun found => ∀ v ∈ found, SizedType v.type := by
  unfold Context.variableNamed?
  split
  · rename_i v hv
    apply Noted.Ensures.pure
    rintro _ ⟨⟩
    exact hc.lookup hv
  · exact Noted.Ensures.reported fun _ => by simp
  · split
    · rename_i v hv
      apply Noted.Ensures.pure
      rintro _ ⟨⟩
      exact Builtin.variableNamed?_sized hv
    · exact Noted.Ensures.reported fun _ => by simp

theorem Context.Sized.typeNamed? (hc : c.Sized) (name : Token) :
    (c.typeNamed? name).Ensures clean SizedType := by
  unfold Context.typeNamed?
  split
  · rename_i s hs
    exact Noted.Ensures.pure (sizedType_some.2 (hc.lookup hs))
  · exact Noted.Ensures.reported fun _ => sizedType_none
  · split
    · exact Noted.Ensures.pure (sizedType_some.2 Ty.sized_primitive)
    · exact Noted.Ensures.reported fun _ => sizedType_none

theorem Context.Sized.function? (hc : c.Sized) {name : String} {types : List Ty} {f : Function}
    (h : c.function? name types = some f) : f.Sized := by
  rcases Option.or_eq_some_iff.1 h with h | ⟨-, h⟩
  · exact hc.lookupFunction h
  · exact (Builtin.functions_faithful f (Builtin.mem_of_lookup_signature h).1).sized

theorem typeLiteral_sized (token : Token) : (typeLiteral token).Sized := by
  unfold typeLiteral
  split <;> simp

theorem typeVariable_sized (hc : c.Sized) (name : Token) :
    (typeVariable c name).Ensures clean ExprInfo.Sized := by
  refine (hc.variableNamed? name).bind fun found hfound => ?_
  cases found with
  | none => exact Noted.Ensures.pure ExprInfo.sized_none
  | some v =>
      apply Noted.Ensures.pure
      refine ⟨hfound v rfl, ?_⟩
      rintro _ ⟨⟩
      exact hfound v rfl

theorem typeOperator_sized (op : Token) (operands : List Expr) :
    (typeOperator op operands).Ensures clean ExprInfo.Sized := by
  unfold typeOperator
  split
  · exact Noted.Ensures.pure ExprInfo.sized_none
  · rename_i types _
    have hfound : (findOperator op.text types op.location).Ensures clean
        fun found => ∀ f ∈ found, f.Sized := by
      unfold findOperator
      split
      · rename_i f hf
        apply Noted.Ensures.pure
        rintro _ ⟨⟩
        exact (Builtin.operators_faithful f (Builtin.mem_of_lookup_signature hf).1).sized
      · exact Noted.Ensures.reported fun _ => by simp
    refine hfound.bind fun found hf => ?_
    cases found with
    | none => exact Noted.Ensures.pure ExprInfo.sized_none
    | some f => exact Noted.Ensures.pure (ExprInfo.sized_ofValue.2 (hf f rfl).returnType)

theorem typeUnary_sized (op : Token) (operand : Expr) :
    (typeUnary op operand).Ensures clean ExprInfo.Sized := by
  unfold typeUnary
  dsimp only
  split
  · exact Noted.Ensures.andThen fun _ => typeOperator_sized op [operand]
  · exact typeOperator_sized op [operand]

section

variable {left right : Expr} (hleft : left.info.Sized) (hright : right.info.Sized)

include hleft hright

theorem typeBinary_sized (op : Token) :
    (typeBinary left op right).Ensures clean ExprInfo.Sized := by
  have hl := hleft.type
  have hr := hright.type
  unfold typeBinary
  split
  · exact Noted.Ensures.pure ExprInfo.sized_none
  · rename_i t ht _
    exact Noted.Ensures.pure (ExprInfo.sized_ofType.2 (ht ▸ hl))
  · rename_i t _ ht
    exact Noted.Ensures.pure (ExprInfo.sized_ofType.2 (ht ▸ hr))
  · split
    · split
      · exact Noted.Ensures.pure (ExprInfo.sized_ofValue.2 Ty.sized_primitive)
      · exact typeOperator_sized op _
    · exact typeOperator_sized op _

theorem typeChoice_sized (condition : Expr) :
    (typeChoice condition left right).Ensures clean ExprInfo.Sized := by
  have hl := hleft.type
  have hr := hright.type
  unfold typeChoice
  split
  · rename_i a b ha hb
    rw [ha] at hl
    split
    · exact Noted.Ensures.pure (ExprInfo.sized_ofValue.2 (sizedType_some.1 hl))
    · exact Noted.Ensures.reported fun _ => ExprInfo.sized_ofType.2 hl
  · rename_i a b _
    apply Noted.Ensures.pure
    refine ⟨?_, fun _ h => nomatch h⟩
    cases ha : left.info.type with
    | none => exact hr
    | some t =>
        rw [ha] at hl
        exact hl

end

theorem typeAssignment_sized {left : Expr} (hleft : left.info.Sized) (op : Token) (right : Expr) :
    (typeAssignment left op right).Ensures clean ExprInfo.Sized := by
  have hresult : (ExprInfo.ofType left.info.type).Sized := ExprInfo.sized_ofType.2 hleft.type
  refine Noted.Ensures.andThen fun _ => ?_
  split
  · split
    · exact Noted.Ensures.andThen fun _ => Noted.Ensures.pure hresult
    · exact Noted.Ensures.andThen fun _ => Noted.Ensures.pure hresult
  · exact Noted.Ensures.pure hresult

/-! ## Parts of values -/

theorem typeSwizzle_sized (vector : Primitive) (constant : Option Value) (selector : Token) :
    (typeSwizzle vector constant selector).Ensures clean ExprInfo.Sized := by
  unfold typeSwizzle
  dsimp only
  split
  · exact Noted.Ensures.reported fun _ => ExprInfo.sized_none
  · split
    · exact Noted.Ensures.reported fun _ => ExprInfo.sized_none
    · apply Noted.Ensures.pure
      split <;> simp

theorem typeField_sized {operand : Expr} (h : operand.info.Sized) (selector : Token) :
    (typeField operand selector).Ensures clean ExprInfo.Sized := by
  have htype := h.type
  unfold typeField
  split
  · exact Noted.Ensures.pure ExprInfo.sized_none
  · exact typeSwizzle_sized _ _ selector
  · rename_i s hs
    rw [hs] at htype
    have hsized : s.Sized := sizedType_some.1 htype
    split
    · rename_i i field hfield
      exact Noted.Ensures.pure ⟨hsized.find? hfield, fun _ h => nomatch h⟩
    · exact Noted.Ensures.reported fun _ => ExprInfo.sized_none
  · exact Noted.Ensures.reported fun _ => ExprInfo.sized_none

theorem Ty.Sized.indexed? {t part : Ty} {length : Nat} (h : t.Sized)
    (hindexed : Essl.indexed? t = some (part, length)) : part.Sized := by
  unfold Essl.indexed? at hindexed
  split at hindexed <;> cases hindexed
  · trivial
  · trivial
  · exact h.2

theorem typeIndex_sized {operand : Expr} (h : operand.info.Sized) (position : Expr) :
    (typeIndex operand position).Ensures clean ExprInfo.Sized := by
  have htype := h.type
  unfold typeIndex
  split
  · exact Noted.Ensures.pure ExprInfo.sized_none
  · rename_i t ht
    rw [ht] at htype
    split
    · exact Noted.Ensures.reported fun _ => ExprInfo.sized_none
    · rename_i part length hpart
      have hsized : part.Sized := (sizedType_some.1 htype).indexed? hpart
      exact Noted.Ensures.andThen fun _ =>
        Noted.Ensures.pure (ExprInfo.sized_ofValue.2 hsized)

/-! ## Calls and constructors -/

theorem typeLength_positive (size : Expr) :
    (typeLength size).Ensures clean fun length => ∀ n ∈ length, 1 ≤ n := by
  unfold typeLength
  split
  · exact Noted.Ensures.pure (by simp)
  · split
    · exact Noted.Ensures.reported fun _ => by simp
    · split
      · exact Noted.Ensures.reported fun _ => by simp
      · rename_i i _
        split
        · exact Noted.Ensures.reported fun _ => by simp
        · rename_i hpositive
          apply Noted.Ensures.pure
          rintro _ ⟨⟩
          have hi : (1 : Int) ≤ i.toInt := by
            simpa [Int32.lt_iff_toInt_lt] using hpositive
          omega

theorem typePrimitiveConstructor_sized (target : Primitive) (types : List Ty)
    (arguments : List Expr) (location : Location) :
    (typePrimitiveConstructor target types arguments location).Ensures clean ExprInfo.Sized := by
  unfold typePrimitiveConstructor
  dsimp only
  split
  · exact Noted.Ensures.reported fun _ => ExprInfo.sized_none
  · split
    · exact Noted.Ensures.reported fun _ => by simp
    · exact Noted.Ensures.reported fun _ => by simp
    · exact Noted.Ensures.pure (by simp)

theorem typeStructConstructor_sized {s : StructDef} (hs : s.Sized) (arguments : List Expr)
    (location : Location) :
    (typeStructConstructor s arguments location).Ensures clean ExprInfo.Sized := by
  unfold typeStructConstructor
  split
  · exact Noted.Ensures.reported fun _ => ExprInfo.sized_ofType.2 (sizedType_some.2 hs)
  · refine Noted.Ensures.andThen fun _ => Noted.Ensures.pure ⟨sizedType_some.2 hs, ?_⟩
    rintro _ ⟨⟩
    exact hs

theorem typeArrayConstructor_sized (hc : c.Sized) (callee : Token) {length : Option Nat}
    (hlength : ∀ n ∈ length, 1 ≤ n) (arguments : List Expr) (location : Location) :
    (typeArrayConstructor c callee length arguments location).Ensures clean ExprInfo.Sized := by
  refine (hc.typeNamed? callee).bind fun found hfound => ?_
  cases found with
  | none => exact Noted.Ensures.pure ExprInfo.sized_none
  | some element =>
      have helement : element.Sized := sizedType_some.1 hfound
      dsimp only
      split
      · unfold typeArrayElements
        split
        · rename_i n _ _
          have harray : (Ty.array element n).Sized := ⟨hlength n rfl, helement⟩
          dsimp only
          split
          · exact Noted.Ensures.reported fun _ =>
              ExprInfo.sized_ofType.2 (sizedType_some.2 harray)
          · exact Noted.Ensures.andThen fun _ =>
              Noted.Ensures.pure (ExprInfo.sized_ofValue.2 harray)
        · exact Noted.Ensures.pure ExprInfo.sized_none
      · exact Noted.Ensures.reported fun _ => ExprInfo.sized_none

theorem typeCall_sized (hc : c.Sized) (callee : Token) (arguments : List Expr)
    (location : Location) :
    (typeCall c callee arguments location).Ensures clean ExprInfo.Sized := by
  unfold typeCall
  split
  · exact Noted.Ensures.pure ExprInfo.sized_none
  · split
    · rename_i f hf
      have hsized : f.Sized := hc.function? hf
      refine Noted.Ensures.andThen fun _ => Noted.Ensures.pure ?_
      refine ⟨sizedType_some.2 hsized.returnType, ?_⟩
      rintro _ ⟨⟩
      exact hsized
    · rename_i s _ _ hs
      exact typeStructConstructor_sized (hc.lookup hs) arguments location
    · exact typePrimitiveConstructor_sized _ _ arguments location
    · split
      · exact Noted.Ensures.pure ExprInfo.sized_none
      · exact Noted.Ensures.reported fun _ => ExprInfo.sized_none

/-! ## Expressions -/

/-- The struct that is defined in place. -/
def TypeSpec.defined? : TypeSpec → Option StructDef
  | named .. => none
  | struct _ _ _ _ _ _ defined _ => defined

namespace Node

/-- Every array type at the node has elements. -/
def Sized : Node → Prop
  | expr e => e.info.Sized
  | typeSpec s => SizedType s.type ∧ ∀ d ∈ s.defined?, d.Sized
  | field d => SizedType d.type ∧ ∀ v ∈ d.symbol, SizedType v.type
  | declarator d => SizedType d.type ∧ ∀ v ∈ d.symbol, SizedType v.type
  | parameter p => SizedType p.type ∧ ∀ v ∈ p.symbol, SizedType v.type
  | header h => ∀ f ∈ h.symbol, f.Sized
  | condition _ => True
  | .return _ _ => True

end Node

namespace Expr

theorem sized_of_nodes {e : Expr} (h : AllNodes Node.Sized e.nodes) : e.info.Sized :=
  h _ e.expr_mem_nodes

theorem sized_last {es : List Expr} (h : AllNodes Node.Sized (nodesOfEach es)) :
    SizedType (es.getLast?.bind (·.info.type)) := by
  intro t ht
  obtain ⟨e, he, ht⟩ := Option.bind_eq_some_iff.1 ht
  exact (sized_of_nodes (allNodes_nodesOfEach.1 h e (List.mem_of_getLast? he))).type t ht

mutual

theorem check_sized (hc : c.Sized) : ∀ e : Expr,
    (e.check c).Ensures clean fun e' => AllNodes Node.Sized e'.nodes
  | .assignment _ left op right => by
      refine (check_sized hc left).bind fun left hleft => ?_
      refine (check_sized hc right).bind fun right hright => ?_
      refine (typeAssignment_sized (sized_of_nodes hleft) op right).bind
        fun info hinfo => Noted.Ensures.pure ?_
      simp only [nodes, allNodes_cons, allNodes_append]
      exact ⟨hinfo, hleft, hright⟩
  | .ternary _ condition question whenTrue colon whenFalse => by
      refine (check_sized hc condition).bind fun condition hcondition => ?_
      refine Noted.Ensures.andThen fun _ => ?_
      refine (check_sized hc whenTrue).bind fun whenTrue htrue => ?_
      refine (check_sized hc whenFalse).bind fun whenFalse hfalse => ?_
      refine (typeChoice_sized (sized_of_nodes htrue) (sized_of_nodes hfalse) condition).bind
        fun info hinfo => Noted.Ensures.pure ?_
      simp only [nodes, allNodes_cons, allNodes_append]
      exact ⟨hinfo, ⟨hcondition, htrue⟩, hfalse⟩
  | .binary _ left op right => by
      refine (check_sized hc left).bind fun left hleft => ?_
      refine (check_sized hc right).bind fun right hright => ?_
      refine (typeBinary_sized (sized_of_nodes hleft) (sized_of_nodes hright) op).bind
        fun info hinfo => Noted.Ensures.pure ?_
      simp only [nodes, allNodes_cons, allNodes_append]
      exact ⟨hinfo, hleft, hright⟩
  | .unary _ op operand => by
      refine (check_sized hc operand).bind fun operand hoperand => ?_
      refine (typeUnary_sized op operand).bind fun info hinfo => Noted.Ensures.pure ?_
      simp only [nodes, allNodes_cons]
      exact ⟨hinfo, hoperand⟩
  | .step _ operand op => by
      refine (check_sized hc operand).bind fun operand hoperand => ?_
      refine (typeUnary_sized op operand).bind fun info hinfo => Noted.Ensures.pure ?_
      simp only [nodes, allNodes_cons]
      exact ⟨hinfo, hoperand⟩
  | .literal _ token => by
      apply Noted.Ensures.pure
      simp only [nodes, allNodes_cons, allNodes_nil, and_true]
      exact typeLiteral_sized token
  | .group _ opening inner closing => by
      refine (check_sized hc inner).bind fun inner hinner => Noted.Ensures.pure ?_
      have hinfo : inner.info.Sized := sized_of_nodes hinner
      simp only [nodes, allNodes_cons]
      exact ⟨hinfo, hinner⟩
  | .variable _ name => by
      refine (typeVariable_sized hc name).bind fun info hinfo => Noted.Ensures.pure ?_
      simp only [nodes, allNodes_cons, allNodes_nil, and_true]
      exact hinfo
  | .call _ callee opening void arguments closing => by
      refine (checkAll_sized hc arguments).bind fun arguments harguments => ?_
      refine (typeCall_sized hc callee arguments _).bind fun info hinfo => Noted.Ensures.pure ?_
      simp only [nodes, allNodes_cons]
      exact ⟨hinfo, harguments⟩
  | .arrayCall _ callee bracket size bracketEnd opening void arguments closing => by
      refine (check_sized hc size).bind fun size hsize => ?_
      refine (typeLength_positive size).bind fun length hlength => ?_
      refine (checkAll_sized hc arguments).bind fun arguments harguments => ?_
      refine (typeArrayConstructor_sized hc callee hlength arguments _).bind
        fun info hinfo => Noted.Ensures.pure ?_
      simp only [nodes, allNodes_cons, allNodes_append]
      exact ⟨hinfo, hsize, harguments⟩
  | .field _ operand dot selector => by
      refine (check_sized hc operand).bind fun operand hoperand => ?_
      refine (typeField_sized (sized_of_nodes hoperand) selector).bind
        fun info hinfo => Noted.Ensures.pure ?_
      simp only [nodes, allNodes_cons]
      exact ⟨hinfo, hoperand⟩
  | .index _ operand opening position closing => by
      refine (check_sized hc operand).bind fun operand hoperand => ?_
      refine (check_sized hc position).bind fun position hposition => ?_
      refine (typeIndex_sized (sized_of_nodes hoperand) position).bind
        fun info hinfo => Noted.Ensures.pure ?_
      simp only [nodes, allNodes_cons, allNodes_append]
      exact ⟨hinfo, hoperand, hposition⟩
  | .list _ exprs => by
      refine (checkAll_sized hc exprs).bind fun exprs hexprs => Noted.Ensures.pure ?_
      simp only [nodes, allNodes_cons]
      exact ⟨ExprInfo.sized_ofType.2 (sized_last hexprs), hexprs⟩

theorem checkAll_sized (hc : c.Sized) : ∀ es : List Expr,
    (checkAll c es).Ensures clean fun es' => AllNodes Node.Sized (nodesOfEach es')
  | [] => Noted.Ensures.pure allNodes_nil
  | e :: es => by
      refine (check_sized hc e).bind fun e he => ?_
      refine (checkAll_sized hc es).bind fun es hes => Noted.Ensures.pure ?_
      simp only [nodesOfEach, allNodes_append]
      exact ⟨he, hes⟩

end

end Expr

theorem ArraySize.check_sized (hc : c.Sized) (size : ArraySize) :
    (size.check c).Ensures clean fun sized =>
      AllNodes Node.Sized sized.1.size.nodes ∧ ∀ n ∈ sized.2, 1 ≤ n := by
  refine (Expr.check_sized hc size.size).bind fun expr hexpr => ?_
  exact (typeLength_positive expr).bind fun length hlength => Noted.Ensures.pure ⟨hexpr, hlength⟩

end Essl
