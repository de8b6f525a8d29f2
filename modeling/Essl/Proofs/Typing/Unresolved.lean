import Essl.Proofs.Typing.Guarantees
import Essl.Proofs.Typing.Visits

/-!
# Values of unknown type

An expression without a type has no value, with one exception: a field whose type could not be told
still has the value that it was given, and hands it on through parentheses and `?:`.
-/

namespace Essl

open Grammar

/-- The value that comes from a field whose type could not be told. -/
def Expr.untypedValue? : Expr → Option Value
  | .ternary _ condition _ whenTrue _ whenFalse => do
    let chosen ← (← condition.info.constant).asBool?
    if chosen then whenTrue.untypedValue? else whenFalse.untypedValue?
  | .group _ _ inner _ => inner.untypedValue?
  | .field _ operand _ selector =>
    match operand.info.type with
    | some (.struct s) => do
      let (position, member) ← s.find? selector.text
      if member.type = none then (← operand.info.constant).component? position else none
    | _ => none
  | _ => none

/-- A variable without a type has no value. -/
def Variable.Settled (v : Variable) : Prop := v.type = none → v.constant = none

/-- What is known of an expression other than a variable: without a type there is no value. -/
structure ExprInfo.Settled (info : ExprInfo) : Prop where
  constant : info.type = .none → info.constant = .none
  symbol : ∀ v, info.symbol ≠ some (.variable v)

/-- The expression has a type, or no value but that of a field without a type. A variable that it
stands for has a type, or no value. -/
structure Expr.Settled (e : Expr) : Prop where
  constant : e.info.type = none → e.info.constant = e.untypedValue?
  symbol : ∀ v, e.info.symbol = some (.variable v) → v.Settled

namespace ExprInfo

variable {info : ExprInfo}

@[simp] theorem settled_none : ExprInfo.none.Settled := ⟨fun _ => rfl, nofun⟩

@[simp] theorem settled_ofType (type : Option Ty) : (ofType type).Settled :=
  ⟨fun _ => rfl, nofun⟩

@[simp] theorem settled_ofValue (type : Ty) (constant : Option Value) :
    (ofValue type constant).Settled := ⟨nofun, nofun⟩

theorem Settled.expr (h : info.Settled) {e : Expr} (hinfo : e.info = info)
    (hvalue : e.untypedValue? = .none) : e.Settled := by
  subst hinfo
  exact ⟨fun htype => (h.constant htype).trans hvalue.symm, fun v hv => absurd hv (h.symbol v)⟩

end ExprInfo

variable {clean : Prop} {c : Context}

/-! ## Operators -/

theorem typeLiteral_settled (token : Token) : (typeLiteral token).Settled := by
  unfold typeLiteral
  split <;> simp

theorem typeOperator_settled (op : Token) (operands : List Expr) :
    (typeOperator op operands).Ensures clean ExprInfo.Settled := by
  unfold typeOperator
  split
  · exact Noted.Ensures.pure ExprInfo.settled_none
  · refine Noted.Ensures.andThen fun found => ?_
    cases found with
    | none => exact Noted.Ensures.pure ExprInfo.settled_none
    | some f => exact Noted.Ensures.pure (ExprInfo.settled_ofValue _ _)

theorem typeUnary_settled (op : Token) (operand : Expr) :
    (typeUnary op operand).Ensures clean ExprInfo.Settled := by
  unfold typeUnary
  dsimp only
  split
  · exact Noted.Ensures.andThen fun _ => typeOperator_settled op [operand]
  · exact typeOperator_settled op [operand]

theorem typeBinary_settled (left : Expr) (op : Token) (right : Expr) :
    (typeBinary left op right).Ensures clean ExprInfo.Settled := by
  unfold typeBinary
  split
  · exact Noted.Ensures.pure ExprInfo.settled_none
  · exact Noted.Ensures.pure (ExprInfo.settled_ofType _)
  · exact Noted.Ensures.pure (ExprInfo.settled_ofType _)
  · split
    · split
      · exact Noted.Ensures.pure (ExprInfo.settled_ofValue _ _)
      · exact typeOperator_settled op _
    · exact typeOperator_settled op _

theorem typeAssignment_settled (left : Expr) (op : Token) (right : Expr) :
    (typeAssignment left op right).Ensures clean ExprInfo.Settled := by
  refine Noted.Ensures.andThen fun _ => ?_
  split
  · split
    · exact Noted.Ensures.andThen fun _ => Noted.Ensures.pure (ExprInfo.settled_ofType _)
    · exact Noted.Ensures.andThen fun _ => Noted.Ensures.pure (ExprInfo.settled_ofType _)
  · exact Noted.Ensures.pure (ExprInfo.settled_ofType _)

/-- Without a type of its own, `?:` has the value of the branch that is chosen. -/
theorem typeChoice_settled {condition whenTrue whenFalse : Expr} (htrue : whenTrue.Settled)
    (hfalse : whenFalse.Settled) (question colon : Token) :
    (typeChoice condition whenTrue whenFalse).Ensures clean fun info =>
      Expr.Settled (.ternary info condition question whenTrue colon whenFalse) := by
  unfold typeChoice
  dsimp only
  split
  · split
    · exact Noted.Ensures.pure ⟨nofun, nofun⟩
    · exact Noted.Ensures.reported fun _ => ⟨nofun, nofun⟩
  · apply Noted.Ensures.pure
    refine ⟨fun hnone => ?_, nofun⟩
    obtain ⟨htype, htype'⟩ := Option.or_eq_none_iff.1 hnone
    rw [Expr.untypedValue?, ← htrue.constant htype, ← hfalse.constant htype']
    rfl

/-! ## Names and parts of values -/

theorem Builtin.variableNamed?_settled {name : String} {stage : Stage} {v : Variable}
    (h : Builtin.variableNamed? name stage = some v) : v.Settled := by
  have htyped : Typed True v.type v.constant := Builtin.variableNamed?_typed h
  obtain ⟨type, htype⟩ := htyped.1.eq_some trivial
  intro hnone
  rw [htype] at hnone
  cases hnone

theorem typeSwizzle_settled (vector : Primitive) (constant : Option Value) (selector : Token) :
    (typeSwizzle vector constant selector).Ensures clean ExprInfo.Settled := by
  unfold typeSwizzle
  dsimp only
  split
  · exact Noted.Ensures.reported fun _ => ExprInfo.settled_none
  · split
    · exact Noted.Ensures.reported fun _ => ExprInfo.settled_none
    · apply Noted.Ensures.pure
      split <;> simp

section

variable {operand : Expr} {info : ExprInfo} {dot selector : Token}

theorem untypedValue?_field_of_ne_struct (h : ∀ s, operand.info.type ≠ some (.struct s)) :
    Expr.untypedValue? (.field info operand dot selector) = none := by
  unfold Expr.untypedValue?
  split
  · rename_i s hs
    exact absurd hs (h s)
  · rfl

theorem untypedValue?_field_of_struct {s : StructDef}
    (hs : operand.info.type = some (.struct s)) :
    Expr.untypedValue? (.field info operand dot selector) =
      (s.find? selector.text).bind fun (position, member) =>
        if member.type = none then operand.info.constant.bind (·.component? position)
        else none := by
  simp only [Expr.untypedValue?, hs]
  rfl

end

/-- A field of a struct may have a value and no type. -/
theorem typeField_settled (operand : Expr) (dot selector : Token) :
    (typeField operand selector).Ensures clean fun info =>
      Expr.Settled (.field info operand dot selector) := by
  unfold typeField
  split
  · rename_i htype
    exact Noted.Ensures.pure
      (ExprInfo.settled_none.expr rfl (untypedValue?_field_of_ne_struct (by simp [htype])))
  · rename_i element size htype
    exact (typeSwizzle_settled _ _ selector).mono fun _ hinfo =>
      hinfo.expr rfl (untypedValue?_field_of_ne_struct (by simp [htype]))
  · rename_i s htype
    split
    · rename_i position member hfound
      refine Noted.Ensures.pure ⟨fun hnone => ?_, nofun⟩
      have hnone : member.type = none := hnone
      rw [untypedValue?_field_of_struct htype, hfound, Option.bind_some]
      exact (if_pos hnone).symm
    · rename_i hmissing
      refine Noted.Ensures.reported fun _ => ExprInfo.settled_none.expr rfl ?_
      rw [untypedValue?_field_of_struct htype, hmissing, Option.bind_none]
  · rename_i type _ hother htype
    refine Noted.Ensures.reported fun _ => ExprInfo.settled_none.expr rfl ?_
    refine untypedValue?_field_of_ne_struct fun s hs => hother s ?_
    exact Option.some.inj (htype.symm.trans hs)

theorem typeIndex_settled (operand index : Expr) :
    (typeIndex operand index).Ensures clean ExprInfo.Settled := by
  unfold typeIndex
  split
  · exact Noted.Ensures.pure ExprInfo.settled_none
  · split
    · exact Noted.Ensures.reported fun _ => ExprInfo.settled_none
    · exact Noted.Ensures.andThen fun _ => Noted.Ensures.pure (ExprInfo.settled_ofValue _ _)

/-! ## Calls and constructors -/

theorem typePrimitiveConstructor_settled (target : Primitive) (types : List Ty)
    (arguments : List Expr) (location : Location) :
    (typePrimitiveConstructor target types arguments location).Ensures clean ExprInfo.Settled := by
  unfold typePrimitiveConstructor
  dsimp only
  split
  · exact Noted.Ensures.reported fun _ => ExprInfo.settled_none
  · split
    · exact Noted.Ensures.reported fun _ => by simp
    · exact Noted.Ensures.reported fun _ => by simp
    · exact Noted.Ensures.pure (by simp)

theorem typeArrayConstructor_settled (c : Context) (callee : Token) (length : Option Nat)
    (arguments : List Expr) (location : Location) :
    (typeArrayConstructor c callee length arguments location).Ensures clean ExprInfo.Settled := by
  refine Noted.Ensures.andThen fun found => ?_
  cases found with
  | none => exact Noted.Ensures.pure ExprInfo.settled_none
  | some element =>
      dsimp only
      split
      · unfold typeArrayElements
        split
        · dsimp only
          split
          · exact Noted.Ensures.reported fun _ => by simp
          · exact Noted.Ensures.andThen fun _ => Noted.Ensures.pure (by simp)
        · exact Noted.Ensures.pure ExprInfo.settled_none
      · exact Noted.Ensures.reported fun _ => ExprInfo.settled_none

theorem typeCall_settled (c : Context) (callee : Token) (arguments : List Expr)
    (location : Location) :
    (typeCall c callee arguments location).Ensures clean ExprInfo.Settled := by
  unfold typeCall
  split
  · exact Noted.Ensures.pure ExprInfo.settled_none
  · split
    · exact Noted.Ensures.andThen fun _ => Noted.Ensures.pure ⟨nofun, nofun⟩
    · unfold typeStructConstructor
      split
      · exact Noted.Ensures.reported fun _ => by simp
      · exact Noted.Ensures.andThen fun _ => Noted.Ensures.pure ⟨nofun, nofun⟩
    · exact typePrimitiveConstructor_settled _ _ arguments location
    · split
      · exact Noted.Ensures.pure ExprInfo.settled_none
      · exact Noted.Ensures.reported fun _ => ExprInfo.settled_none

/-! ## Expressions -/

/-- The visitor that looks for values without a type. -/
def settling : Visitor := ⟨Variable.Settled, Expr.Settled⟩

theorem typeVariable_settled (hc : settling.Context c) (name : Token) :
    (typeVariable c name).Ensures clean fun info => Expr.Settled (.variable info name) := by
  have hfound : (c.variableNamed? name).Ensures clean fun found =>
      ∀ v ∈ found, v.Settled := by
    unfold Context.variableNamed?
    split
    · rename_i v hv
      apply Noted.Ensures.pure
      rintro _ ⟨⟩
      exact hc.lookup hv
    · exact Noted.Ensures.reported fun _ => by simp
    · split
      · rename_i v hv
        apply Noted.Ensures.pure
        rintro _ ⟨⟩
        exact Builtin.variableNamed?_settled hv
      · exact Noted.Ensures.reported fun _ => by simp
  refine hfound.bind fun found hfound => ?_
  cases found with
  | none => exact Noted.Ensures.pure (ExprInfo.settled_none.expr rfl rfl)
  | some v =>
      have hv : v.Settled := hfound v rfl
      refine Noted.Ensures.pure ⟨hv, ?_⟩
      rintro _ ⟨⟩
      exact hv

namespace Expr

theorem settled_of_nodes {e : Expr} (h : AllNodes settling.Node e.nodes) : e.Settled :=
  h _ e.expr_mem_nodes

mutual

theorem check_settled (hc : settling.Context c) : ∀ e : Expr,
    (e.check c).Ensures clean fun e' => AllNodes settling.Node e'.nodes
  | .assignment _ left op right => by
      refine (check_settled hc left).bind fun left hleft => ?_
      refine (check_settled hc right).bind fun right hright => ?_
      refine (typeAssignment_settled left op right).bind fun info hinfo => Noted.Ensures.pure ?_
      simp only [nodes, allNodes_cons, allNodes_append]
      exact ⟨hinfo.expr rfl rfl, hleft, hright⟩
  | .ternary _ condition question whenTrue colon whenFalse => by
      refine (check_settled hc condition).bind fun condition hcondition => ?_
      refine Noted.Ensures.andThen fun _ => ?_
      refine (check_settled hc whenTrue).bind fun whenTrue htrue => ?_
      refine (check_settled hc whenFalse).bind fun whenFalse hfalse => ?_
      refine (typeChoice_settled (settled_of_nodes htrue) (settled_of_nodes hfalse) question
        colon).bind fun info hinfo => Noted.Ensures.pure ?_
      simp only [nodes, allNodes_cons, allNodes_append]
      exact ⟨hinfo, ⟨hcondition, htrue⟩, hfalse⟩
  | .binary _ left op right => by
      refine (check_settled hc left).bind fun left hleft => ?_
      refine (check_settled hc right).bind fun right hright => ?_
      refine (typeBinary_settled left op right).bind fun info hinfo => Noted.Ensures.pure ?_
      simp only [nodes, allNodes_cons, allNodes_append]
      exact ⟨hinfo.expr rfl rfl, hleft, hright⟩
  | .unary _ op operand => by
      refine (check_settled hc operand).bind fun operand hoperand => ?_
      refine (typeUnary_settled op operand).bind fun info hinfo => Noted.Ensures.pure ?_
      simp only [nodes, allNodes_cons]
      exact ⟨hinfo.expr rfl rfl, hoperand⟩
  | .step _ operand op => by
      refine (check_settled hc operand).bind fun operand hoperand => ?_
      refine (typeUnary_settled op operand).bind fun info hinfo => Noted.Ensures.pure ?_
      simp only [nodes, allNodes_cons]
      exact ⟨hinfo.expr rfl rfl, hoperand⟩
  | .literal _ token => by
      apply Noted.Ensures.pure
      simp only [nodes, allNodes_cons, allNodes_nil, and_true]
      exact (typeLiteral_settled token).expr rfl rfl
  | .group _ opening inner closing => by
      refine (check_settled hc inner).bind fun inner hinner => Noted.Ensures.pure ?_
      have hsettled : inner.Settled := settled_of_nodes hinner
      simp only [nodes, allNodes_cons]
      exact ⟨⟨hsettled.constant, hsettled.symbol⟩, hinner⟩
  | .variable _ name => by
      refine (typeVariable_settled hc name).bind fun info hinfo => Noted.Ensures.pure ?_
      simp only [nodes, allNodes_cons, allNodes_nil, and_true]
      exact hinfo
  | .call _ callee opening void arguments closing => by
      refine (checkAll_settled hc arguments).bind fun arguments harguments => ?_
      refine (typeCall_settled c callee arguments _).bind fun info hinfo => Noted.Ensures.pure ?_
      simp only [nodes, allNodes_cons]
      exact ⟨hinfo.expr rfl rfl, harguments⟩
  | .arrayCall _ callee bracket size bracketEnd opening void arguments closing => by
      refine (check_settled hc size).bind fun size hsize => ?_
      refine Noted.Ensures.andThen fun length => ?_
      refine (checkAll_settled hc arguments).bind fun arguments harguments => ?_
      refine (typeArrayConstructor_settled c callee length arguments _).bind
        fun info hinfo => Noted.Ensures.pure ?_
      simp only [nodes, allNodes_cons, allNodes_append]
      exact ⟨hinfo.expr rfl rfl, hsize, harguments⟩
  | .field _ operand dot selector => by
      refine (check_settled hc operand).bind fun operand hoperand => ?_
      refine (typeField_settled operand dot selector).bind fun info hinfo => Noted.Ensures.pure ?_
      simp only [nodes, allNodes_cons]
      exact ⟨hinfo, hoperand⟩
  | .index _ operand opening position closing => by
      refine (check_settled hc operand).bind fun operand hoperand => ?_
      refine (check_settled hc position).bind fun position hposition => ?_
      refine (typeIndex_settled operand position).bind fun info hinfo => Noted.Ensures.pure ?_
      simp only [nodes, allNodes_cons, allNodes_append]
      exact ⟨hinfo.expr rfl rfl, hoperand, hposition⟩
  | .list _ exprs => by
      refine (checkAll_settled hc exprs).bind fun exprs hexprs => Noted.Ensures.pure ?_
      simp only [nodes, allNodes_cons]
      exact ⟨(ExprInfo.settled_ofType _).expr rfl rfl, hexprs⟩

theorem checkAll_settled (hc : settling.Context c) : ∀ es : List Expr,
    (checkAll c es).Ensures clean fun es' => AllNodes settling.Node (nodesOfEach es')
  | [] => Noted.Ensures.pure allNodes_nil
  | e :: es => by
      refine (check_settled hc e).bind fun e he => ?_
      refine (checkAll_settled hc es).bind fun es hes => Noted.Ensures.pure ?_
      simp only [nodesOfEach, allNodes_append]
      exact ⟨he, hes⟩

end

end Expr

theorem settling_right : settling.Right where
  expr hc e :=
    have hsettled : (e.check _).Ensures False fun e' => AllNodes settling.Node e'.nodes :=
      Expr.check_settled hc e
    hsettled False.elim
  declared name type qualifiers initializer readOnly location := by
    rintro rfl
    rfl

/-! ## Shaders -/

/-- A field of the struct that the operand is, of which the type could not be told, with the value
that the operand has for it. -/
def Expr.ReadsUntyped (e : Expr) (v : Value) : Prop :=
  ∃ info operand dot selector s position member,
    e = .field info operand dot selector ∧ operand.info.type = some (.struct s) ∧
      s.find? selector.text = some (position, member) ∧ member.type = none ∧
        operand.info.constant.bind (·.component? position) = some v

theorem readsUntyped_of_untypedValue? {info : ExprInfo} {operand : Expr} {dot selector : Token}
    {v : Value} (h : Expr.untypedValue? (.field info operand dot selector) = some v) :
    Expr.ReadsUntyped (.field info operand dot selector) v := by
  by_cases hstruct : ∃ s, operand.info.type = some (.struct s)
  · obtain ⟨s, hs⟩ := hstruct
    rw [untypedValue?_field_of_struct hs] at h
    obtain ⟨⟨position, member⟩, hfound, h⟩ := Option.bind_eq_some_iff.1 h
    obtain ⟨hnone, h⟩ : member.type = none ∧
        operand.info.constant.bind (·.component? position) = some v := by
      simpa using h
    exact ⟨info, operand, dot, selector, s, position, member, rfl, hs, hfound, hnone, h⟩
  · rw [untypedValue?_field_of_ne_struct (not_exists.1 hstruct)] at h
    cases h

/-- Nothing else gives a value without a type. -/
theorem Expr.exists_readsUntyped {e : Expr} {v : Value} (h : e.untypedValue? = some v) :
    ∃ x, .expr x ∈ e.nodes ∧ x.ReadsUntyped v := by
  fun_induction untypedValue? e with
  | case1 info condition question whenTrue colon whenFalse htrue hfalse =>
      obtain ⟨value, -, h⟩ := Option.bind_eq_some_iff.1 h
      obtain ⟨chosen, -, h⟩ := Option.bind_eq_some_iff.1 h
      cases chosen with
      | true =>
          obtain ⟨x, hx, hreads⟩ := htrue h
          exact ⟨x, by simp [nodes, hx], hreads⟩
      | false =>
          obtain ⟨x, hx, hreads⟩ := hfalse h
          exact ⟨x, by simp [nodes, hx], hreads⟩
  | case2 info opening inner closing ih =>
      obtain ⟨x, hx, hreads⟩ := ih h
      exact ⟨x, List.mem_cons_of_mem _ hx, hreads⟩
  | case3 info operand dot selector s hs =>
      refine ⟨_, expr_mem_nodes _, readsUntyped_of_untypedValue? ?_⟩
      rw [untypedValue?_field_of_struct hs]
      exact h
  | case4 => cases h
  | case5 => cases h

namespace Shader

variable {tokens : List Token}

/-- Whatever is wrong with a shader, an expression without a type has no value in it, but for that
of a field of unknown type in parentheses or chosen by `?:`. No variable without a type has a
value. -/
theorem analyze_untyped (ht : ∀ t ∈ tokens, t.Written) (stage : Stage) (order : FunctionOrder) :
    let analysis := (parseShader tokens).shader.analyze stage order
    (∀ e, .expr e ∈ analysis.value.nodes → e.info.type = none →
      e.info.constant = e.untypedValue? ∧
        ∀ v ∈ e.info.constant, ∃ x, .expr x ∈ e.nodes ∧ x.ReadsUntyped v) ∧
    (∀ e, .expr e ∈ analysis.value.nodes → ∀ v, e.info.symbol = some (.variable v) →
      v.type = none → v.constant = none) ∧
    ∀ d, .declarator d ∈ analysis.value.nodes → ∀ v ∈ d.symbol,
      v.type = none → v.constant = none := by
  intro analysis
  have hsettled : AllNodes settling.Node analysis.value.nodes :=
    settling_right.analyze (Grammar.parseShader_regular ht) stage order
  refine ⟨fun e he htype => ?_, fun e he => ?_, fun d hd => ?_⟩
  · have hvalue : e.info.constant = e.untypedValue? := (hsettled _ he).constant htype
    refine ⟨hvalue, fun v hv => Expr.exists_readsUntyped ?_⟩
    rw [← hvalue]
    exact hv
  · have h : e.Settled := hsettled _ he
    exact h.symbol
  · exact hsettled _ hd

/-- A condition that is not declared chooses between two fields without a type. -/
theorem analyze_untyped_choice :
    let analysis := (ofText "struct S { T x; }; bool b = a ? S(1).x : S(2).x;").analyze .vertex
    analysis.problems ≠ [] ∧ ∀ e, .expr e ∈ analysis.value.nodes → e.info.type = none →
      e.info.constant = e.untypedValue? := by
  intro analysis
  have hproblems : analysis.problems ≠ [] := by decide +kernel
  refine ⟨hproblems, fun e he htype => ?_⟩
  exact ((analyze_untyped (Code.written_scan _) .vertex .newestFirst).1 e he htype).1

/-- A field of unknown type has a value, and so has what it is chosen for, which has a type. -/
theorem analyze_values_untyped_field :
    let analysis := (ofText "struct S { T x; }; bool b = true ? S(1).x : false;").analyze .vertex
    let values := analysis.value.nodes.filterMap fun
      | .expr e => e.info.constant.map fun v => (e.info.type, v.asInt?)
      | _ => none
    (none, some 1) ∈ values ∧ (some .bool, some 1) ∈ values := by
  decide +kernel

end Shader

end Essl
