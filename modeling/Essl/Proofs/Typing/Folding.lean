import Essl.Proofs.Builtin.Defined
import Essl.Proofs.Token.Literals
import Essl.Proofs.Tree.Coverage
import Essl.Proofs.Tree.Parts
import Essl.Proofs.Tree.Words
import Essl.Proofs.Typing.Guarantees
import Essl.Proofs.Typing.Reanalysis

/-!
# Constant expressions have constants

Typing that finds no problem gives a constant to every expression that is built from constants,
unless there is an operation in it that has no value for its operands. Each form of expression is
shown to have one if its operands do; the shapes of their constants, which are those of their types,
leave only these operations to fail.
-/

namespace Essl

open Grammar

/-! ## Constant expressions -/

/-- What the name stands for is a variable of which the value is known. -/
def Symbol.HasConstant : Symbol → Prop
  | .variable v => v.constant ≠ none
  | _ => False

instance : DecidablePred Symbol.HasConstant
  | .variable v => inferInstanceAs (Decidable (v.constant ≠ none))
  | .function _ | .struct _ => .isFalse id

namespace Expr

/-- The form is one of those that constants are built from. Operators do not write to their operand,
and functions that are called can be evaluated. -/
def ConstantForm : Expr → Prop
  | .literal .. | .group .. | .binary .. | .ternary .. | .field .. | .index .. | .arrayCall .. => True
  | .variable info _ => ∃ symbol ∈ info.symbol, symbol.HasConstant
  | .unary _ op _ => op.text ∈ Builtin.signs
  | e@(.call ..) => ∀ call ∈ e.call?, call.1.evaluate ≠ none
  | .assignment .. | .step .. | .list .. => False

/-- The operator or function has no value for the constants of the operands. -/
def Undefined : Expr → Prop
  | .binary _ left op right => ∃ vs ∈ constants? [left, right], Builtin.Undefined op.text vs
  | e@(.call ..) => ∃ call ∈ e.call?, ∃ vs ∈ constants? call.2, Builtin.Undefined call.1.name vs
  | _ => False

/-- All of the expression has such a form, and nothing in it is without a value. -/
def IsConstant (e : Expr) : Prop :=
  AllNodes (Node.IfExpr fun d => d.ConstantForm ∧ ¬ d.Undefined) e.nodes

instance : DecidablePred ConstantForm
  | .literal .. | .group .. | .binary .. | .ternary .. | .field .. | .index .. | .arrayCall .. =>
    .isTrue trivial
  | .variable info _ => inferInstanceAs (Decidable (∃ symbol ∈ info.symbol, symbol.HasConstant))
  | .unary _ op _ => inferInstanceAs (Decidable (op.text ∈ Builtin.signs))
  | .call info callee opening void arguments closing => inferInstanceAs (Decidable
      (∀ c ∈ (Expr.call info callee opening void arguments closing).call?, c.1.evaluate ≠ none))
  | .assignment .. | .step .. | .list .. => .isFalse id

instance : DecidablePred Undefined
  | .binary _ left op right =>
    inferInstanceAs (Decidable (∃ vs ∈ constants? [left, right], Builtin.Undefined op.text vs))
  | .call info callee opening void arguments closing => inferInstanceAs (Decidable
      (∃ c ∈ (Expr.call info callee opening void arguments closing).call?,
        ∃ vs ∈ constants? c.2, Builtin.Undefined c.1.name vs))
  | .literal .. | .group .. | .ternary .. | .field .. | .index .. | .arrayCall .. | .variable ..
  | .unary .. | .assignment .. | .step .. | .list .. => .isFalse id

instance : DecidablePred IsConstant :=
  fun e => inferInstanceAs (Decidable (∀ n ∈ e.nodes, n.IfExpr _))

end Expr

/-! ## Operators -/

section

variable {es : List Expr} {vs : List Value}

theorem constants?_ne_none (h : ∀ e ∈ es, e.info.constant ≠ none) : constants? es ≠ none :=
  List.mapM_ne_none h

/-- The constants of operands of the types of the parameters can be evaluated. -/
theorem Function.Defined.evaluate_ne_none {f : Function} (hf : f.Defined) {evaluate : Evaluator}
    (hevaluate : f.evaluate = some evaluate) (htyped : ∀ e ∈ es, e.info.Typed True)
    (htypes : types? es = some (f.parameters.map Parameter.type)) (hvs : constants? es = some vs)
    (hdefined : ¬ Builtin.Undefined f.name vs) : evaluate vs ≠ none :=
  hf evaluate hevaluate vs (constants?_hold htyped trivial htypes hvs) hdefined

theorem HasResult.constant_ne_none {name : String} {info : ExprInfo} (h : HasResult name es info)
    (hname : es.length = 2 ∨ name ∈ Builtin.signs) (htyped : ∀ e ∈ es, e.info.Typed True)
    (hconstants : ∀ e ∈ es, e.info.constant ≠ none)
    (hdefined : ∀ vs ∈ constants? es, ¬ Builtin.Undefined name vs) : info.constant ≠ none := by
  obtain ⟨f, hf, rfl, htypes, -, hconstant⟩ := h
  obtain ⟨vs, hvs⟩ := Option.ne_none_iff_exists'.1 (constants?_ne_none hconstants)
  have hlength : es.length = f.parameters.length := by
    simpa using congrArg List.length (types?_map htypes)
  obtain ⟨evaluate, hevaluate⟩ := Option.isSome_iff_exists.1
    (Builtin.operators_evaluate f hf (hname.imp_left hlength.symm.trans))
  have hvalue := (Builtin.operators_defined f hf).evaluate_ne_none hevaluate htyped htypes hvs
    (hdefined vs hvs)
  simpa [hconstant, hevaluate, hvs] using hvalue

end

/-! ## Constructors -/

section

variable {target : Primitive} {parts : List Primitive} {vs : List Value}

theorem constructorPart?_eq_some {type : Ty} {p : Primitive} (h : constructorPart? type = some p) :
    type = .primitive p := by
  unfold constructorPart? at h
  split at h
  · split at h
    · rw [Option.some.inj h]
    · rw [Option.some.inj h]
    · rw [Option.some.inj h]
    · cases h
    · cases h
  · cases h

theorem scalarCount_pos (h : (constructorPart? (.primitive target)).isSome) :
    0 < target.scalarCount := by
  cases target with
  | scalar element => exact Nat.one_pos
  | vector element size => exact size.toNat_pos
  | matrix size => exact Nat.mul_pos size.toNat_pos size.toNat_pos
  | void => cases h
  | sampler2D => cases h
  | samplerCube => cases h

/-- How many scalars values of the types have together. -/
def totalScalars : List Primitive → Nat
  | [] => 0
  | p :: parts => p.scalarCount + totalScalars parts

theorem supplyFault?_eq_none {supplied position : Nat}
    (h : supplyFault? target supplied position parts = none) :
    target.scalarCount ≤ supplied + totalScalars parts := by
  induction parts generalizing supplied position with
  | nil =>
      rw [supplyFault?] at h
      split at h
      · cases h
      · exact Nat.le_of_not_lt ‹_›
  | cons p parts ih =>
      rw [supplyFault?] at h
      split at h
      · cases h
      · have hrest := ih h
        rw [totalScalars]
        omega

/-- The parts of a constructor are enough, or a single one that does for all of them. -/
theorem partsFault?_eq_none (h : partsFault? target parts = none) :
    target.scalarCount ≤ totalScalars parts ∨
      (∃ element, parts = [.scalar element]) ∨
        ∃ size, target.isMatrix = true ∧ parts = [.matrix size] := by
  unfold partsFault? at h
  extract_lets general at h
  have hgeneral (h : general = none) : target.scalarCount ≤ totalScalars parts := by
    dsimp only [general] at h
    split at h
    · rename_i i hi
      split at hi
      · obtain ⟨hlt, -⟩ := List.findIdx?_eq_some_iff_getElem.1 hi
        simp [hlt] at h
      · cases hi
    · simpa using supplyFault?_eq_none h
  split at h
  · exact .inr (.inl ⟨_, rfl⟩)
  · split at h
    · exact .inr (.inr ⟨_, ‹_›, rfl⟩)
    · exact .inl (hgeneral h)
  · exact .inl (hgeneral h)

theorem constructorFault?_eq_none {types : List Ty} (h : constructorFault? target types = none) :
    ∃ parts, types = parts.map .primitive ∧ partsFault? target parts = none := by
  unfold constructorFault? at h
  split at h
  · rename_i i hi
    obtain ⟨hlt, -⟩ := List.findIdx?_eq_some_iff_getElem.1 hi
    simp [hlt] at h
  · rename_i hparts
    refine ⟨types.filterMap constructorPart?, ?_, h⟩
    rw [List.findIdx?_eq_none_iff] at hparts
    clear h
    induction types with
    | nil => rfl
    | cons type types ih =>
        obtain ⟨p, hp⟩ := Option.ne_none_iff_exists'.1
          (by simpa [Option.isSome_iff_ne_none] using hparts type List.mem_cons_self)
        rw [List.filterMap_cons_some hp, List.map_cons, ← constructorPart?_eq_some hp,
          ← ih fun t ht => hparts t (List.mem_cons_of_mem type ht)]

theorem length_scalarsOf_parts (h : List.Forall₂ Ty.Holds (parts.map .primitive) vs) :
    (Value.scalarsOf vs).length = totalScalars parts := by
  induction parts generalizing vs with
  | nil =>
      cases h
      rfl
  | cons p parts ih =>
      cases h with
      | cons hv hvs =>
          rw [Value.scalarsOf, List.length_append, Primitive.length_scalars hv, ih hvs,
            totalScalars]

/-- A constructor without a fault has a value. -/
theorem construct_ne_none {types : List Ty} (htarget : (constructorPart? (.primitive target)).isSome)
    (h : constructorFault? target types = none) (hvs : List.Forall₂ Ty.Holds types vs) :
    target.construct vs ≠ none := by
  obtain ⟨parts, rfl, hparts⟩ := constructorFault?_eq_none h
  apply Primitive.construct_ne_none (scalarCount_pos htarget)
  rcases partsFault?_eq_none hparts with henough | ⟨element, rfl⟩ | ⟨size, hmatrix, rfl⟩
  · exact .inl (length_scalarsOf_parts hvs ▸ henough)
  · obtain _ | ⟨hv, _ | _⟩ := hvs
    exact .inr ⟨_, rfl, .inl (Value.isScalar_of_holds hv)⟩
  · obtain _ | ⟨hv, _ | _⟩ := hvs
    obtain ⟨columns, hcolumns, -⟩ := Value.columns?_of_fits hv
    refine .inr ⟨_, rfl, .inr ⟨by simpa [Primitive.isMatrix] using hmatrix, ?_⟩⟩
    rw [hcolumns]
    exact Option.some_ne_none _

end

/-! ## Forms of expressions -/

section

variable {info : ExprInfo} {operand : Expr}

theorem literal_ne_none {token : Token} (h : Expr.Folded (.literal info token))
    (hvalue : token.HasValue) : info.constant ≠ none := by
  simp only [Expr.Folded] at h
  unfold Token.HasValue at hvalue
  split at h <;> rename_i hkind
  · rw [hkind] at hvalue
    simpa [h] using hvalue
  · rw [hkind] at hvalue
    simpa [h] using hvalue
  · rw [h]
    exact Option.some_ne_none _

theorem variable_ne_none {name : Token} (h : Expr.Folded (.variable info name))
    (hform : Expr.ConstantForm (.variable info name)) : info.constant ≠ none := by
  obtain ⟨symbol, hsymbol, hconstant⟩ := hform
  cases symbol with
  | «variable» v =>
      rw [h v hsymbol]
      exact hconstant
  | function f => exact hconstant.elim
  | struct s => exact hconstant.elim

theorem choice_ne_none {condition whenTrue whenFalse : Expr} (htyped : condition.info.Typed True)
    (hbool : condition.info.type = some .bool) (hcondition : condition.info.constant ≠ none)
    (htrue : whenTrue.info.constant ≠ none) (hfalse : whenFalse.info.constant ≠ none) :
    (do
      let chosen ← (← condition.info.constant).asBool?
      if chosen then whenTrue.info.constant else whenFalse.info.constant) ≠ none := by
  obtain ⟨v, hv⟩ := Option.ne_none_iff_exists'.1 hcondition
  obtain ⟨chosen, rfl⟩ := Value.exists_bool (htyped.holds trivial _ hbool v hv)
  cases chosen <;> simpa [hv, Value.asBool?]

theorem field_ne_none {dot selector : Token} (h : Expr.Folded (.field info operand dot selector))
    (htyped : operand.info.Typed True) (hoperand : operand.info.constant ≠ none) :
    info.constant ≠ none := by
  obtain ⟨v, hv⟩ := Option.ne_none_iff_exists'.1 hoperand
  have hholds : ∀ t ∈ operand.info.type, t.Holds v := fun t ht => htyped.holds trivial t ht v hv
  simp only [Expr.Folded] at h
  split at h
  · rename_i element size htype
    obtain ⟨indices, hindices, hconstant⟩ := h
    have hvector : v.Composes element.Holds size.toNat := hholds _ htype
    rw [hconstant, hv]
    exact Value.swizzle_ne_none hvector (swizzleIndices_lt hindices)
  · rename_i s htype
    obtain ⟨index, field, hfind, hconstant⟩ := h
    obtain ⟨hindex, -⟩ := List.getElem?_eq_some_iff.1 (StructDef.mem_of_find? hfind)
    have hstruct : s.Holds v := hholds _ htype
    obtain ⟨vs, rfl, hfields⟩ := StructDef.holds_iff.1 hstruct
    rw [hconstant, hv]
    simpa [Value.component?, Value.components?, ← hfields.length_eq] using hindex
  · exact h.elim

theorem HasParts.component?_ne_none {type part : Ty} {length index : Nat}
    (h : HasParts type part length) {v : Value} (hv : type.Holds v) (hindex : index < length) :
    v.component? index ≠ none := by
  cases h with
  | matrix size => exact Value.component?_ne_none hv hindex
  | vector element size => exact Value.component?_ne_none hv hindex
  | array element length => exact Value.component?_ne_none hv hindex

theorem index_ne_none {position : Expr} {opening closing : Token}
    (h : Expr.Ruled (.index info operand opening position closing))
    (htyped : operand.info.Typed True) (hoperand : operand.info.constant ≠ none) :
    info.constant ≠ none := by
  obtain ⟨v, hv⟩ := Option.ne_none_iff_exists'.1 hoperand
  obtain ⟨⟨type, part, length, htype, hparts, -, -, i, hi, hzero, hbound⟩, j, hj, hconstant⟩ := h
  obtain rfl : i = j := by simpa [hi] using hj
  rw [hconstant, hv]
  exact hparts.component?_ne_none (htyped.holds trivial _ htype v hv) (by omega)

theorem call_ne_none {callee opening closing : Token} {void : Option Token} {arguments : List Expr}
    (h : CallFolded info arguments)
    (hform : (Expr.call info callee opening void arguments closing).ConstantForm)
    (hdefined : ¬ (Expr.call info callee opening void arguments closing).Undefined)
    (htyped : ∀ e ∈ arguments, e.info.Typed True)
    (harguments : ∀ e ∈ arguments, e.info.constant ≠ none) : info.constant ≠ none := by
  obtain ⟨vs, hvs⟩ := Option.ne_none_iff_exists'.1 (constants?_ne_none harguments)
  simp only [Expr.ConstantForm, Expr.Undefined, Expr.call?] at hform hdefined
  unfold CallFolded at h
  split at h
  · rename_i f hsymbol
    rw [hsymbol] at hform hdefined
    have hsome : f.evaluate ≠ none := hform (f, arguments) rfl
    obtain ⟨evaluate, hevaluate⟩ := Option.ne_none_iff_exists'.1 hsome
    obtain ⟨hbuiltin, hconstant⟩ := h
    obtain ⟨hf, htypes⟩ := hbuiltin.resolve_left hsome
    have hvalue := (Builtin.functions_defined f hf).evaluate_ne_none hevaluate htyped htypes hvs
      fun hundefined => hdefined ⟨_, rfl, vs, hvs, hundefined⟩
    simpa [hconstant, hevaluate, hvs] using hvalue
  · rw [h, hvs]
    exact Option.some_ne_none _
  · obtain ⟨target, types, htypes, hpart, hfault, hconstant⟩ := h
    rw [hconstant, hvs]
    exact construct_ne_none hpart hfault (constants?_hold htyped trivial htypes hvs)

end

/-! ## Expressions -/

namespace Expr

/-- The expression is typed and of a constant form, it has a value where its operands have one, and
a numeral is readable. -/
structure Foldable (e : Expr) : Prop where
  typed : e.info.Typed True
  ruled : e.Ruled
  readable : ∀ info t, e = .literal info t → t.HasValue
  form : e.ConstantForm
  defined : ¬ e.Undefined

theorem typed_of_foldable {e : Expr} (h : AllNodes (Node.IfExpr Foldable) e.nodes) :
    e.info.Typed True :=
  Foldable.typed (h _ e.expr_mem_nodes)

theorem all_typed_of_foldable {es : List Expr}
    (h : AllNodes (Node.IfExpr Foldable) (nodesOfEach es)) : ∀ e ∈ es, e.info.Typed True :=
  fun e he => typed_of_foldable (allNodes_nodesOfEach.1 h e he)

mutual

theorem constant_ne_none : ∀ e : Expr, AllNodes (Node.IfExpr Foldable) e.nodes →
    e.info.constant ≠ none
  | .assignment .., h | .step .., h | .list .., h => (h _ List.mem_cons_self).form.elim
  | .ternary _ condition _ whenTrue _ whenFalse, h => by
      simp only [nodes, allNodes_cons, allNodes_append] at h
      obtain ⟨hown, ⟨hcondition, htrue⟩, hfalse⟩ := h
      have hfolded : Expr.Folded _ := hown.ruled.folded
      rw [info, hfolded]
      exact choice_ne_none (typed_of_foldable hcondition) hown.ruled.wellTyped.1
        (constant_ne_none condition hcondition) (constant_ne_none whenTrue htrue)
        (constant_ne_none whenFalse hfalse)
  | .binary _ left op right, h => by
      simp only [nodes, allNodes_cons, allNodes_append] at h
      obtain ⟨hown, hleft, hright⟩ := h
      have hconstants := And.intro (constant_ne_none left hleft) (constant_ne_none right hright)
      -- Values of any one type can be compared, so `==` and `!=` are not always found in the table.
      rcases hown.ruled.folded with ⟨expected, -, hconstant⟩ | hresult
      · obtain ⟨a, ha⟩ := Option.ne_none_iff_exists'.1 hconstants.1
        obtain ⟨b, hb⟩ := Option.ne_none_iff_exists'.1 hconstants.2
        rw [info, hconstant, ha, hb]
        exact Option.some_ne_none _
      · refine hresult.constant_ne_none (.inl rfl) ?_ ?_ fun vs hvs hundefined => ?_
        · simpa using ⟨typed_of_foldable hleft, typed_of_foldable hright⟩
        · simpa using hconstants
        · exact hown.defined ⟨vs, hvs, hundefined⟩
  | .unary _ op operand, h => by
      simp only [nodes, allNodes_cons] at h
      obtain ⟨hown, hoperand⟩ := h
      have hresult : HasResult _ _ _ := hown.ruled.folded
      refine hresult.constant_ne_none (.inr hown.form) ?_ ?_ fun vs _ =>
        Builtin.not_undefined_of_sign hown.form vs
      · simpa using typed_of_foldable hoperand
      · simpa using constant_ne_none operand hoperand
  | .literal _ token, h => by
      have hown : Foldable _ := h _ List.mem_cons_self
      exact literal_ne_none hown.ruled.folded (hown.readable _ _ rfl)
  | .group _ _ inner _, h => by
      simp only [nodes, allNodes_cons] at h
      rw [info, show _ = _ from h.1.ruled.folded]
      exact constant_ne_none inner h.2
  | .variable info name, h => by
      have hown : Foldable (.variable info name) := h _ List.mem_cons_self
      exact variable_ne_none hown.ruled.folded hown.form
  | .call _ callee opening void arguments closing, h => by
      simp only [nodes, allNodes_cons] at h
      obtain ⟨hown, harguments⟩ := h
      exact call_ne_none hown.ruled.folded hown.form hown.defined
        (all_typed_of_foldable harguments) (constants_ne_none arguments harguments)
  | .arrayCall _ _ _ size _ _ _ arguments _, h => by
      simp only [nodes, allNodes_cons, allNodes_append] at h
      obtain ⟨hown, -, harguments⟩ := h
      have hfolded : _ = _ := hown.ruled.folded
      rw [info, hfolded]
      simpa using constants?_ne_none (constants_ne_none arguments harguments)
  | .field _ operand dot selector, h => by
      simp only [nodes, allNodes_cons] at h
      exact field_ne_none h.1.ruled.folded (typed_of_foldable h.2) (constant_ne_none operand h.2)
  | .index _ operand opening position closing, h => by
      simp only [nodes, allNodes_cons, allNodes_append] at h
      obtain ⟨hown, hoperand, -⟩ := h
      exact index_ne_none hown.ruled (typed_of_foldable hoperand)
        (constant_ne_none operand hoperand)

theorem constants_ne_none : ∀ es : List Expr, AllNodes (Node.IfExpr Foldable) (nodesOfEach es) →
    ∀ e ∈ es, e.info.constant ≠ none
  | [], _ => List.forall_mem_nil _
  | e :: es, h => by
      simp only [nodesOfEach, allNodes_append] at h
      exact List.forall_mem_cons.2 ⟨constant_ne_none e h.1, constants_ne_none es h.2⟩

end

end Expr

/-! ## Shaders -/

namespace Shader

variable {tokens : List Token}

/-- The literals of an analyzed shader are tokens that it was read from. -/
theorem literal_mem_tokens {stage : Stage} {order : FunctionOrder} {info : ExprInfo}
    {t : Token}
    (h : .expr (.literal info t) ∈ ((parseShader tokens).shader.analyze stage order).value.nodes) :
    t ∈ tokens := by
  have hpieces := pieces_subset h
  rw [← Shader.pieces_erase, erase_analyze, Shader.pieces_erase] at hpieces
  apply (shaderWithin_keptTokens tokens.length tokens).subset
  exact List.mem_filterMap.2 ⟨.kept t, hpieces List.mem_cons_self, rfl⟩

end Shader

end Essl
