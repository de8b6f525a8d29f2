import Essl.Proofs.Tree.Nodes
import Essl.Proofs.Typing.Invariant
import Essl.Typing.Construction
import Essl.Typing.Selection

/-!
# The rules of typing

What is right about the types, symbols and constants at each node of a typed tree, said of the node
and the parts next to it. Typing is not mentioned.
-/

namespace Essl

/-! ## Expressions -/

/-- The table of operators has an entry for operands of exactly these types, with the result. -/
def HasOperator (name : String) (operands : List (Option Ty)) (result : Option Ty) : Prop :=
  ∃ f ∈ Builtin.operators, f.name = name ∧ operands = f.parameters.map (some ·.type) ∧
    result = some f.returnType

/-- The type and the constant are what an entry of the table of operators gives for the operands. -/
def HasResult (name : String) (operands : List Expr) (info : ExprInfo) : Prop :=
  ∃ f ∈ Builtin.operators, f.name = name ∧
    types? operands = some (f.parameters.map Parameter.type) ∧ info.type = some f.returnType ∧
      info.constant = do (← f.evaluate) (← constants? operands)

/-- The columns of a matrix, components of a vector or elements of an array. -/
inductive HasParts : Ty → Ty → Nat → Prop where
  | matrix (size : Dimension) :
      HasParts (.primitive (.matrix size)) (.primitive (.vector .float size)) size.toNat
  | vector (element : Scalar) (size : Dimension) :
      HasParts (.primitive (.vector element size)) (.primitive (.scalar element)) size.toNat
  | array (element : Ty) (length : Nat) : HasParts (.array element length) element length

/-- The constant is what the function, the struct or the built-in type that is called gives for the
constants of the arguments. -/
def CallFolded (info : ExprInfo) (arguments : List Expr) : Prop :=
  match info.symbol with
  | some (.function f) =>
    (f.evaluate = none ∨
      f ∈ Builtin.functions ∧ types? arguments = some (f.parameters.map Parameter.type)) ∧
        info.constant = do (← f.evaluate) (← constants? arguments)
  | some (.struct _) => info.constant = (constants? arguments).map .composite
  | _ => ∃ target types, types? arguments = some types ∧
    (constructorPart? (.primitive target)).isSome ∧ constructorFault? target types = none ∧
      info.constant = (constants? arguments).bind target.construct

namespace Expr

/-- The expression has a type that its operands give it. -/
def WellTyped : Expr → Prop
  | .assignment _ left op right =>
    match op.kind.operator?.bind Operator.compound? with
    | none => ∃ type, left.info.type = some type ∧ right.info.type = some type
    | some base => HasOperator base.text [left.info.type, right.info.type] left.info.type
  | .ternary info condition _ whenTrue _ whenFalse =>
    condition.info.type = some .bool ∧
      ∃ type, whenTrue.info.type = some type ∧ whenFalse.info.type = some type ∧
        info.type = some type
  | .binary info left op right =>
    ((op.kind = .operator .equal ∨ op.kind = .operator .notEqual) ∧
        left.info.type = right.info.type ∧ info.type = some .bool) ∨
      HasOperator op.text [left.info.type, right.info.type] info.type
  | .unary info op operand => HasOperator op.text [operand.info.type] info.type
  | .step info operand op => HasOperator op.text [operand.info.type] info.type
  | .index info operand _ position _ =>
    ∃ type part length, operand.info.type = some type ∧ HasParts type part length ∧
      info.type = some part ∧ position.info.type = some .int ∧
        ∃ i : Int32, position.info.constant = some (.int i) ∧ 0 ≤ i.toInt ∧ i.toInt < length
  | _ => True

/-- The constant of the expression is the one that the constants of its operands give it. -/
def Folded : Expr → Prop
  | .assignment info .. | .list info _ => info.constant = none
  | .ternary info condition _ whenTrue _ whenFalse =>
    info.constant = do
      let chosen ← (← condition.info.constant).asBool?
      if chosen then whenTrue.info.constant else whenFalse.info.constant
  | .binary info left op right =>
    (∃ expected : Bool, op.kind = .operator (if expected then .equal else .notEqual) ∧
      info.constant = do
        let a ← left.info.constant
        let b ← right.info.constant
        pure (.bool (a.same b == expected))) ∨
      HasResult op.text [left, right] info
  | .unary info op operand | .step info operand op => HasResult op.text [operand] info
  | .literal info token =>
    match token.kind with
    | .intConstant => info.constant = token.intValue?.map .int
    | .floatConstant => info.constant = (Number.read? token.text.toList).map .float
    | _ => info.constant = some (.bool (token.text == "true"))
  | .group info _ inner _ => info.constant = inner.info.constant
  | .variable info _ => ∀ v, info.symbol = some (.variable v) → info.constant = v.constant
  | .call info _ _ _ arguments _ => CallFolded info arguments
  | .arrayCall info _ _ _ _ _ _ arguments _ =>
    info.constant = (constants? arguments).map .composite
  | .field info operand _ selector =>
    match operand.info.type with
    | some (.primitive (.vector element size)) => ∃ indices,
      swizzleIndices (.vector element size) none 0 selector.text.toList = .ok indices ∧
        info.constant = operand.info.constant.bind (·.swizzle indices)
    | some (.struct s) => ∃ index field, s.find? selector.text = some (index, field) ∧
      info.constant = operand.info.constant.bind (·.component? index)
    | _ => False
  | .index info operand _ position _ =>
    ∃ i : Int32, position.info.constant = some (.int i) ∧
      info.constant = operand.info.constant.bind (·.component? i.toInt.toNat)

/-- The type and the constant of the expression are what its operands give it. -/
structure Ruled (e : Expr) : Prop where
  wellTyped : e.WellTyped
  folded : e.Folded

/-- There is one argument for each parameter. It has the type of the parameter, but that a struct
may be another one of the same name. -/
def Matches (arguments : List Expr) (parameters : List Parameter) : Prop :=
  List.Forall₂ (fun argument parameter =>
    ∃ type, argument.info.type = some type ∧ type.Alike parameter.type) arguments parameters

/-- The function that is called, with the arguments. -/
def call? : Expr → Option (Function × List Expr)
  | .call info _ _ _ arguments _ =>
    match info.symbol with
    | some (.function f) => some (f, arguments)
    | _ => none
  | _ => none

/-- Arguments match the parameters of the function that is called, if it is one. -/
def CallsMatching : Expr → Prop
  | .call info _ _ _ arguments _ =>
    ∀ f, info.symbol = some (.function f) → Matches arguments f.parameters
  | _ => True

theorem CallsMatching.matches {e : Expr} (h : e.CallsMatching) {f : Function}
    {arguments : List Expr} (hcall : e.call? = some (f, arguments)) :
    Matches arguments f.parameters := by
  cases e with
  | call info callee opening void arguments closing =>
      rw [call?] at hcall
      split at hcall
      · rename_i f' hsymbol
        obtain ⟨rfl, rfl⟩ := Prod.mk.inj (Option.some.inj hcall)
        exact h f' hsymbol
      · cases hcall
  | _ => cases hcall

end Expr

/-! ## Declarations and statements -/

/-- The initial value has the type of the variable. -/
def Declarator.Initialized (d : Declarator) : Prop :=
  ∀ e ∈ d.initializer, ∃ type v, e.info.type = some type ∧ d.type = some type ∧
    d.symbol = some v ∧ v.type = some type

/-- If the variable is constant, it has a value of its type. -/
def Variable.ConstantKnown (v : Variable) : Prop :=
  v.qualifiers.contains .const → ∃ type w, v.type = some type ∧ v.constant = some w ∧ type.Holds w

/-- A function returns values of its type, and one of type `void` none. -/
def Returns (returnType : Option Ty) : Option Expr → Prop
  | some e => ∃ type, returnType = some type ∧ e.info.type = some type
  | none => returnType = some .void

/-! ## Nodes -/

namespace Node

/-- The node has a type, or what else typing has to find for it. -/
def Resolved : Node → Prop
  | expr e => e.info.type ≠ none
  | typeSpec s => s.type ≠ none
  | field d => d.type ≠ none
  | declarator d => d.type ≠ none
  | parameter p => p.type ≠ none
  | header h => h.symbol ≠ none
  | condition _ => True
  | .return _ _ => True

/-- The types at the node are those that the rules ask for. -/
def WellTyped : Node → Prop
  | expr e => e.WellTyped
  | declarator d => d.Initialized
  | condition c => c.type = some .bool
  | .return returnType value => Returns returnType value
  | typeSpec _ => True
  | field _ => True
  | parameter _ => True
  | header _ => True

/-- The constant at the node is one of the type, and a constant variable has one. -/
def Shaped : Node → Prop
  | expr e => ∀ type ∈ e.info.type, ∀ v ∈ e.info.constant, type.Holds v
  | declarator d => ∃ v, d.symbol = some v ∧ v.ConstantKnown
  | _ => True

/-- The variable that is declared at the node. -/
def declared? : Node → Option Variable
  | declarator d => d.symbol
  | parameter p => p.symbol
  | _ => none

/-- The function that is called at the node, with the arguments. -/
def call? : Node → Option (Function × List Expr)
  | expr e => e.call?
  | _ => none

def CallsMatching (n : Node) : Prop :=
  ∀ call ∈ n.call?, Expr.Matches call.2 call.1.parameters

/-- The arguments of a call have exactly the types of the parameters. -/
def CallsExactly (n : Node) : Prop :=
  ∀ call ∈ n.call?, call.2.map (·.info.type) = call.1.parameters.map (some ·.type)

/-- Calls of functions match, and all other rules hold if no problem is noted. -/
def Sound (clean : Prop) : Node → Prop
  | expr e => Typed clean e.info.type e.info.constant ∧ e.CallsMatching ∧ (clean → e.Ruled)
  | typeSpec s => Known clean s.type
  | field d => Known clean d.type
  | declarator d => Known clean d.type ∧
      ∃ v, d.symbol = some v ∧ (clean → d.Initialized ∧ v.ConstantKnown)
  | parameter p => Known clean p.type
  | header h => clean → h.symbol ≠ none
  | condition c => clean → c.type = some .bool
  | .return returnType value => clean → Returns returnType value

end Node

end Essl
