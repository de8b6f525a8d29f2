import Essl.Builtin.Operators
import Essl.Builtin.Variables
import Essl.Tree.Span
import Essl.Typing.Problem
import Essl.Typing.Scope

/-!
# What typing knows and finds

Expressions are typed in a context, which they only read. Declarations and statements also change
it. Problems are noted in the order in which they are found, and typing goes on: an expression
whose type cannot be told stays without one, and nothing more is said about it.
-/

namespace Essl

/-- A value with the problems found on the way to it. -/
structure Noted (α : Type) where
  value : α
  problems : List SemanticError

namespace Noted

instance : Monad Noted where
  pure a := ⟨a, []⟩
  bind x f :=
    let y := f x.value
    ⟨y.value, x.problems ++ y.problems⟩

@[simp] theorem value_pure {α : Type} (a : α) : (pure a : Noted α).value = a := rfl

@[simp] theorem problems_pure {α : Type} (a : α) : (pure a : Noted α).problems = [] := rfl

@[simp] theorem value_bind {α β : Type} (x : Noted α) (f : α → Noted β) :
    (x >>= f).value = (f x.value).value := rfl

@[simp] theorem problems_bind {α β : Type} (x : Noted α) (f : α → Noted β) :
    (x >>= f).problems = x.problems ++ (f x.value).problems := rfl

instance : LawfulMonad Noted :=
  .mk' Noted (fun ⟨value, problems⟩ => congrArg (Noted.mk value) (List.append_nil problems))
    (fun _ _ => rfl) (fun _ _ _ => congrArg (Noted.mk _) (List.append_assoc ..))

end Noted

/-- Notes a problem. -/
def report (cause : SemanticCause) (location : Location) : Noted Unit := ⟨(), [⟨cause, location⟩]⟩

/-- What typing depends on at a point of a shader. -/
structure Context where
  stage : Stage
  /-- Which of several functions with a name is found by it. -/
  order : FunctionOrder
  scopes : Scopes
  /-- Names of functions whose declarations name types that could not be told. -/
  unresolved : List String
  /-- What the function returns that is being typed. -/
  returnType : Option Ty
  /-- How many loops are around the current statement. -/
  loopDepth : Nat
  /-- How many structs are defined so far. -/
  structCount : Nat

/-- The context at the start of a shader. -/
def Context.empty (stage : Stage) (order : FunctionOrder) : Context :=
  ⟨stage, order, .empty, [], none, 0, 0⟩

/-- An action of typing. -/
abbrev Check (α : Type) : Type := StateT Context Noted α

/-! ## Names -/

/-- The variable that a name stands for. A name declared in the shader hides a built-in one. -/
def Context.variableNamed? (c : Context) (name : Token) : Noted (Option Variable) :=
  match c.scopes.lookup name.text with
  | some (.variable v) => pure (some v)
  | some _ => do
    report (.notAVariable name.text) name.location
    pure none
  | none =>
    match Builtin.variableNamed? name.text c.stage with
    | some v => pure (some v)
    | none => do
      report (.undeclaredIdentifier name.text) name.location
      pure none

/-- The type that a name stands for. -/
def Context.typeNamed? (c : Context) (name : Token) : Noted (Option Ty) :=
  match c.scopes.lookup name.text with
  | some (.struct s) => pure (some (.struct s))
  | some _ => do
    report (.notAType name.text) name.location
    pure none
  | none =>
    match Primitive.ofName? name.text with
    | some p => pure (some (.primitive p))
    | none => do
      report (.undeclaredIdentifier name.text) name.location
      pure none

/-- The function for a call, by its signature. -/
def Context.function? (c : Context) (name : String) (types : List Ty) : Option Function :=
  (c.scopes.lookupFunction (signature name (types.map Ty.text))).or (Builtin.function? name types)

/-! ## Common rules -/

namespace ExprInfo

/-- A known type and no known value. -/
def ofType (type : Option Ty) : ExprInfo := ⟨type, .none, .none⟩

/-- A known type and a value that may be known. -/
def ofValue (type : Ty) (constant : Option Value) : ExprInfo := ⟨type, .none, constant⟩

end ExprInfo

/-- Types have to be equal where both are known. -/
def requireType (expected actual : Option Ty) (location : Location) : Noted Unit :=
  match expected, actual with
  | some expected, some actual =>
    if expected = actual then pure () else report (.typeMismatch expected actual) location
  | _, _ => pure ()

/-- The type of a condition is `bool` if it is known. -/
def requireBool (type : Option Ty) (location : Location) : Noted Unit :=
  match type with
  | some type => if type = .bool then pure () else report (.conditionNotBool type) location
  | none => pure ()

/-- The values of expressions that all have one. -/
def constants? (exprs : List Expr) : Option (List Value) := exprs.mapM (·.info.constant)

/-- The types of expressions that all have one. -/
def types? (exprs : List Expr) : Option (List Ty) := exprs.mapM (·.info.type)

/-! ## Actions -/

/-- Declares a variable or struct. -/
def declare (name : Token) (symbol : Symbol) : Check Unit := do
  let c ← get
  match c.scopes.declare c.order.arrange name.text symbol with
  | .ok scopes => set { c with scopes }
  | .error existing =>
    report (.redeclaration name.text existing.kind existing.declaredAt) name.location

/-- Runs an action in a new scope. -/
def inScope {α : Type} (kind : ScopeKind) (action : Check α) : Check α := do
  modify fun c => { c with scopes := c.scopes.push kind }
  let result ← action
  modify fun c => { c with scopes := c.scopes.pop?.getD c.scopes }
  pure result

/-- Runs an action in the body of a loop. -/
def inLoop {α : Type} (action : Check α) : Check α := do
  modify fun c => { c with loopDepth := c.loopDepth + 1 }
  let result ← action
  modify fun c => { c with loopDepth := c.loopDepth - 1 }
  pure result

/-- Runs an action in the body of a function that returns a type. -/
def inFunction {α : Type} (returnType : Option Ty) (action : Check α) : Check α := do
  let outer := (← get).returnType
  modify fun c => { c with returnType }
  let result ← inScope .function action
  modify fun c => { c with returnType := outer }
  pure result

end Essl
