import Essl.Typing.Context

/-!
# Operators and assignments

The operands are typed already. Nothing is said about an operand without a type.
-/

namespace Essl

/-- Types a number or truth value. -/
def typeLiteral (token : Token) : ExprInfo :=
  match token.kind with
  | .intConstant => .ofValue .int (token.intValue?.map .int)
  | .floatConstant => .ofValue .float ((Number.read? token.text.toList).map .float)
  | _ => .ofValue .bool (some (.bool (token.text == "true")))

def typeVariable (c : Context) (name : Token) : Noted ExprInfo := do
  match ← c.variableNamed? name with
  | some v => pure ⟨v.type, some (.variable v), v.constant⟩
  | none => pure .none

/-- An expression that is written to is a variable that may be written, or a part of one. -/
def requireWritable : Expr → Noted Unit
  | .variable info name =>
    match info.symbol with
    | some (.variable v) =>
      if v.readOnly then report (.readOnlyAssignment name.text) name.location else pure ()
    | _ => pure ()
  | .group _ _ inner _ => requireWritable inner
  | .field _ operand _ _ => requireWritable operand
  | .index _ operand _ _ _ => requireWritable operand
  | other => if other.info.type.isSome then report .notAssignable other.location else pure ()

/-- The overload of an operator for operands of some types. -/
def findOperator (name : String) (types : List Ty) (location : Location) :
    Noted (Option Function) :=
  match Builtin.operator? name types with
  | some f => pure (some f)
  | none => do
    report (.noMatchingOperator (signature name (types.map Ty.text))) location
    pure none

/-- Types an operator applied to operands. -/
def typeOperator (op : Token) (operands : List Expr) : Noted ExprInfo :=
  match types? operands with
  | none => pure .none
  | some types => do
    match ← findOperator op.text types op.location with
    | none => pure .none
    | some f =>
      let constant := do (← f.evaluate) (← constants? operands)
      pure (.ofValue f.returnType constant)

/-- What `==` and `!=` give for equal operands. -/
def equalityResult? (op : Token) : Option Bool :=
  if op.isOperator .equal then some true
  else if op.isOperator .notEqual then some false
  else none

/-- Types an operator between two operands. Values of any one type can be compared; an operand
without a type leaves that of the other. -/
def typeBinary (left : Expr) (op : Token) (right : Expr) : Noted ExprInfo :=
  match left.info.type, right.info.type with
  | none, none => pure .none
  | some type, none | none, some type => pure (.ofType type)
  | some leftType, some rightType =>
    match equalityResult? op with
    | some expected =>
      if leftType = rightType then
        let constant : Option Value := do
          let a ← left.info.constant
          let b ← right.info.constant
          pure (.bool (a.same b == expected))
        pure (.ofValue .bool constant)
      else typeOperator op [left, right]
    | none => typeOperator op [left, right]

/-- Types an operator before or after its operand. -/
def typeUnary (op : Token) (operand : Expr) : Noted ExprInfo := do
  if op.isOperator .increment || op.isOperator .decrement then requireWritable operand
  typeOperator op [operand]

/-- Checks the value that a compound assignment writes. -/
def checkCompound (base : Operator) (op : Token) (leftType rightType : Ty) (right : Expr) :
    Noted Unit := do
  match ← findOperator base.text [leftType, rightType] op.location with
  | some f => requireType leftType f.returnType right.location
  | none => pure ()

/-- Types an assignment, which has the type of what it writes to. -/
def typeAssignment (left : Expr) (op : Token) (right : Expr) : Noted ExprInfo := do
  requireWritable left
  match left.info.type, right.info.type with
  | some leftType, some rightType =>
    match op.kind.operator?.bind Operator.compound? with
    | some base => checkCompound base op leftType rightType right
    | none => requireType leftType rightType right.location
  | _, _ => pure ()
  pure (.ofType left.info.type)

/-- Types `condition ? whenTrue : whenFalse`, the condition being checked already. -/
def typeChoice (condition whenTrue whenFalse : Expr) : Noted ExprInfo :=
  let constant : Option Value := do
    let chosen ← (← condition.info.constant).asBool?
    if chosen then whenTrue.info.constant else whenFalse.info.constant
  match whenTrue.info.type, whenFalse.info.type with
  | some a, some b =>
    if a = b then pure (.ofValue a constant)
    else do
      report (.branchMismatch a b) (whenTrue.location.join whenFalse.location)
      pure (.ofType a)
  | a, b => pure ⟨a.or b, none, constant⟩

end Essl
