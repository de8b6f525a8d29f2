import Essl.Typing.Construction
import Essl.Typing.Selection

/-!
# Typing expressions

Every node gets a new type, symbol and constant; what it had before is not looked at.
-/

namespace Essl

/-- The length that a typed array size stands for: a positive integer constant. -/
def typeLength (size : Expr) : Noted (Option Nat) :=
  match size.info.type with
  | none => pure none
  | some type =>
    if type ≠ .int then do
      report (.arraySizeNotInteger type) size.location
      pure none
    else
      match size.info.constant.bind Value.asInt? with
      | none => do
        report .nonConstantArraySize size.location
        pure none
      | some i =>
        if i < 1 then do
          report (.arraySizeNotPositive i) size.location
          pure none
        else pure (some i.toInt.toNat)

mutual

/-- Types an expression and all expressions in it. -/
def Expr.check (c : Context) : Expr → Noted Expr
  | .assignment _ left op right => do
    let left ← left.check c
    let right ← right.check c
    pure (.assignment (← typeAssignment left op right) left op right)
  | .ternary _ condition question whenTrue colon whenFalse => do
    let condition ← condition.check c
    requireBool condition.info.type condition.location
    let whenTrue ← whenTrue.check c
    let whenFalse ← whenFalse.check c
    let info ← typeChoice condition whenTrue whenFalse
    pure (.ternary info condition question whenTrue colon whenFalse)
  | .binary _ left op right => do
    let left ← left.check c
    let right ← right.check c
    pure (.binary (← typeBinary left op right) left op right)
  | .unary _ op operand => do
    let operand ← operand.check c
    pure (.unary (← typeUnary op operand) op operand)
  | .step _ operand op => do
    let operand ← operand.check c
    pure (.step (← typeUnary op operand) operand op)
  | .literal _ token => pure (.literal (typeLiteral token) token)
  | .group _ opening inner closing => do
    let inner ← inner.check c
    pure (.group inner.info opening inner closing)
  | .variable _ name => do
    pure (.variable (← typeVariable c name) name)
  | .call _ callee opening void arguments closing => do
    let arguments ← checkAll c arguments
    let location := callee.location.join closing.location
    let info ← typeCall c callee arguments location
    pure (.call info callee opening void arguments closing)
  | .arrayCall _ callee bracket size bracketEnd opening void arguments closing => do
    let size ← size.check c
    let length ← typeLength size
    let arguments ← checkAll c arguments
    let location := callee.location.join closing.location
    let info ← typeArrayConstructor c callee length arguments location
    pure (.arrayCall info callee bracket size bracketEnd opening void arguments closing)
  | .field _ operand dot selector => do
    let operand ← operand.check c
    pure (.field (← typeField operand selector) operand dot selector)
  | .index _ operand opening index closing => do
    let operand ← operand.check c
    let index ← index.check c
    pure (.index (← typeIndex operand index) operand opening index closing)
  | .list _ exprs => do
    let exprs ← checkAll c exprs
    pure (.list (.ofType (exprs.getLast?.bind (·.info.type))) exprs)

/-- Types expressions from left to right. -/
def checkAll (c : Context) : List Expr → Noted (List Expr)
  | [] => pure []
  | e :: es => do
    let e ← e.check c
    let es ← checkAll c es
    pure (e :: es)

end

/-- Types an array size and gives the length. -/
def ArraySize.check (c : Context) (size : ArraySize) : Noted (ArraySize × Option Nat) := do
  let expr ← size.size.check c
  let length ← typeLength expr
  pure ({ size with size := expr }, length)

end Essl
