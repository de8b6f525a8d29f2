import Essl.Grammar.Rule

/-!
# Grammar of expressions

Primary expressions, then operators after and before them, then a ladder of left-associative
binary operators from `*` up to `||`, then `?:`, assignment and the comma. Only the token after
a unary expression tells whether it is assigned to, so the ladder can also resume after an
operand that was already read.
-/

namespace Essl.Grammar

open Parse

/-! ## First tokens -/

/-- The type names, in the order in which diagnostics list them. -/
def typeKeywords : List Primitive :=
  [.bool, .float, .int] ++ Dimension.all.map (.vector .bool) ++
    Dimension.all.map (.vector .int) ++ Dimension.all.map (.vector .float) ++
    Dimension.all.map .matrix ++ [.sampler2D, .samplerCube, .void]

def literalStart : List TokenKind := [.intConstant, .floatConstant, .boolConstant]

/-- What an expression in parentheses starts with. -/
def groupStart : List TokenKind := [.operator .openParen]

/-- A name starts a reference or a call, a type name other than `void` a constructor. -/
def nameStart : List TokenKind :=
  .identifier :: (typeKeywords.filter (· != .void)).map fun p => .keyword (.type p)

/-- What an expression without operators starts with. -/
def primaryStart : List TokenKind := literalStart ++ groupStart ++ nameStart

/-- The operators that can come before an operand. -/
def unaryOperators : List Operator :=
  [.increment, .decrement, .plus, .minus, .logicalNot, .complement]

/-- What every expression starts with. -/
def exprStart : List TokenKind := primaryStart ++ unaryOperators.map .operator

/-- The binary operators by precedence, the loosest first. -/
def ladder : List (List Operator) :=
  [[.logicalOr], [.logicalXor], [.logicalAnd], [.bitOr], [.bitXor], [.bitAnd],
   [.equal, .notEqual], [.less, .greater, .lessEqual, .greaterEqual], [.shiftLeft, .shiftRight],
   [.plus, .minus], [.times, .divide, .remainder]]

/-! ## Constructs

Expressions inside others are read by a parser for the levels at which they can stand. -/

/-- Where an expression can stand inside another one. -/
inductive Level where
  | unary
  | conditional
  | assignment
  | expression
  deriving DecidableEq

/-- Reads the expression of a level that starts with a token. -/
abbrev ExprParser : Type := Level → Token → Parse Expr

section

variable (inner : ExprParser)

/-- Reads the expression that starts with the next token. -/
def nextExpr (level : Level) : Parse Expr := next exprStart (inner level)

/-- `( expression )` after the parenthesis. -/
def group (opening : Token) : Parse Expr := do
  let expr ← nextExpr inner .expression
  let closing ← requireOperator .closeParen
  pure (.group .none opening expr closing)

/-- `[ size ]`, if there is one. -/
def sizeIn : Parse (Option ArraySize) := do
  match ← accept (.operator .openBracket) with
  | none => pure none
  | some opening =>
    let size ← nextExpr inner .conditional
    let closing ← requireOperator .closeBracket
    pure (some ⟨opening, size, closing⟩)

/-- The arguments after the first one and the closing parenthesis. -/
def argumentsTail : Nat → Parse (List Expr × Token)
  | 0 => fail [.operator .comma, .operator .closeParen] none
  | turns + 1 => do
    match ← take with
    | some t =>
      if t.isOperator .comma then
        let expr ← nextExpr inner .assignment
        let (exprs, closing) ← argumentsTail turns
        pure (expr :: exprs, closing)
      else if t.isOperator .closeParen then pure ([], t)
      else fail [.operator .comma, .operator .closeParen] t
    | none => fail [.operator .comma, .operator .closeParen] none

/-- The parts of a call after what is called. -/
structure CallTail where
  opening : Token
  void : Option Token
  arguments : List Expr
  closing : Token

/-- The arguments of a call in their parentheses. -/
def callTail : Parse CallTail := do
  let opening ← requireOperator .openParen
  match ← accept (.keyword (.type .void)) with
  | some void =>
    let closing ← requireOperator .closeParen
    pure ⟨opening, some void, [], closing⟩
  | none =>
    match ← accept (.operator .closeParen) with
    | some closing => pure ⟨opening, none, [], closing⟩
    | none =>
      let first ← nextExpr inner .assignment
      let (rest, closing) ← argumentsTail inner ((← remaining) + 1)
      pure ⟨opening, none, first :: rest, closing⟩

/-- A call of a function or of the constructor of a type. -/
def call (callee : Token) : Parse Expr := do
  let tail ← callTail inner
  pure (.call .none callee tail.opening tail.void tail.arguments tail.closing)

/-- A call of the constructor of an array type. -/
def arrayCall (callee : Token) (size : ArraySize) : Parse Expr := do
  let tail ← callTail inner
  pure (.arrayCall .none callee size.opening size.size size.closing tail.opening tail.void
    tail.arguments tail.closing)

/-- A constructor after its type name. -/
def constructor (callee : Token) : Parse Expr := do
  match ← peekKind with
  | some (.operator .openParen) => call inner callee
  | some (.operator .openBracket) =>
    match ← sizeIn inner with
    | some size => arrayCall inner callee size
    | none => call inner callee
  | _ => fail [.operator .openParen, .operator .openBracket] (← take)

/-- A variable, a call or an array constructor after its name. Brackets make an array
constructor only if a parenthesis follows them. -/
def reference (name : Token) : Parse Expr := do
  match ← peekKind with
  | some (.operator .openParen) => call inner name
  | some (.operator .openBracket) =>
    let opening ← requireOperator .openBracket
    let index ← nextExpr inner .expression
    let closing ← requireOperator .closeBracket
    if (← peekKind) = some (.operator .openParen) then
      arrayCall inner name ⟨opening, index, closing⟩
    else pure (.index .none (.variable .none name) opening index closing)
  | _ => pure (.variable .none name)

/-- A variable, call or constructor after its name. -/
def functionOrVariable (name : Token) : Parse Expr :=
  if name.kind = .identifier then reference inner name else constructor inner name

/-- A literal, group, variable, call or constructor that starts with a token. -/
def primary (t : Token) : Parse Expr :=
  if literalStart.contains t.kind then pure (.literal .none t)
  else if groupStart.contains t.kind then group inner t
  else if nameStart.contains t.kind then functionOrVariable inner t
  else fail primaryStart t

/-- Indexing, selections and steps after an operand. -/
def postfixes : Nat → Expr → Parse Expr
  | 0, operand => pure operand
  | turns + 1, operand => do
    match ← acceptOperator [.openBracket, .dot, .increment, .decrement] with
    | none => pure operand
    | some t =>
      if t.isOperator .openBracket then
        let index ← nextExpr inner .expression
        let closing ← requireOperator .closeBracket
        postfixes turns (.index .none operand t index closing)
      else if t.isOperator .dot then
        let selector ← require [.identifier]
        postfixes turns (.field .none operand t selector)
      else postfixes turns (.step .none operand t)

/-- An operand with the operators before and after it. -/
def unary (t : Token) : Parse Expr :=
  if unaryOperators.any (t.isOperator ·) then do
    let operand ← nextExpr inner .unary
    pure (.unary .none t operand)
  else if primaryStart.contains t.kind then do
    let operand ← primary inner t
    postfixes inner (← remaining) operand
  else fail exprStart t

/-- Operators of one level after their left operand. -/
def foldOperators (ops : List Operator) (operand : Token → Parse Expr) : Nat → Expr → Parse Expr
  | 0, left => pure left
  | turns + 1, left => do
    match ← acceptOperator ops with
    | none => pure left
    | some op =>
      let right ← next exprStart operand
      foldOperators ops operand turns (.binary .none left op right)

/-- An expression of the levels of a ladder. -/
def binary : List (List Operator) → Token → Parse Expr
  | [], t => unary inner t
  | ops :: tighter, t => do
    let left ← binary tighter t
    foldOperators ops (binary tighter) (← remaining) left

/-- The rest of an expression of the levels of a ladder, after its first operand. -/
def binaryResume : List (List Operator) → Expr → Parse Expr
  | [], operand => pure operand
  | ops :: tighter, operand => do
    let left ← binaryResume tighter operand
    foldOperators ops (binary inner tighter) (← remaining) left

/-- The two branches of a `?:` after its condition, if there are any. -/
def ternaryTail (condition : Expr) : Parse Expr := do
  match ← accept (.operator .question) with
  | none => pure condition
  | some question =>
    let whenTrue ← nextExpr inner .expression
    let colon ← requireOperator .colon
    let whenFalse ← nextExpr inner .assignment
    pure (.ternary .none condition question whenTrue colon whenFalse)

/-- A binary expression, which may be the condition of a choice. -/
def conditional (t : Token) : Parse Expr := do
  let condition ← binary inner ladder t
  ternaryTail inner condition

/-- A conditional whose first operand has been read. -/
def conditionalResume (operand : Expr) : Parse Expr := do
  let condition ← binaryResume inner ladder operand
  ternaryTail inner condition

/-- An assignment, or a conditional if no assignment operator follows. -/
def assignment (t : Token) : Parse Expr := do
  let left ← unary inner t
  match ← acceptIf (·.kind.operator?.any Operator.isAssignment) with
  | none => conditionalResume inner left
  | some op =>
    let right ← nextExpr inner .assignment
    pure (.assignment .none left op right)

/-- The expressions after commas. -/
def commaTail : Nat → Parse (List Expr)
  | 0 => pure []
  | turns + 1 => do
    match ← accept (.operator .comma) with
    | none => pure []
    | some _ =>
      let expr ← nextExpr inner .assignment
      let exprs ← commaTail turns
      pure (expr :: exprs)

/-- Assignments joined by commas. -/
def expression (t : Token) : Parse Expr := do
  let first ← assignment inner t
  match ← commaTail inner (← remaining) with
  | [] => pure first
  | rest => pure (.list .none (first :: rest))

/-- The expression of a level that starts with a token. -/
def exprOf : Level → Token → Parse Expr
  | .unary => unary inner
  | .conditional => conditional inner
  | .assignment => assignment inner
  | .expression => expression inner

end

/-- Reads expressions nested at most so deep. -/
def exprWithin : Nat → ExprParser
  | 0 => fun _ t => fail exprStart t
  | depth + 1 => exprOf (exprWithin depth)

/-- Reads with a parser for inner expressions that can go as deep as there are tokens. -/
def withInner {α : Type} (body : ExprParser → Parse α) : Parse α := fun ts =>
  body (exprWithin ts.length) ts

/-! ## Rules -/

/-- The rule for a level of expressions, all of which start alike. -/
def exprRule (body : ExprParser → Token → Parse Expr) : Rule Expr :=
  ⟨exprStart, fun t => withInner fun inner => body inner t⟩

/-- The rule for expressions with commas. -/
def expressionRule : Rule Expr := exprRule expression

/-- The rule for expressions without commas. -/
def assignmentRule : Rule Expr := exprRule assignment

/-- The rule for expressions without assignments. -/
def conditionalRule : Rule Expr := exprRule conditional

/-- The rule of the levels of a ladder. -/
def binaryRule (levels : List (List Operator)) : Rule Expr := exprRule fun inner =>
  binary inner levels

/-- The rule for operands with their operators. -/
def unaryRule : Rule Expr := exprRule unary

/-- The rule for expressions without operators. -/
def primaryRule : Rule Expr := ⟨primaryStart, fun t => withInner fun inner => primary inner t⟩

def literalRule : Rule Expr := ⟨literalStart, fun t => pure (.literal .none t)⟩

/-- The rule for expressions in parentheses. -/
def groupRule : Rule Expr := ⟨groupStart, fun t => withInner fun inner => group inner t⟩

/-- The rule for names and what is called by them. -/
def functionOrVariableRule : Rule Expr :=
  ⟨nameStart, fun t => withInner fun inner => functionOrVariable inner t⟩

/-- `[ size ]`, if there is one. -/
def arraySize : Parse (Option ArraySize) := withInner sizeIn

end Essl.Grammar
