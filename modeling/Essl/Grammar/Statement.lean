import Essl.Grammar.TypeSpec

/-!
# Grammar of declarations and statements

One token, or the two first tokens of a statement, tell a declaration from an expression.
-/

namespace Essl.Grammar

open Parse

def declarationStart : List TokenKind := .keyword .precision :: qualifiedTypeStart

/-- The first tokens of the statements that are neither declarations nor expressions. -/
def controlStart : List TokenKind :=
  [.operator .openBrace, .operator .semicolon, .keyword .if, .keyword .while, .keyword .do,
   .keyword .for, .keyword .continue, .keyword .break, .keyword .return, .keyword .discard]

/-- What a declaration or an expression starts with. -/
def simpleStart : List TokenKind :=
  declarationStart ++ exprStart.filter (!declarationStart.contains ·)

def statementStart : List TokenKind := controlStart ++ simpleStart

/-- Whether a statement that starts with these tokens is a declaration. -/
def startsDeclaration (first : Token) (second : Option TokenKind) : Bool :=
  match first.kind with
  | .identifier => second == some .identifier
  | .keyword (.type _) =>
    second != some (.operator .openParen) && second != some (.operator .openBracket)
  | .keyword (.qualifier q) => q.isStorage || q.isPrecision
  | .keyword .struct | .keyword .precision => true
  | _ => false

/-! ## Declarations -/

/-- `= initializer` and `[size]` after a declared name. -/
def declarator (name : Token) : Parse Declarator := do
  let size ← arraySize
  match ← accept (.operator .assign) with
  | none => pure (.ofName name size none)
  | some _ =>
    let initializer ← assignmentRule.next
    pure (.ofName name size initializer)

/-- `precision` after the keyword. -/
def precisionDeclaration (keyword : Token) : Parse Declaration := do
  let precision ← require precisionStart
  let typeSpec ← bareTypeRule.next
  let semicolon ← requireOperator .semicolon
  pure (.precision keyword precision typeSpec semicolon)

/-- Names and the semicolon after them. -/
def invariantNames : Nat → List TokenKind → Parse (List InvariantName × Token)
  | 0, expected => fail expected none
  | turns + 1, expected => do
    let name ← next expected fun t => if t.kind = .identifier then pure t else fail expected t
    match ← take with
    | some t =>
      if t.isOperator .comma then
        let (names, semicolon) ← invariantNames turns [.identifier]
        pure (⟨name, none⟩ :: names, semicolon)
      else if t.isOperator .semicolon then pure ([⟨name, none⟩], t)
      else fail [.operator .comma, .operator .semicolon] t
    | none => fail [.operator .comma, .operator .semicolon] none

/-- `invariant` names after the keyword. -/
def invariantDeclaration (keyword : Token) : Parse Declaration := do
  let (names, semicolon) ← invariantNames ((← remaining) + 1)
    [.keyword (.qualifier .varying), .identifier]
  pure (.invariants keyword names semicolon)

/-- What can follow a declarator. The first one may still turn out to be a function. -/
def afterDeclarator (first : Bool) (d : Declarator) : List TokenKind :=
  (if first && d.size.isNone && d.initializer.isNone then [.operator .openParen] else []) ++
    (if d.size.isNone && d.initializer.isNone then [.operator .openBracket] else []) ++
    (if d.initializer.isNone then [.operator .assign] else []) ++
    [.operator .comma, .operator .semicolon]

/-- The declarators after one, and the semicolon. -/
def moreDeclarators : Nat → Bool → Declarator → Parse (List Declarator × Token)
  | 0, first, last => fail (afterDeclarator first last) none
  | turns + 1, first, last => do
    match ← take with
    | some t =>
      if t.isOperator .semicolon then pure ([], t)
      else if t.isOperator .comma then
        let name ← require [.identifier]
        let d ← declarator name
        let (ds, semicolon) ← moreDeclarators turns false d
        pure (d :: ds, semicolon)
      else fail (afterDeclarator first last) t
    | none => fail (afterDeclarator first last) none

/-- A parameter of a function header. -/
def parameter : Parse ParameterSpec := do
  let const ← accept (.keyword (.qualifier .const))
  let direction ← acceptIf (·.kind.keyword?.any Keyword.isDirection)
  let typeSpec ← precisionTypeRule.next
  let name ← accept .identifier
  let size ← arraySize
  pure ⟨const.toList ++ direction.toList, typeSpec, name, size, none, none⟩

/-- Parameters and the closing parenthesis. -/
def parametersTail : Nat → Parse (List ParameterSpec × Token)
  | 0 => fail precisionTypeStart none
  | turns + 1 => do
    let p ← parameter
    match ← take with
    | some t =>
      if t.isOperator .comma then
        let (ps, closing) ← parametersTail turns
        pure (p :: ps, closing)
      else if t.isOperator .closeParen then pure ([p], t)
      else fail [.operator .comma, .operator .closeParen] t
    | none => fail [.operator .comma, .operator .closeParen] none

/-- The parameters of a function after the opening parenthesis, and the closing one. -/
def parameters : Parse (List ParameterSpec × Token) := do
  match ← accept (.operator .closeParen) with
  | some closing => pure ([], closing)
  | none => parametersTail ((← remaining) + 1)

section

variable (inner : Token → Parse Statement)

/-- The statements of a block and the closing brace. -/
def blockTail : Nat → Parse (List Statement × Token)
  | 0 => fail statementStart none
  | turns + 1 => do
    match ← take with
    | none => fail (.operator .closeBrace :: statementStart) none
    | some t =>
      if t.isOperator .closeBrace then pure ([], t)
      else
        let statement ← inner t
        let (statements, closing) ← blockTail turns
        pure (statement :: statements, closing)

/-- A block after its opening brace. -/
def block (opening : Token) (newScope : Bool) : Parse Block := do
  let (statements, closing) ← blockTail inner ((← remaining) + 1)
  pure ⟨opening, statements, closing, newScope⟩

/-- A function after its name and opening parenthesis. -/
def function (returnType : TypeSpec) (name opening : Token) : Parse Declaration := do
  let (parameters, closing) ← parameters
  let header : FunctionHeader := ⟨returnType, name, opening, parameters, closing, none⟩
  match ← take with
  | some t =>
    if t.isOperator .semicolon then pure (.prototype header t)
    else if t.isOperator .openBrace then
      let body ← block inner t false
      pure (.function header body)
    else fail [.operator .semicolon, .operator .openBrace] t
  | none => fail [.operator .semicolon, .operator .openBrace] none

/-- A declaration after its type. -/
def typedDeclaration (typeSpec : TypeSpec) : Parse Declaration := do
  match ← accept (.operator .semicolon) with
  | some semicolon => pure (.type typeSpec semicolon)
  | none =>
    let expected : List TokenKind := [.identifier, .operator .semicolon]
    let name ← next expected fun t => if t.kind = .identifier then pure t else fail expected t
    match ← accept (.operator .openParen) with
    | some opening => function inner typeSpec name opening
    | none =>
      let d ← declarator name
      let (ds, semicolon) ← moreDeclarators ((← remaining) + 1) true d
      pure (.declarators typeSpec (d :: ds) semicolon)

/-- A declaration that starts with a token that can start one. -/
def declaration (t : Token) : Parse Declaration := do
  if t.isKeyword .precision then precisionDeclaration t
  else if t.isKeyword (.qualifier .invariant) &&
      (← peekKind) != some (.keyword (.qualifier .varying)) then invariantDeclaration t
  else
    let typeSpec ← qualifiedTypeRule.parse t
    typedDeclaration inner typeSpec

/-- The rule for declarations, given how statements inside them are read. -/
def declarationRuleOf : Rule Declaration := ⟨declarationStart, declaration inner⟩

/-! ## Statements -/

/-- A declaration or expression statement. -/
def simpleStatement (t : Token) : Parse Statement := do
  if startsDeclaration t (← peekKind) then
    let d ← (declarationRuleOf inner).parseLookedAhead t
    pure (.declaration d)
  else
    let expr ← expressionRule.parseLookedAhead t
    let semicolon ← requireOperator .semicolon
    pure (.expression expr semicolon)

/-- The condition of a loop. -/
def condition : Parse Condition := next exprStart fun t => do
  if startsDeclaration t (← peekKind) then
    let typeSpec ← qualifiedTypeRule.parseLookedAhead t
    let name ← require [.identifier]
    let _ ← requireOperator .assign
    let initializer ← assignmentRule.next
    pure (.declaration typeSpec (.ofName name none initializer))
  else
    let expr ← expressionRule.parseLookedAhead t
    pure (.expression expr)

/-- The body of a loop, which shares its scope. -/
def loopBody : Parse Statement := do
  match ← accept (.operator .openBrace) with
  | some opening =>
    let body ← block inner opening false
    pure (.block body)
  | none => next statementStart inner

/-- A conditional after its keyword. -/
def ifStatement (keyword : Token) : Parse Statement := do
  let opening ← requireOperator .openParen
  let condition ← expressionRule.next
  let closing ← requireOperator .closeParen
  let whenTrue ← next statementStart inner
  match ← accept (.keyword .else) with
  | none => pure (.ifThen keyword opening condition closing whenTrue)
  | some otherwise =>
    let whenFalse ← next statementStart inner
    pure (.ifElse keyword opening condition closing whenTrue otherwise whenFalse)

/-- A loop with its condition first, after the keyword. -/
def whileStatement (keyword : Token) : Parse Statement := do
  let opening ← requireOperator .openParen
  let condition ← condition
  let closing ← requireOperator .closeParen
  let body ← loopBody inner
  pure (.whileLoop keyword opening condition closing body)

/-- A loop with its condition last, after the first keyword. -/
def doStatement (keyword : Token) : Parse Statement := do
  let body ← next statementStart inner
  let whileWord ← require [.keyword .while]
  let opening ← requireOperator .openParen
  let condition ← expressionRule.next
  let closing ← requireOperator .closeParen
  let semicolon ← requireOperator .semicolon
  pure (.doLoop keyword body whileWord opening condition closing semicolon)

/-- What the first part of a `for` starts with. -/
def forInitStart : List TokenKind := .operator .semicolon :: simpleStart

/-- The first part of a `for`, with its semicolon. -/
def forInit (t : Token) : Parse Statement :=
  if t.isOperator .semicolon then pure (.empty t)
  else if simpleStart.contains t.kind then simpleStatement inner t
  else fail forInitStart t

/-- A counting loop after its keyword. -/
def forStatement (keyword : Token) : Parse Statement := do
  let opening ← requireOperator .openParen
  let init ← next forInitStart (forInit inner)
  let condition ←
    if (← peekKind) = some (.operator .semicolon) then pure none else some <$> condition
  let semicolon ← requireOperator .semicolon
  let increment ←
    if (← peekKind) = some (.operator .closeParen) then pure none
    else some <$> expressionRule.next
  let closing ← requireOperator .closeParen
  let body ← loopBody inner
  pure (.forLoop keyword opening init condition semicolon increment closing body)

/-- A return, with or without a value, after its keyword. -/
def returnStatement (keyword : Token) : Parse Statement := do
  match ← accept (.operator .semicolon) with
  | some semicolon => pure (.return keyword none semicolon)
  | none =>
    let value ← expressionRule.next
    let semicolon ← requireOperator .semicolon
    pure (.return keyword (some value) semicolon)

/-- A statement whose first token has been taken. -/
def statement (t : Token) : Parse Statement := do
  match t.kind with
  | .operator .openBrace =>
    let body ← block inner t true
    pure (.block body)
  | .operator .semicolon => pure (.empty t)
  | .keyword .if => ifStatement inner t
  | .keyword .while => whileStatement inner t
  | .keyword .do => doStatement inner t
  | .keyword .for => forStatement inner t
  | .keyword .continue | .keyword .break | .keyword .discard =>
    let semicolon ← requireOperator .semicolon
    pure (.jump t semicolon)
  | .keyword .return => returnStatement t
  | kind =>
    if simpleStart.contains kind then simpleStatement inner t else fail statementStart t

end

/-- Reads statements nested at most so deep. -/
def statementWithin : Nat → Token → Parse Statement
  | 0 => fun t => fail statementStart t
  | depth + 1 => statement (statementWithin depth)

def statementRule : Rule Statement :=
  ⟨statementStart, fun t ts => statement (statementWithin ts.length) t ts⟩

def declarationRule : Rule Declaration :=
  ⟨declarationStart, fun t ts => declaration (statementWithin ts.length) t ts⟩

end Essl.Grammar
