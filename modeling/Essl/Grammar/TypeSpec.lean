import Essl.Grammar.Expr

/-!
# Grammar of types

A type name or struct definition, with a precision and storage qualifiers in front.
-/

namespace Essl.Grammar

open Parse

/-- What a type without qualifiers starts with. -/
def bareTypeStart : List TokenKind :=
  (typeKeywords.map fun p => .keyword (.type p)) ++ [.keyword .struct, .identifier]

/-- The precision qualifiers. -/
def precisionStart : List TokenKind :=
  [.keyword (.qualifier .highp), .keyword (.qualifier .mediump), .keyword (.qualifier .lowp)]

/-- What a type without storage qualifiers starts with. -/
def precisionTypeStart : List TokenKind := precisionStart ++ bareTypeStart

/-- The storage qualifiers. -/
def storageStart : List TokenKind :=
  [.keyword (.qualifier .const), .keyword (.qualifier .attrib), .keyword (.qualifier .uniform),
   .keyword (.qualifier .varying), .keyword (.qualifier .invariant)]

def qualifiedTypeStart : List TokenKind := storageStart ++ precisionTypeStart

section

variable (inner : Token → Parse TypeSpec)

/-- The names of a field declaration and the semicolon after them. -/
def fieldNames : Nat → Parse (List Declarator × Token)
  | 0 => fail [.identifier] none
  | turns + 1 => do
    let name ← require [.identifier]
    let size ← arraySize
    let declarator := Declarator.ofName name size none
    let expected : List TokenKind :=
      (if size.isSome then [] else [.operator .openBracket]) ++
        [.operator .comma, .operator .semicolon]
    match ← take with
    | some t =>
      if t.isOperator .comma then
        let (names, semicolon) ← fieldNames turns
        pure (declarator :: names, semicolon)
      else if t.isOperator .semicolon then pure ([declarator], t)
      else fail expected t
    | none => fail expected none

/-- One declaration of fields of a common type. -/
def fieldSpec : Parse FieldSpec := do
  let typeSpec ← next precisionTypeStart inner
  let (names, semicolon) ← fieldNames ((← remaining) + 1)
  pure ⟨typeSpec, names, semicolon⟩

/-- The fields after the first one and the closing brace. -/
def moreFields : Nat → Parse (List FieldSpec × Token)
  | 0 => fail precisionTypeStart none
  | turns + 1 => do
    match ← accept (.operator .closeBrace) with
    | some closing => pure ([], closing)
    | none =>
      let field ← fieldSpec inner
      let (fields, closing) ← moreFields turns
      pure (field :: fields, closing)

/-- A struct after its keyword. -/
def structSpec (keyword : Token) : Parse TypeSpec := do
  let name ← accept .identifier
  let opening ← require
    (if name.isSome then [.operator .openBrace] else [.identifier, .operator .openBrace])
  let field ← fieldSpec inner
  let (fields, closing) ← moreFields inner ((← remaining) + 1)
  pure (.struct .none keyword name opening (field :: fields) closing none none)

/-- A type without qualifiers. -/
def bareType (t : Token) : Parse TypeSpec :=
  if t.isKeyword .struct then structSpec inner t
  else if bareTypeStart.contains t.kind then pure (.named .none t none)
  else fail bareTypeStart t

/-- A type after its precision. -/
def precisionQualified (precision : Token) : Parse TypeSpec := do
  let typeSpec ← next bareTypeStart (bareType inner)
  pure (typeSpec.setQualifiers ⟨[], precision⟩)

/-- A type that may have a precision. -/
def precisionType (t : Token) : Parse TypeSpec :=
  if precisionStart.contains t.kind then precisionQualified inner t
  else if bareTypeStart.contains t.kind then bareType inner t
  else fail precisionTypeStart t

/-- A type after its first storage qualifier. Only `invariant varying` has two. -/
def storageQualified (qualifier : Token) : Parse TypeSpec := do
  let storage ←
    if qualifier.isKeyword (.qualifier .invariant) then do
      let varying ← require [.keyword (.qualifier .varying)]
      pure [qualifier, varying]
    else pure [qualifier]
  let typeSpec ← next precisionTypeStart (precisionType inner)
  pure (typeSpec.setQualifiers ⟨storage, typeSpec.qualifiers.precision⟩)

/-- A type that may have any qualifiers. -/
def qualifiedType (t : Token) : Parse TypeSpec :=
  if storageStart.contains t.kind then storageQualified inner t else precisionType inner t

end

/-- Reads types nested at most so deep in the fields of structs. -/
def typeWithin : Nat → Token → Parse TypeSpec
  | 0 => fun t => fail precisionTypeStart t
  | depth + 1 => precisionType (typeWithin depth)

/-- A rule for types whose fields can go as deep as there are tokens. -/
def typeRule (expected : List TokenKind)
    (body : (Token → Parse TypeSpec) → Token → Parse TypeSpec) : Rule TypeSpec :=
  ⟨expected, fun t ts => body (typeWithin ts.length) t ts⟩

/-- The rule for types without qualifiers. -/
def bareTypeRule : Rule TypeSpec := typeRule bareTypeStart bareType

def precisionQualifiedRule : Rule TypeSpec := typeRule precisionStart precisionQualified

/-- The rule for types that may have a precision. -/
def precisionTypeRule : Rule TypeSpec := typeRule precisionTypeStart precisionType

def storageQualifiedRule : Rule TypeSpec := typeRule storageStart storageQualified

/-- The rule for types that may have any qualifiers. -/
def qualifiedTypeRule : Rule TypeSpec := typeRule qualifiedTypeStart qualifiedType

end Essl.Grammar
