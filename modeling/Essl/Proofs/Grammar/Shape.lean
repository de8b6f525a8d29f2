import Essl.Grammar.Shader
import Essl.Proofs.Tree.Spelling

/-!
# Trees that the grammar allows

A tree is well-formed if its tokens are of the kinds that their places ask for and every part
stands where the grammar allows it. For an expression inside another one this is a matter of
ranks: the tighter the operator at its root, the more places it can stand in without parentheses.
-/

namespace Essl

open Grammar

/-! ## Ranks -/

/-- The row of the ladder that an operator is from, the loosest row being row 0. -/
def Operator.ladderRow? (op : Operator) : Option Nat := ladder.findIdx? (·.contains op)

/-- The row of the ladder that a token is an operator of. -/
def Token.ladderRow? (t : Token) : Option Nat := t.kind.operator?.bind Operator.ladderRow?

/-- The rank of the operands that only operators before them join: 14. Rows of the ladder have
ranks 3 to 13, those above a unary operand belong to names, groups and what is selected. -/
def unaryRank : Nat := ladder.length + 3

/-- The rank of what can be indexed or selected from. -/
def postfixRank : Nat := unaryRank + 1

/-- How tightly the parts of an expression hold together. -/
def Expr.rank : Expr → Nat
  | .list .. => 0
  | .assignment .. => 1
  | .ternary .. => 2
  | .binary _ _ op _ => op.ladderRow?.getD 0 + 3
  | .unary .. => unaryRank
  | .step .. | .literal .. | .group .. | .variable .. | .call .. | .arrayCall .. | .field ..
  | .index .. => postfixRank

/-- The least rank of the expressions that can stand at a level. -/
def Grammar.Level.rank : Level → Nat
  | .expression => 0
  | .assignment => 1
  | .conditional => 2
  | .unary => unaryRank

/-- How tightly a token holds on to an expression before it, if it can go on after one. -/
def Token.hold? (t : Token) : Option Nat :=
  match t.kind with
  | .operator .comma => some 0
  | .operator .question => some 2
  | .operator .openBracket | .operator .dot | .operator .increment | .operator .decrement
  | .operator .openParen => some postfixRank
  | .operator op => if op.isAssignment then some 1 else op.ladderRow?.map (· + 3)
  | _ => none

/-- The next token, if there is one, holds on only to looser expressions than those of a rank. -/
def Stops (rank : Nat) (rest : List Token) : Prop :=
  ∀ t ∈ rest.head?, ∀ hold ∈ t.hold?, hold < rank

/-- Whether a token can go on after an expression. -/
def Token.ContinuesExpr (t : Token) : Prop := t.hold? ≠ none

/-! ## Expressions -/

/-- The size of an array constructor stops at conditionals after a type name, and may be anything
after another name. -/
def sizeLevel (callee : Token) : Level :=
  if callee.kind = .identifier then .expression else .conditional

mutual

/-- Every part of an expression stands where the grammar allows it without parentheses. -/
def Expr.WellLevelled : Expr → Prop
  | .assignment _ left op right =>
    unaryRank ≤ left.rank ∧ left.WellLevelled ∧
      op.kind.operator?.any Operator.isAssignment ∧
      1 ≤ right.rank ∧ right.WellLevelled
  | .ternary _ condition question whenTrue colon whenFalse =>
    3 ≤ condition.rank ∧ condition.WellLevelled ∧ question.kind = .operator .question ∧
      whenTrue.WellLevelled ∧ colon.kind = .operator .colon ∧
      1 ≤ whenFalse.rank ∧ whenFalse.WellLevelled
  | .binary _ left op right =>
    ∃ row, op.ladderRow? = some row ∧ row + 3 ≤ left.rank ∧ left.WellLevelled ∧
      row + 3 < right.rank ∧ right.WellLevelled
  | .unary _ op operand =>
    (∃ o ∈ unaryOperators, op.kind = .operator o) ∧ unaryRank ≤ operand.rank ∧
      operand.WellLevelled
  | .step _ operand op =>
    postfixRank ≤ operand.rank ∧ operand.WellLevelled ∧
      (op.kind = .operator .increment ∨ op.kind = .operator .decrement)
  | .literal _ token => token.kind ∈ literalStart
  | .group _ opening inner closing =>
    opening.kind = .operator .openParen ∧ inner.WellLevelled ∧
      closing.kind = .operator .closeParen
  | .variable _ name => name.kind = .identifier
  | .call _ callee opening void arguments closing =>
    callee.kind ∈ nameStart ∧ opening.kind = .operator .openParen ∧
      (∀ v ∈ void, v.kind = .keyword (.type .void) ∧ arguments = []) ∧
      Expr.ArgumentsLevelled arguments ∧ closing.kind = .operator .closeParen
  | .arrayCall _ callee bracket size bracketEnd opening void arguments closing =>
    callee.kind ∈ nameStart ∧ bracket.kind = .operator .openBracket ∧
      (sizeLevel callee).rank ≤ size.rank ∧ size.WellLevelled ∧
      bracketEnd.kind = .operator .closeBracket ∧ opening.kind = .operator .openParen ∧
      (∀ v ∈ void, v.kind = .keyword (.type .void) ∧ arguments = []) ∧
      Expr.ArgumentsLevelled arguments ∧ closing.kind = .operator .closeParen
  | .field _ operand dot selector =>
    postfixRank ≤ operand.rank ∧ operand.WellLevelled ∧ dot.kind = .operator .dot ∧
      selector.kind = .identifier
  | .index _ operand opening position closing =>
    postfixRank ≤ operand.rank ∧ operand.WellLevelled ∧
      opening.kind = .operator .openBracket ∧ position.WellLevelled ∧
      closing.kind = .operator .closeBracket
  | .list _ exprs => 2 ≤ exprs.length ∧ Expr.ArgumentsLevelled exprs

/-- Every expression of a list is a well-levelled one without commas. -/
def Expr.ArgumentsLevelled : List Expr → Prop
  | [] => True
  | e :: es => 1 ≤ e.rank ∧ e.WellLevelled ∧ Expr.ArgumentsLevelled es

end

/-- An expression that can stand at a level. -/
def Expr.FitsLevel (level : Level) (e : Expr) : Prop := level.rank ≤ e.rank ∧ e.WellLevelled

/-! ## Types -/

/-- `[size]` with a size that is a conditional expression. -/
def ArraySize.WellFormed (size : ArraySize) : Prop :=
  size.opening.kind = .operator .openBracket ∧ size.size.FitsLevel .conditional ∧
    size.closing.kind = .operator .closeBracket

/-- A declared name with a size and an initializer, each of which may be missing. -/
def Declarator.WellFormed (d : Declarator) : Prop :=
  d.name.kind = .identifier ∧ (∀ size ∈ d.size, size.WellFormed) ∧
    ∀ e ∈ d.initializer, e.FitsLevel .assignment

/-- The name of a field has no initializer. -/
def Declarator.WellFormedField (d : Declarator) : Prop := d.WellFormed ∧ d.initializer = none

namespace TypeQualifiers

def Bare (q : TypeQualifiers) : Prop := q.storage = [] ∧ q.precision = .none

def Precise (q : TypeQualifiers) : Prop :=
  q.storage = [] ∧ ∀ p ∈ q.precision, p.kind ∈ precisionStart

/-- The storage qualifiers of a type: none, one other than `invariant`, or `invariant varying`. -/
def StorageAllowed : List Token → Prop
  | [] => True
  | [word] => word.kind ∈ storageStart ∧ word.kind ≠ .keyword (.qualifier .invariant)
  | [first, second] =>
    first.kind = .keyword (.qualifier .invariant) ∧
      second.kind = .keyword (.qualifier .varying)
  | _ => False

def Full (q : TypeQualifiers) : Prop :=
  StorageAllowed q.storage ∧ ∀ p ∈ q.precision, p.kind ∈ precisionStart

end TypeQualifiers

mutual

/-- The type is well-formed, whatever its qualifiers are. -/
def TypeSpec.CoreFormed : TypeSpec → Prop
  | .named _ name _ => name.kind ∈ bareTypeStart ∧ name.kind ≠ .keyword .struct
  | .struct _ keyword name opening fields closing _ _ =>
    keyword.kind = .keyword .struct ∧ (∀ n ∈ name, n.kind = .identifier) ∧
      opening.kind = .operator .openBrace ∧ fields ≠ [] ∧ FieldSpec.AllFormed fields ∧
      closing.kind = .operator .closeBrace

def FieldSpec.AllFormed : List FieldSpec → Prop
  | [] => True
  | ⟨type, names, semicolon⟩ :: rest =>
    type.qualifiers.Precise ∧ type.CoreFormed ∧ names ≠ [] ∧
      (∀ d ∈ names, d.WellFormedField) ∧ semicolon.kind = .operator .semicolon ∧
      FieldSpec.AllFormed rest

end

def TypeSpec.BareFormed (s : TypeSpec) : Prop := s.qualifiers.Bare ∧ s.CoreFormed

def TypeSpec.PreciseFormed (s : TypeSpec) : Prop := s.qualifiers.Precise ∧ s.CoreFormed

/-- A type with any qualifiers that it can have. -/
def TypeSpec.FullFormed (s : TypeSpec) : Prop := s.qualifiers.Full ∧ s.CoreFormed

/-! ## Declarations and statements -/

/-- A parameter: `const` and a direction, a type, and perhaps a name and a size. -/
def ParameterSpec.WellFormed (p : ParameterSpec) : Prop :=
  (∃ const direction : Option Token, p.qualifiers = const.toList ++ direction.toList ∧
      (∀ t ∈ const, t.kind = .keyword (.qualifier .const)) ∧
      ∀ t ∈ direction, t.kind.keyword?.any Keyword.isDirection) ∧
    p.typeSpec.PreciseFormed ∧ (∀ t ∈ p.name, t.kind = .identifier) ∧
    ∀ size ∈ p.size, size.WellFormed

/-- The part of a function that prototypes and definitions share. -/
def FunctionHeader.WellFormed (h : FunctionHeader) : Prop :=
  h.returnType.FullFormed ∧ h.name.kind = .identifier ∧
    h.opening.kind = .operator .openParen ∧ (∀ p ∈ h.parameters, p.WellFormed) ∧
    h.closing.kind = .operator .closeParen

/-- An expression, or a type, a name and an initializer. -/
def Condition.WellFormed : Condition → Prop
  | .expression e => e.FitsLevel .expression
  | .declaration typeSpec d =>
    typeSpec.FullFormed ∧ d.WellFormed ∧ d.size = none ∧ d.initializer ≠ none

/-- Whether a statement ends in a conditional that an `else` could still follow. -/
def Statement.EndsOpen : Statement → Prop
  | .ifThen .. => True
  | .ifElse _ _ _ _ _ _ whenFalse => whenFalse.EndsOpen
  | .whileLoop _ _ _ _ body => body.EndsOpen
  | .forLoop _ _ _ _ _ _ _ body => body.EndsOpen
  | _ => False

/-- Among statements `name;` is an expression and not a type. -/
def Declaration.OpensStatement : Declaration → Prop
  | .type (.named q name _) _ => q.Bare → name.kind ≠ .identifier
  | _ => True

/-- Whether a statement can be the first part of a `for`. -/
def Statement.IsSimple : Statement → Prop
  | .declaration _ | .expression .. | .empty _ => True
  | _ => False

mutual

def Declaration.WellFormed : Declaration → Prop
  | .declarators typeSpec ds semicolon =>
    typeSpec.FullFormed ∧ ds ≠ [] ∧ (∀ d ∈ ds, d.WellFormed) ∧
      semicolon.kind = .operator .semicolon
  | .type typeSpec semicolon => typeSpec.FullFormed ∧ semicolon.kind = .operator .semicolon
  | .precision keyword precision typeSpec semicolon =>
    keyword.kind = .keyword .precision ∧ precision.kind ∈ precisionStart ∧
      typeSpec.BareFormed ∧ semicolon.kind = .operator .semicolon
  | .invariants keyword names semicolon =>
    keyword.kind = .keyword (.qualifier .invariant) ∧ names ≠ [] ∧
      (∀ n ∈ names, n.name.kind = .identifier) ∧ semicolon.kind = .operator .semicolon
  | .prototype header semicolon => header.WellFormed ∧ semicolon.kind = .operator .semicolon
  | .function header body => header.WellFormed ∧ body.WellFormed false

/-- A block that the grammar allows where blocks have scopes of their own or not. -/
def Block.WellFormed (ownScope : Bool) : Block → Prop
  | ⟨opening, statements, closing, newScope⟩ =>
    opening.kind = .operator .openBrace ∧ Statement.AllFormed statements ∧
      closing.kind = .operator .closeBrace ∧ newScope = ownScope

/-- A statement that the grammar allows where blocks have scopes of their own or not. An `else`
belongs to the nearest conditional before it. -/
def Statement.WellFormed (ownScope : Bool) : Statement → Prop
  | .declaration d => d.WellFormed ∧ d.OpensStatement
  | .block b => b.WellFormed ownScope
  | .expression e semicolon => e.FitsLevel .expression ∧ semicolon.kind = .operator .semicolon
  | .empty semicolon => semicolon.kind = .operator .semicolon
  | .ifThen keyword opening condition closing whenTrue =>
    keyword.kind = .keyword .if ∧ opening.kind = .operator .openParen ∧
      condition.FitsLevel .expression ∧ closing.kind = .operator .closeParen ∧
      whenTrue.WellFormed true
  | .ifElse keyword opening condition closing whenTrue otherwise whenFalse =>
    keyword.kind = .keyword .if ∧ opening.kind = .operator .openParen ∧
      condition.FitsLevel .expression ∧ closing.kind = .operator .closeParen ∧
      whenTrue.WellFormed true ∧ ¬ whenTrue.EndsOpen ∧ otherwise.kind = .keyword .else ∧
      whenFalse.WellFormed true
  | .whileLoop keyword opening condition closing body =>
    keyword.kind = .keyword .while ∧ opening.kind = .operator .openParen ∧
      condition.WellFormed ∧ closing.kind = .operator .closeParen ∧ body.WellFormed false
  | .doLoop keyword body whileWord opening condition closing semicolon =>
    keyword.kind = .keyword .do ∧ body.WellFormed true ∧ whileWord.kind = .keyword .while ∧
      opening.kind = .operator .openParen ∧ condition.FitsLevel .expression ∧
      closing.kind = .operator .closeParen ∧ semicolon.kind = .operator .semicolon
  | .forLoop keyword opening init condition semicolon increment closing body =>
    keyword.kind = .keyword .for ∧ opening.kind = .operator .openParen ∧
      init.WellFormed true ∧ init.IsSimple ∧ (∀ c ∈ condition, c.WellFormed) ∧
      semicolon.kind = .operator .semicolon ∧ (∀ e ∈ increment, e.FitsLevel .expression) ∧
      closing.kind = .operator .closeParen ∧ body.WellFormed false
  | .jump keyword semicolon =>
    (keyword.kind = .keyword .continue ∨ keyword.kind = .keyword .break ∨
        keyword.kind = .keyword .discard) ∧
      semicolon.kind = .operator .semicolon
  | .return keyword value semicolon =>
    keyword.kind = .keyword .return ∧ (∀ e ∈ value, e.FitsLevel .expression) ∧
      semicolon.kind = .operator .semicolon

/-- Every statement of a list is one that the grammar allows in a block. -/
def Statement.AllFormed : List Statement → Prop
  | [] => True
  | s :: ss => s.WellFormed true ∧ Statement.AllFormed ss

end

def Shader.WellFormed (shader : Shader) : Prop := ∀ d ∈ shader.declarations, d.WellFormed

end Essl
