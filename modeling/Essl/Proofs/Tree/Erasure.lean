import Essl.Tree.Basic

/-!
# Trees without annotations

Erasing forgets the types, symbols and constants that analysis has written into a tree. What is
left is the tree as the grammar builds it.
-/

namespace Essl

mutual

/-- The expression without what is known of its types and values. -/
def Expr.erase : Expr → Expr
  | .assignment _ left op right => .assignment .none left.erase op right.erase
  | .ternary _ condition question whenTrue colon whenFalse =>
    .ternary .none condition.erase question whenTrue.erase colon whenFalse.erase
  | .binary _ left op right => .binary .none left.erase op right.erase
  | .unary _ op operand => .unary .none op operand.erase
  | .step _ operand op => .step .none operand.erase op
  | .literal _ token => .literal .none token
  | .group _ opening inner closing => .group .none opening inner.erase closing
  | .variable _ name => .variable .none name
  | .call _ callee opening void arguments closing =>
    .call .none callee opening void (Expr.eraseAll arguments) closing
  | .arrayCall _ callee bracket size bracketEnd opening void arguments closing =>
    .arrayCall .none callee bracket size.erase bracketEnd opening void
      (Expr.eraseAll arguments) closing
  | .field _ operand dot selector => .field .none operand.erase dot selector
  | .index _ operand opening position closing =>
    .index .none operand.erase opening position.erase closing
  | .list _ exprs => .list .none (Expr.eraseAll exprs)

def Expr.eraseAll : List Expr → List Expr
  | [] => []
  | e :: es => e.erase :: Expr.eraseAll es

end

def ArraySize.erase (size : ArraySize) : ArraySize := { size with size := size.size.erase }

/-- The declarator without its type, its variable and the annotations inside it. -/
def Declarator.erase (d : Declarator) : Declarator :=
  ⟨d.name, d.size.map ArraySize.erase, d.initializer.map Expr.erase, none, none⟩

mutual

/-- The type as it is written, without what it stands for. -/
def TypeSpec.erase : TypeSpec → TypeSpec
  | .named q name _ => .named q name none
  | .struct q keyword name opening fields closing _ _ =>
    .struct q keyword name opening (FieldSpec.eraseAll fields) closing none none

def FieldSpec.eraseAll : List FieldSpec → List FieldSpec
  | [] => []
  | ⟨type, names, semicolon⟩ :: rest =>
    ⟨type.erase, names.map Declarator.erase, semicolon⟩ :: FieldSpec.eraseAll rest

end

@[simp] theorem TypeSpec.qualifiers_erase (s : TypeSpec) : s.erase.qualifiers = s.qualifiers := by
  cases s <;> rfl

/-- The parameter without its type and variable. -/
def ParameterSpec.erase (p : ParameterSpec) : ParameterSpec :=
  ⟨p.qualifiers, p.typeSpec.erase, p.name, p.size.map ArraySize.erase, none, none⟩

/-- The header without the function it declares. -/
def FunctionHeader.erase (h : FunctionHeader) : FunctionHeader :=
  ⟨h.returnType.erase, h.name, h.opening, h.parameters.map ParameterSpec.erase, h.closing, none⟩

/-- The name without the variable it stands for. -/
def InvariantName.erase (n : InvariantName) : InvariantName := ⟨n.name, none⟩

def Condition.erase : Condition → Condition
  | .expression e => .expression e.erase
  | .declaration typeSpec d => .declaration typeSpec.erase d.erase

mutual

def Declaration.erase : Declaration → Declaration
  | .declarators typeSpec ds semicolon =>
    .declarators typeSpec.erase (ds.map Declarator.erase) semicolon
  | .type typeSpec semicolon => .type typeSpec.erase semicolon
  | .precision keyword precision typeSpec semicolon =>
    .precision keyword precision typeSpec.erase semicolon
  | .invariants keyword names semicolon =>
    .invariants keyword (names.map InvariantName.erase) semicolon
  | .prototype header semicolon => .prototype header.erase semicolon
  | .function header body => .function header.erase body.erase

def Block.erase : Block → Block
  | ⟨opening, statements, closing, newScope⟩ =>
    ⟨opening, Statement.eraseAll statements, closing, newScope⟩

def Statement.erase : Statement → Statement
  | .declaration d => .declaration d.erase
  | .block b => .block b.erase
  | .expression e semicolon => .expression e.erase semicolon
  | .empty semicolon => .empty semicolon
  | .ifThen keyword opening condition closing whenTrue =>
    .ifThen keyword opening condition.erase closing whenTrue.erase
  | .ifElse keyword opening condition closing whenTrue otherwise whenFalse =>
    .ifElse keyword opening condition.erase closing whenTrue.erase otherwise whenFalse.erase
  | .whileLoop keyword opening condition closing body =>
    .whileLoop keyword opening condition.erase closing body.erase
  | .doLoop keyword body whileWord opening condition closing semicolon =>
    .doLoop keyword body.erase whileWord opening condition.erase closing semicolon
  | .forLoop keyword opening init condition semicolon increment closing body =>
    .forLoop keyword opening init.erase (condition.map Condition.erase) semicolon
      (increment.map Expr.erase) closing body.erase
  | .jump keyword semicolon => .jump keyword semicolon
  | .return keyword value semicolon => .return keyword (value.map Expr.erase) semicolon

def Statement.eraseAll : List Statement → List Statement
  | [] => []
  | s :: ss => s.erase :: Statement.eraseAll ss

end

def Shader.erase (shader : Shader) : Shader := ⟨shader.declarations.map Declaration.erase⟩

end Essl
