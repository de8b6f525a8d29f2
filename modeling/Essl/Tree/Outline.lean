import Essl.Tree.Basic

/-!
# Outlines

A tree written as indented lines: the kind of each node, the word that identifies it and its
type, where these are known.
-/

namespace Essl

/-- A title with subordinate outlines. -/
inductive Outline where
  | node (title : String) (children : List Outline)

namespace Outline

mutual

/-- The lines of an outline, each indented by two spaces a level. -/
def render (indent : String) : Outline → String
  | node title children => indent ++ title ++ "\n" ++ renderAll (indent ++ "  ") children

def renderAll (indent : String) : List Outline → String
  | [] => ""
  | o :: os => o.render indent ++ renderAll indent os

end

/-- The outline as lines of text. -/
def toText (o : Outline) : String := o.render ""

/-- The title of a node. -/
def title (kind : String) (token : Option Token) (type : Option Ty) : String :=
  kind ++ (token.elim "" fun t => " `" ++ t.text ++ "`") ++ (type.elim "" fun t => " : " ++ t.text)

end Outline

open Outline (node title)

mutual

/-- The outline of an expression, with its type and value. -/
def Expr.outline : Expr → Outline
  | .assignment info left op right =>
    node (title "Assignment" op info.type) [left.outline, right.outline]
  | .ternary info condition _ whenTrue _ whenFalse =>
    node (title "Ternary" none info.type)
      [condition.outline, whenTrue.outline, whenFalse.outline]
  | .binary info left op right => node (title "Binary" op info.type) [left.outline, right.outline]
  | .unary info op operand => node (title "Unary" op info.type) [operand.outline]
  | .step info operand op => node (title "Postfix" op info.type) [operand.outline]
  | .literal info token => node (title "Constant" token info.type) []
  | .group info _ inner _ => node (title "Group" none info.type) [inner.outline]
  | .variable info name => node (title "Variable" name info.type) []
  | .call info callee _ _ arguments _ =>
    node (title "Call" callee info.type) (Expr.outlines arguments)
  | .arrayCall info callee _ size _ _ _ arguments _ =>
    node (title "Call" callee info.type)
      (node "ArraySize" [size.outline] :: Expr.outlines arguments)
  | .field info operand _ selector => node (title "Field" selector info.type) [operand.outline]
  | .index info operand _ inner _ =>
    node (title "Index" none info.type) [operand.outline, inner.outline]
  | .list info exprs => node (title "List" none info.type) (Expr.outlines exprs)

def Expr.outlines : List Expr → List Outline
  | [] => []
  | e :: es => e.outline :: Expr.outlines es

end

def ArraySize.outline (size : ArraySize) : Outline := node "ArraySize" [size.size.outline]

def Declarator.outline (d : Declarator) : Outline :=
  node (title "Declarator" d.name d.type)
    ((d.size.map ArraySize.outline).toList ++ (d.initializer.map Expr.outline).toList)

private def qualifierOutline (token : Token) : Outline := node (title "Qualifier" token none) []

def TypeQualifiers.outlines (q : TypeQualifiers) : List Outline :=
  (q.storage ++ q.precision.toList).map qualifierOutline

mutual

def TypeSpec.outline : TypeSpec → Outline
  | .named q name type => node (title "TypeSpecifier" name type) q.outlines
  | .struct q _ name _ fields _ _ type =>
    node (title "TypeSpecifier" none type)
      (q.outlines ++ [node (title "StructSpecifier" name none) (FieldSpec.outlines fields)])

def FieldSpec.outlines : List FieldSpec → List Outline
  | [] => []
  | ⟨type, names, _⟩ :: rest =>
    node "FieldDeclaration" (type.outline :: names.map Declarator.outline) ::
      FieldSpec.outlines rest

end

def ParameterSpec.outline (p : ParameterSpec) : Outline :=
  node (title "Parameter" p.name p.type)
    (p.qualifiers.map qualifierOutline ++ p.typeSpec.outline ::
      (p.size.map ArraySize.outline).toList)

def FunctionHeader.outline (header : FunctionHeader) : Outline :=
  node (title "FunctionHeader" header.name none)
    (header.returnType.outline :: header.parameters.map ParameterSpec.outline)

/-- The outline of a name after `invariant`. -/
def InvariantName.outline (n : InvariantName) : Outline :=
  node (title "InvariantName" n.name (n.symbol.bind Variable.type)) []

def Condition.outline : Condition → Outline
  | expression expr => expr.outline
  | declaration typeSpec declarator =>
    node "ConditionDeclaration" [typeSpec.outline, declarator.outline]

/-- The kind of statement that a keyword alone makes. -/
private def jumpTitle (keyword : Token) : String :=
  match keyword.kind with
  | .keyword .continue => "ContinueStatement"
  | .keyword .break => "BreakStatement"
  | _ => "DiscardStatement"

mutual

def Declaration.outline : Declaration → Outline
  | .declarators typeSpec declarators _ =>
    node "VariableDeclaration" (typeSpec.outline :: declarators.map Declarator.outline)
  | .type typeSpec _ => node "TypeDeclaration" [typeSpec.outline]
  | .precision _ precision typeSpec _ =>
    node (title "PrecisionStatement" precision none) [typeSpec.outline]
  | .invariants _ names _ => node "InvariantDeclaration" (names.map InvariantName.outline)
  | .prototype header _ => node "FunctionPrototype" [header.outline]
  | .function header body => node "FunctionDefinition" [header.outline, body.outline]

def Block.outline : Block → Outline
  | ⟨_, statements, _, newScope⟩ =>
    node (if newScope then "Block" else "UnscopedBlock") (Statement.outlines statements)

def Statement.outline : Statement → Outline
  | .declaration d => d.outline
  | .block b => b.outline
  | .expression expr _ => node "ExpressionStatement" [expr.outline]
  | .empty _ => node "EmptyStatement" []
  | .ifThen _ _ condition _ whenTrue =>
    node "IfStatement" [condition.outline, whenTrue.outline]
  | .ifElse _ _ condition _ whenTrue _ whenFalse =>
    node "IfStatement" [condition.outline, whenTrue.outline, whenFalse.outline]
  | .whileLoop _ _ condition _ body => node "WhileStatement" [condition.outline, body.outline]
  | .doLoop _ body _ _ condition _ _ => node "DoStatement" [body.outline, condition.outline]
  | .forLoop _ _ init condition _ increment _ body =>
    node "ForStatement"
      (init.outline :: (condition.map Condition.outline).toList ++
        (increment.map Expr.outline).toList ++ [body.outline])
  | .jump keyword _ => node (jumpTitle keyword) []
  | .return _ value _ => node "ReturnStatement" (value.map Expr.outline).toList

def Statement.outlines : List Statement → List Outline
  | [] => []
  | s :: rest => s.outline :: Statement.outlines rest

end

def Shader.outline (shader : Shader) : Outline :=
  node "TranslationUnit" (shader.declarations.map Declaration.outline)

end Essl
