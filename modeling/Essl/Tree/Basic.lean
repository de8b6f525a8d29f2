import Essl.Token.Basic
import Essl.Symbol

/-!
# Syntax trees

A tree keeps every token it was built from except separators. The types, symbols and constants
in it are absent after parsing; analysis fills them in, each time anew.
-/

namespace Essl

/-- What analysis finds out about an expression. -/
structure ExprInfo where
  type : Option Ty
  symbol : Option Symbol
  constant : Option Value

/-- Nothing known. -/
def ExprInfo.none : ExprInfo := ⟨.none, .none, .none⟩

/-- An expression, annotated with what is known of its type and value. -/
inductive Expr where
  /-- `left = right` or a compound assignment. -/
  | assignment (info : ExprInfo) (left : Expr) (op : Token) (right : Expr)
  /-- `condition ? whenTrue : whenFalse` -/
  | ternary (info : ExprInfo) (condition : Expr) (question : Token) (whenTrue : Expr)
      (colon : Token) (whenFalse : Expr)
  | binary (info : ExprInfo) (left : Expr) (op : Token) (right : Expr)
  /-- An operator before its operand. -/
  | unary (info : ExprInfo) (op : Token) (operand : Expr)
  /-- `operand++` or `operand--` -/
  | step (info : ExprInfo) (operand : Expr) (op : Token)
  /-- A number or truth value. -/
  | literal (info : ExprInfo) (token : Token)
  /-- An expression in parentheses. -/
  | group (info : ExprInfo) (opening : Token) (inner : Expr) (closing : Token)
  | «variable» (info : ExprInfo) (name : Token)
  /-- A call or constructor, with the `void` that may stand for no arguments. -/
  | call (info : ExprInfo) (callee opening : Token) (void : Option Token) (arguments : List Expr)
      (closing : Token)
  /-- An array constructor `callee[size](arguments)`. -/
  | arrayCall (info : ExprInfo) (callee bracket : Token) (size : Expr)
      (bracketEnd opening : Token) (void : Option Token) (arguments : List Expr) (closing : Token)
  /-- `operand.selector` -/
  | field (info : ExprInfo) (operand : Expr) (dot selector : Token)
  /-- `operand[index]` -/
  | index (info : ExprInfo) (operand : Expr) (opening : Token) (index : Expr) (closing : Token)
  /-- Expressions with commas between them. -/
  | list (info : ExprInfo) (exprs : List Expr)

/-- `[size]` -/
structure ArraySize where
  opening : Token
  size : Expr
  closing : Token

/-- A name in a declaration, with the size and initial value that may follow it. -/
structure Declarator where
  name : Token
  size : Option ArraySize
  initializer : Option Expr
  type : Option Ty
  symbol : Option Variable

/-- A declarator before analysis. -/
def Declarator.ofName (name : Token) (size : Option ArraySize) (initializer : Option Expr) :
    Declarator := ⟨name, size, initializer, none, none⟩

/-- The qualifiers in front of a type. -/
structure TypeQualifiers where
  /-- Storage qualifiers, in the order written. -/
  storage : List Token
  precision : Option Token

def TypeQualifiers.none : TypeQualifiers := ⟨[], .none⟩

mutual

/-- A type as it is written in a declaration. -/
inductive TypeSpec where
  /-- A built-in type or the name of a struct. -/
  | named (qualifiers : TypeQualifiers) (name : Token) (type : Option Ty)
  /-- A struct that is defined in place. -/
  | struct (qualifiers : TypeQualifiers) (keyword : Token) (name : Option Token)
      (opening : Token) (fields : List FieldSpec) (closing : Token) (defined : Option StructDef)
      (type : Option Ty)

/-- `type name, name;` in a struct. -/
structure FieldSpec where
  type : TypeSpec
  names : List Declarator
  semicolon : Token

end

/-- A parameter as it is written in a function header. -/
structure ParameterSpec where
  /-- `const` and a direction. -/
  qualifiers : List Token
  typeSpec : TypeSpec
  name : Option Token
  size : Option ArraySize
  /-- The type with the array size. -/
  type : Option Ty
  /-- The variable in the function. -/
  symbol : Option Variable

/-- The header that prototypes and definitions share. -/
structure FunctionHeader where
  returnType : TypeSpec
  name : Token
  opening : Token
  parameters : List ParameterSpec
  closing : Token
  symbol : Option Function

/-- A variable named after `invariant`, with what it stands for. -/
structure InvariantName where
  name : Token
  symbol : Option Variable

/-- The condition of a loop: an expression or `type name = initializer`. -/
inductive Condition where
  | expression (expr : Expr)
  | declaration (typeSpec : TypeSpec) (declarator : Declarator)

mutual

/-- A declaration, at the outermost level or in a block. -/
inductive Declaration where
  | declarators (typeSpec : TypeSpec) (declarators : List Declarator) (semicolon : Token)
  | type (typeSpec : TypeSpec) (semicolon : Token)
  | precision (keyword precision : Token) (typeSpec : TypeSpec) (semicolon : Token)
  | invariants (keyword : Token) (names : List InvariantName) (semicolon : Token)
  | prototype (header : FunctionHeader) (semicolon : Token)
  | function (header : FunctionHeader) (body : Block)

/-- Statements in braces. -/
structure Block where
  opening : Token
  statements : List Statement
  closing : Token
  /-- Bodies of functions and loops share the scope of what they are the body of. -/
  newScope : Bool

inductive Statement where
  | declaration (declaration : Declaration)
  | block (block : Block)
  | expression (expr : Expr) (semicolon : Token)
  | empty (semicolon : Token)
  | ifThen (keyword opening : Token) (condition : Expr) (closing : Token) (whenTrue : Statement)
  | ifElse (keyword opening : Token) (condition : Expr) (closing : Token) (whenTrue : Statement)
      (otherwise : Token) (whenFalse : Statement)
  | whileLoop (keyword opening : Token) (condition : Condition) (closing : Token)
      (body : Statement)
  | doLoop (keyword : Token) (body : Statement) (whileWord opening : Token) (condition : Expr)
      (closing semicolon : Token)
  | forLoop (keyword opening : Token) (init : Statement) (condition : Option Condition)
      (semicolon : Token) (increment : Option Expr) (closing : Token) (body : Statement)
  /-- `continue`, `break` or `discard`, as the keyword says. -/
  | jump (keyword semicolon : Token)
  | return (keyword : Token) (value : Option Expr) (semicolon : Token)

end

/-- A whole shader. -/
structure Shader where
  declarations : List Declaration

/-! ## Parts of nodes -/

/-- The annotation of an expression. -/
def Expr.info : Expr → ExprInfo
  | assignment info .. | ternary info .. | binary info .. | unary info .. | step info ..
  | literal info .. | group info .. | .variable info .. | call info .. | arrayCall info ..
  | field info .. | index info .. | list info .. => info

namespace TypeSpec

def qualifiers : TypeSpec → TypeQualifiers
  | named q .. | struct q .. => q

/-- The resolved type. -/
def type : TypeSpec → Option Ty
  | named _ _ type => type
  | struct _ _ _ _ _ _ _ type => type

/-- The word that names the type, if it has a name. -/
def name : TypeSpec → Option Token
  | named _ name _ => some name
  | struct _ _ name _ _ _ _ _ => name

/-- The type with other qualifiers. -/
def setQualifiers (q : TypeQualifiers) : TypeSpec → TypeSpec
  | named _ name type => named q name type
  | struct _ keyword name opening fields closing defined type =>
    struct q keyword name opening fields closing defined type

end TypeSpec

end Essl
