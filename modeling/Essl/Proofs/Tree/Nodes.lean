import Essl.Tree.Basic
import Mathlib.Data.List.Basic

/-!
# The nodes of a tree

The parts of a shader that typing says something about, each with all that its own rule is about:
expressions and types, what declares a name, what has to be a truth value and what a function
gives back.
-/

namespace Essl

/-- A part of a tree with a rule of its own. -/
inductive Node where
  | expr (e : Expr)
  | typeSpec (s : TypeSpec)
  /-- The name of a struct field. -/
  | field (d : Declarator)
  /-- The name of a variable. -/
  | declarator (d : Declarator)
  | parameter (p : ParameterSpec)
  | header (h : FunctionHeader)
  /-- The condition of a conditional statement or of a loop. -/
  | condition (c : Condition)
  /-- A `return` in a function whose header has the given return type. -/
  | return (returnType : Option Ty) (value : Option Expr)

mutual

/-- The expression and all expressions in it. -/
def Expr.nodes : Expr → List Node
  | e@(.assignment _ left _ right) => .expr e :: (left.nodes ++ right.nodes)
  | e@(.ternary _ condition _ whenTrue _ whenFalse) =>
    .expr e :: (condition.nodes ++ whenTrue.nodes ++ whenFalse.nodes)
  | e@(.binary _ left _ right) => .expr e :: (left.nodes ++ right.nodes)
  | e@(.unary _ _ operand) => .expr e :: operand.nodes
  | e@(.step _ operand _) => .expr e :: operand.nodes
  | e@(.literal ..) => [.expr e]
  | e@(.group _ _ inner _) => .expr e :: inner.nodes
  | e@(.variable ..) => [.expr e]
  | e@(.call _ _ _ _ arguments _) => .expr e :: Expr.nodesOfEach arguments
  | e@(.arrayCall _ _ _ size _ _ _ arguments _) =>
    .expr e :: (size.nodes ++ Expr.nodesOfEach arguments)
  | e@(.field _ operand _ _) => .expr e :: operand.nodes
  | e@(.index _ operand _ position _) => .expr e :: (operand.nodes ++ position.nodes)
  | e@(.list _ exprs) => .expr e :: Expr.nodesOfEach exprs

def Expr.nodesOfEach : List Expr → List Node
  | [] => []
  | e :: es => e.nodes ++ Expr.nodesOfEach es

end

theorem Expr.expr_mem_nodes (e : Expr) : Node.expr e ∈ e.nodes := by
  cases e <;> simp [nodes]

/-- The nodes of a size, if there is one. -/
def sizeNodes : Option ArraySize → List Node
  | none => []
  | some size => size.size.nodes

/-- The nodes of an expression, if there is one. -/
def optionalNodes : Option Expr → List Node
  | none => []
  | some e => e.nodes

namespace Declarator

/-- The nodes of the size and the initial value. -/
def inside (d : Declarator) : List Node := sizeNodes d.size ++ optionalNodes d.initializer

def nodes (d : Declarator) : List Node := .declarator d :: d.inside

/-- The nodes of a declarator that stands in a struct. -/
def fieldNodes (d : Declarator) : List Node := .field d :: d.inside

end Declarator

mutual

def TypeSpec.nodes : TypeSpec → List Node
  | s@(.named ..) => [.typeSpec s]
  | s@(.struct _ _ _ _ fields _ _ _) => .typeSpec s :: FieldSpec.nodesOfAll fields

def FieldSpec.nodesOfAll : List FieldSpec → List Node
  | [] => []
  | ⟨type, names, _⟩ :: rest =>
    type.nodes ++ names.flatMap Declarator.fieldNodes ++ FieldSpec.nodesOfAll rest

end

def ParameterSpec.nodes (p : ParameterSpec) : List Node :=
  .parameter p :: (p.typeSpec.nodes ++ sizeNodes p.size)

def FunctionHeader.nodes (h : FunctionHeader) : List Node :=
  .header h :: (h.returnType.nodes ++ h.parameters.flatMap ParameterSpec.nodes)

namespace Condition

/-- The type of the expression, or of the variable that is declared. -/
def type : Condition → Option Ty
  | expression e => e.info.type
  | declaration _ d => d.type

def nodes : Condition → List Node
  | c@(expression e) => .condition c :: e.nodes
  | c@(declaration s d) => .condition c :: (s.nodes ++ d.nodes)

end Condition

/-- The nodes of a condition, if there is one. -/
def optionalConditionNodes : Option Condition → List Node
  | none => []
  | some c => c.nodes

mutual

def Declaration.nodes : Declaration → List Node
  | .declarators s ds _ => s.nodes ++ ds.flatMap Declarator.nodes
  | .type s _ => s.nodes
  | .precision _ _ s _ => s.nodes
  | .invariants .. => []
  | .prototype h _ => h.nodes
  | .function h body => h.nodes ++ body.nodes h.returnType.type

/-- The nodes of a block in a function with the given return type. -/
def Block.nodes : Block → Option Ty → List Node
  | ⟨_, statements, _, _⟩, returnType => Statement.nodesOfAll statements returnType

def Statement.nodes : Statement → Option Ty → List Node
  | .declaration d, _ => d.nodes
  | .block b, returnType => b.nodes returnType
  | .expression e _, _ => e.nodes
  | .empty _, _ => []
  | .ifThen _ _ condition _ whenTrue, returnType =>
    (Condition.expression condition).nodes ++ whenTrue.nodes returnType
  | .ifElse _ _ condition _ whenTrue _ whenFalse, returnType =>
    (Condition.expression condition).nodes ++ whenTrue.nodes returnType ++
      whenFalse.nodes returnType
  | .whileLoop _ _ condition _ body, returnType => condition.nodes ++ body.nodes returnType
  | .doLoop _ body _ _ condition _ _, returnType =>
    body.nodes returnType ++ (Condition.expression condition).nodes
  | .forLoop _ _ init condition _ increment _ body, returnType =>
    init.nodes returnType ++ optionalConditionNodes condition ++ optionalNodes increment ++
      body.nodes returnType
  | .jump .., _ => []
  | .return _ value _, returnType => .return returnType value :: optionalNodes value

def Statement.nodesOfAll : List Statement → Option Ty → List Node
  | [], _ => []
  | s :: ss, returnType => s.nodes returnType ++ Statement.nodesOfAll ss returnType

end

/-- Every node of the shader. -/
def Shader.nodes (shader : Shader) : List Node := shader.declarations.flatMap Declaration.nodes

/-! ## Properties of all nodes -/

/-- All of the nodes have a property. -/
def AllNodes (P : Node → Prop) (nodes : List Node) : Prop := ∀ n ∈ nodes, P n

section

variable {P : Node → Prop} {n : Node} {ms ns : List Node}

theorem AllNodes.mono {Q : Node → Prop} (h : AllNodes P ns) (hPQ : ∀ n, P n → Q n) :
    AllNodes Q ns :=
  fun n hn => hPQ n (h n hn)

@[simp] theorem allNodes_nil : AllNodes P [] := fun _ h => absurd h List.not_mem_nil

@[simp] theorem allNodes_cons : AllNodes P (n :: ns) ↔ P n ∧ AllNodes P ns :=
  List.forall_mem_cons

@[simp] theorem allNodes_append : AllNodes P (ms ++ ns) ↔ AllNodes P ms ∧ AllNodes P ns :=
  List.forall_mem_append

@[simp] theorem allNodes_flatMap {α : Type} {f : α → List Node} {as : List α} :
    AllNodes P (as.flatMap f) ↔ ∀ a ∈ as, AllNodes P (f a) :=
  List.forall_mem_flatMap

theorem allNodes_optionalNodes {e : Option Expr} :
    AllNodes P (optionalNodes e) ↔ ∀ x ∈ e, AllNodes P x.nodes := by
  cases e <;> simp [optionalNodes]

theorem allNodes_optionalConditionNodes {c : Option Condition} :
    AllNodes P (optionalConditionNodes c) ↔ ∀ x ∈ c, AllNodes P x.nodes := by
  cases c <;> simp [optionalConditionNodes]

theorem Expr.allNodes_nodesOfEach {es : List Expr} :
    AllNodes P (nodesOfEach es) ↔ ∀ e ∈ es, AllNodes P e.nodes := by
  induction es with
  | nil => simp [nodesOfEach]
  | cons e es ih => simp [nodesOfEach, ih]

end

end Essl
