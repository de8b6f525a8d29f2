import Essl.Proofs.Tree.Nodes

/-!
# What a shader does with names

From its start to its end a shader opens and closes scopes, declares names and refers to them. Each
step is an event, with what typing has written into the tree at its place. The events come in the
order of the text, but that what an operator or a call does comes after its operands, and the
declaration of a name after its initial value.
-/

namespace Essl

/-- The qualifier that a word stands for. -/
def Token.qualifier? (word : Token) : Option Qualifier :=
  word.kind.keyword?.bind Keyword.qualifier?

/-- The word makes a variable that it stands in front of read-only. -/
def Token.forbidsWriting (word : Token) : Bool :=
  match word.qualifier? with
  | some .const | some .uniform | some .attrib => true
  | _ => false

/-- A word whose place matters: a storage qualifier. -/
structure StorageWord where
  qualifier : Qualifier
  location : Location
  /-- Whether the word stands outside of all functions. -/
  fileScope : Bool

/-- A step of a shader through its scopes. -/
inductive ScopeEvent where
  /-- A scope is opened. -/
  | enter
  /-- The innermost scope is closed. -/
  | leave
  /-- A variable is declared, with some words in front of it. -/
  | «variable» (words : List Token) (name : Token) (symbol : Option Variable)
  | struct (name : Token) (defined : Option StructDef)
  | function (name : Token)
  /-- An expression names a variable. -/
  | reference (name : Token) (symbol : Option Symbol)
  /-- A variable is named after `invariant`. -/
  | invariant (name : Token) (symbol : Option Variable)
  | typeName (name : Token)
  /-- An expression is written to. -/
  | write (target : Expr)
  | storage (word : StorageWord)

/-! ## Expressions -/

/-- The arguments for parameters that a function writes to. -/
def outputs : List Parameter → List Expr → List Expr
  | p :: ps, e :: es =>
    if p.qualifiers.contains .output || p.qualifiers.contains .inout then e :: outputs ps es
    else outputs ps es
  | _, _ => []

namespace Expr

/-- The expression inside all parentheses, without selections and indices. -/
def root : Expr → Expr
  | group _ _ inner _ => inner.root
  | field _ operand _ _ => operand.root
  | index _ operand _ _ _ => operand.root
  | e => e

/-- What the expression itself writes to. -/
def targets : Expr → List Expr
  | assignment _ left _ _ => [left]
  | unary _ op operand | step _ operand op =>
    if op.isOperator .increment || op.isOperator .decrement then [operand] else []
  | call info _ _ _ arguments _ =>
    match info.symbol with
    | some (.function f) => outputs f.parameters arguments
    | _ => []
  | _ => []

/-- What the expression itself does, apart from its operands. -/
def acts : Expr → List ScopeEvent
  | .variable info name => [.reference name info.symbol]
  | arrayCall _ callee _ _ _ _ _ _ _ => [.typeName callee]
  | e => e.targets.map .write

end Expr

mutual

def Expr.events : Expr → List ScopeEvent
  | e@(.assignment _ left _ right) => left.events ++ right.events ++ e.acts
  | e@(.ternary _ condition _ whenTrue _ whenFalse) =>
    condition.events ++ whenTrue.events ++ whenFalse.events ++ e.acts
  | e@(.binary _ left _ right) => left.events ++ right.events ++ e.acts
  | e@(.unary _ _ operand) => operand.events ++ e.acts
  | e@(.step _ operand _) => operand.events ++ e.acts
  | e@(.literal ..) => e.acts
  | e@(.group _ _ inner _) => inner.events ++ e.acts
  | e@(.variable ..) => e.acts
  | e@(.call _ _ _ _ arguments _) => Expr.eventsOfEach arguments ++ e.acts
  | e@(.arrayCall _ _ _ size _ _ _ arguments _) =>
    size.events ++ Expr.eventsOfEach arguments ++ e.acts
  | e@(.field _ operand _ _) => operand.events ++ e.acts
  | e@(.index _ operand _ position _) => operand.events ++ position.events ++ e.acts
  | e@(.list _ exprs) => Expr.eventsOfEach exprs ++ e.acts

def Expr.eventsOfEach : List Expr → List ScopeEvent
  | [] => []
  | e :: es => e.events ++ Expr.eventsOfEach es

end

/-! ## Declared names -/

/-- The events of a size, if there is one. -/
def sizeEvents : Option ArraySize → List ScopeEvent
  | none => []
  | some size => size.size.events

/-- The events of an expression, if there is one. -/
def optionalEvents (e : Option Expr) : List ScopeEvent := e.elim [] Expr.events

namespace Declarator

/-- The events of the size and the initial value. -/
def eventsInside (d : Declarator) : List ScopeEvent :=
  sizeEvents d.size ++ optionalEvents d.initializer

/-- The events of a variable that is declared with some words in front of it. -/
def events (words : List Token) (d : Declarator) : List ScopeEvent :=
  d.eventsInside ++ [.variable words d.name d.symbol]

end Declarator

mutual

/-- A struct that is defined has a scope for its fields, which closes before it is declared. -/
def TypeSpec.events : TypeSpec → List ScopeEvent
  | .named _ name _ => [.typeName name]
  | .struct _ _ name _ fields _ defined _ =>
    .enter :: (FieldSpec.eventsOfAll fields ++ .leave :: name.toList.map (.struct · defined))

def FieldSpec.eventsOfAll : List FieldSpec → List ScopeEvent
  | [] => []
  | ⟨type, names, _⟩ :: rest =>
    type.events ++ names.flatMap Declarator.eventsInside ++ FieldSpec.eventsOfAll rest

end

namespace TypeQualifiers

/-- All words in front of the type. -/
def words (q : TypeQualifiers) : List Token := q.storage ++ q.precision.toList

/-- The storage qualifiers, of a type that stands at file scope or not. -/
def storageWords (fileScope : Bool) (q : TypeQualifiers) : List StorageWord :=
  q.storage.filterMap fun word => word.qualifier?.map (⟨·, word.location, fileScope⟩)

end TypeQualifiers

namespace ParameterSpec

/-- The events of the type and the size. -/
def events (p : ParameterSpec) : List ScopeEvent := p.typeSpec.events ++ sizeEvents p.size

/-- The declaration of the parameter in the function. -/
def declaration (p : ParameterSpec) : List ScopeEvent :=
  p.name.toList.map (.variable p.qualifiers · p.symbol)

end ParameterSpec

/-- The events of the types in a header. At file scope the function is declared after them, if all
of the types could be told. -/
def FunctionHeader.events (fileScope : Bool) (h : FunctionHeader) : List ScopeEvent :=
  h.returnType.events ++ h.parameters.flatMap ParameterSpec.events ++
    if fileScope && h.symbol.isSome then [.function h.name] else []

/-- Words in front of the type in a condition mean nothing. -/
def Condition.events : Condition → List ScopeEvent
  | expression e => e.events
  | declaration s d => s.events ++ d.events []

/-- The events of a condition, if there is one. -/
def optionalConditionEvents (c : Option Condition) : List ScopeEvent := c.elim [] Condition.events

/-! ## Declarations and statements -/

mutual

/-- The events of a declaration that stands at file scope or not. In a function the parameters
share a scope with the statements of the body. -/
def Declaration.events (fileScope : Bool) : Declaration → List ScopeEvent
  | .declarators s ds _ =>
    (s.qualifiers.storageWords fileScope).map .storage ++ s.events ++
      ds.flatMap (Declarator.events s.qualifiers.words)
  | .type s _ => (s.qualifiers.storageWords fileScope).map .storage ++ s.events
  | .precision _ _ s _ => s.events
  | .invariants keyword names _ =>
    .storage ⟨.invariant, keyword.location, fileScope⟩ ::
      names.map fun n => .invariant n.name n.symbol
  | .prototype h _ => h.events fileScope
  | .function h body =>
    h.events fileScope ++
      .enter :: (h.parameters.flatMap ParameterSpec.declaration ++ body.eventsInside ++ [.leave])

/-- The events of the statements of a block. -/
def Block.eventsInside : Block → List ScopeEvent
  | ⟨_, statements, _, _⟩ => Statement.eventsOfAll statements

/-- The events of a block, which may have a scope of its own. -/
def Block.events : Block → List ScopeEvent
  | ⟨_, statements, _, newScope⟩ =>
    if newScope then .enter :: (Statement.eventsOfAll statements ++ [.leave])
    else Statement.eventsOfAll statements

/-- The parts of a loop share one scope. -/
def Statement.events : Statement → List ScopeEvent
  | .declaration d => d.events false
  | .block b => b.events
  | .expression e _ => e.events
  | .empty _ => []
  | .ifThen _ _ condition _ whenTrue => condition.events ++ whenTrue.events
  | .ifElse _ _ condition _ whenTrue _ whenFalse =>
    condition.events ++ whenTrue.events ++ whenFalse.events
  | .whileLoop _ _ condition _ body => .enter :: (condition.events ++ body.events ++ [.leave])
  | .doLoop _ body _ _ condition _ _ => body.events ++ condition.events
  | .forLoop _ _ init condition _ increment _ body =>
    .enter :: (init.events ++ optionalConditionEvents condition ++ optionalEvents increment ++
      body.events ++ [.leave])
  | .jump .. => []
  | .return _ value _ => optionalEvents value

def Statement.eventsOfAll : List Statement → List ScopeEvent
  | [] => []
  | s :: ss => s.events ++ Statement.eventsOfAll ss

end

/-- All that a shader does with names, in order. -/
def Shader.trace (shader : Shader) : List ScopeEvent :=
  shader.declarations.flatMap (Declaration.events true)

end Essl
