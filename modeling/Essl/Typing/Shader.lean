import Essl.Typing.Overload

/-!
# Typing shaders

Typing goes through a shader once, from the start. It fills in the tree and notes problems.
-/

namespace Essl

/-! ## Conditions -/

/-- Types the condition of a loop. A variable in it belongs to the current scope. -/
def Condition.check (condition : Condition) : Check Condition := do
  let (condition, type) ←
    match condition with
    | .expression e => do
      let e ← e.check (← get)
      pure (Condition.expression e, e.info.type)
    | .declaration typeSpec declarator => do
      let typeSpec ← typeSpec.check
      let declarator ← declarator.check typeSpec.type .empty
      pure (Condition.declaration typeSpec declarator, declarator.type)
  requireBool type condition.location
  pure condition

/-- Types an expression that is a condition. -/
def checkCondition (e : Expr) : Check Expr := do
  let e ← e.check (← get)
  requireBool e.info.type e.location
  pure e

/-- Types an action on something that may be missing. -/
def checkOptional {α : Type} (check : α → Check α) : Option α → Check (Option α)
  | none => pure none
  | some a => do
    let a ← check a
    pure (some a)

/-! ## Jumps -/

/-- Only loops have `break` and `continue`. -/
def requireLoop (c : Context) (word : Token) : Noted Unit :=
  match word.kind with
  | .keyword .break | .keyword .continue =>
    if c.loopDepth = 0 then
      match word.kind.keyword? with
      | some jump => report (.outsideLoop jump) word.location
      | none => pure ()
    else pure ()
  | _ => pure ()

/-- A function returns a value of its type, and one of type `void` none. -/
def requireReturn (c : Context) (keyword : Token) (value : Option Expr) : Noted Unit :=
  match c.returnType, value with
  | none, _ => pure ()
  | some expected, some e =>
    match e.info.type with
    | some actual =>
      if expected = actual then pure ()
      else report (.returnValueMismatch expected actual) e.location
    | none => pure ()
  | some expected, none =>
    if expected = .void then pure ()
    else report (.missingReturnValue expected) keyword.location

/-! ## Other declarations -/

/-- The types that a precision can be given for. -/
def hasPrecision (type : Ty) : Bool :=
  type = .int || type = .float || type = .primitive .sampler2D || type = .primitive .samplerCube

/-- Resolves the names of an invariant declaration. -/
def checkInvariants (c : Context) : List InvariantName → Noted (List InvariantName)
  | [] => pure []
  | n :: ns => do
    let symbol ← c.variableNamed? n.name
    let ns ← checkInvariants c ns
    pure ({ n with symbol } :: ns)

/-! ## Declarations and statements -/

mutual

/-- Types a declaration and adds what it declares to the scope. -/
def Declaration.check : Declaration → Check Declaration
  | .declarators typeSpec declarators semicolon => do
    requireStorages (← get) typeSpec.qualifiers.storage
    let typeSpec ← typeSpec.check
    let declarators ← checkDeclarators typeSpec.type typeSpec.qualifiers.set declarators
    pure (.declarators typeSpec declarators semicolon)
  | .type typeSpec semicolon => do
    requireStorages (← get) typeSpec.qualifiers.storage
    let typeSpec ← typeSpec.check
    pure (.type typeSpec semicolon)
  | .precision keyword precision typeSpec semicolon => do
    let typeSpec ← typeSpec.check
    match typeSpec.type with
    | some type =>
      if !hasPrecision type then report (.invalidPrecisionType type) typeSpec.location
    | none => pure ()
    pure (.precision keyword precision typeSpec semicolon)
  | .invariants keyword names semicolon => do
    let c ← get
    if !c.scopes.isGlobal then report (.notGlobalScope .invariant) keyword.location
    let names ← checkInvariants c names
    pure (.invariants keyword names semicolon)
  | .prototype header semicolon => do
    let header ← header.check .prototype
    pure (.prototype header semicolon)
  | .function header body => do
    let header ← header.check .definition
    let (parameters, body) ← inFunction header.returnType.type do
      let parameters ← declareParameters header.parameters
      let body ← body.checkInside
      pure (parameters, body)
    pure (.function { header with parameters } body)

/-- Types the statements of a block in the current scope. -/
def Block.checkInside : Block → Check Block
  | ⟨opening, statements, closing, newScope⟩ => do
    let statements ← checkStatements statements
    pure ⟨opening, statements, closing, newScope⟩

/-- Types a block, which may have a scope of its own. -/
def Block.check : Block → Check Block
  | ⟨opening, statements, closing, newScope⟩ => do
    let statements ←
      if newScope then inScope .block (checkStatements statements)
      else checkStatements statements
    pure ⟨opening, statements, closing, newScope⟩

/-- Types a statement. -/
def Statement.check : Statement → Check Statement
  | .declaration d => do
    let d ← d.check
    pure (.declaration d)
  | .block b => do
    let b ← b.check
    pure (.block b)
  | .expression e semicolon => do
    let e ← e.check (← get)
    pure (.expression e semicolon)
  | .empty semicolon => pure (.empty semicolon)
  | .ifThen keyword opening condition closing whenTrue => do
    let condition ← checkCondition condition
    let whenTrue ← whenTrue.check
    pure (.ifThen keyword opening condition closing whenTrue)
  | .ifElse keyword opening condition closing whenTrue otherwise whenFalse => do
    let condition ← checkCondition condition
    let whenTrue ← whenTrue.check
    let whenFalse ← whenFalse.check
    pure (.ifElse keyword opening condition closing whenTrue otherwise whenFalse)
  | .whileLoop keyword opening condition closing body =>
    inScope .block do
      let condition ← condition.check
      let body ← inLoop body.check
      pure (.whileLoop keyword opening condition closing body)
  | .doLoop keyword body whileWord opening condition closing semicolon => do
    let body ← inLoop body.check
    let condition ← checkCondition condition
    pure (.doLoop keyword body whileWord opening condition closing semicolon)
  | .forLoop keyword opening init condition semicolon increment closing body =>
    inScope .block do
      let init ← init.check
      let condition ← checkOptional Condition.check condition
      let c ← get
      let increment ← checkOptional (fun e => (e.check c : Noted Expr)) increment
      let body ← inLoop body.check
      pure (.forLoop keyword opening init condition semicolon increment closing body)
  | .jump keyword semicolon => do
    requireLoop (← get) keyword
    pure (.jump keyword semicolon)
  | .return keyword value semicolon => do
    let c ← get
    let value ← checkOptional (fun e => (e.check c : Noted Expr)) value
    requireReturn c keyword value
    pure (.return keyword value semicolon)

/-- Types statements in order. -/
def checkStatements : List Statement → Check (List Statement)
  | [] => pure []
  | s :: ss => do
    let s ← s.check
    let ss ← checkStatements ss
    pure (s :: ss)

end

/-- Types the declarations of a shader. -/
def checkDeclarations : List Declaration → Check (List Declaration)
  | [] => pure []
  | d :: ds => do
    let d ← d.check
    let ds ← checkDeclarations ds
    pure (d :: ds)

/-- Types a shader of a stage. The order is one of those in which functions may come. -/
def Shader.analyze (shader : Shader) (stage : Stage) (order : FunctionOrder := .newestFirst) :
    Noted Shader := do
  let (declarations, _) ← checkDeclarations shader.declarations (.empty stage order)
  pure ⟨declarations⟩

end Essl
