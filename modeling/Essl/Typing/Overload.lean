import Essl.Typing.Declarator

/-!
# Function headers

A function may be declared by any number of prototypes that agree, followed by one definition.
-/

namespace Essl

/-! ## Headers -/

/-- Types the parameters of a header. -/
def checkParameters : List ParameterSpec → Check (List ParameterSpec)
  | [] => pure []
  | p :: ps => do
    let typeSpec ← p.typeSpec.check
    let (size, type) ← declaredType (← get) typeSpec.type p.size
    let p := { p with typeSpec, size, type, symbol := none }
    let ps ← checkParameters ps
    pure (p :: ps)

/-- The parameter that a typed specification declares, if its type is known. -/
def ParameterSpec.parameter? (p : ParameterSpec) : Option Parameter :=
  p.type.map fun type => ⟨p.name.map Token.text, type, p.qualifierSet⟩

/-- The parameters of a typed header, if all types are known. A single nameless `void` says that
there are none. -/
def parameters? (specs : List ParameterSpec) : Option (List Parameter) :=
  (specs.mapM ParameterSpec.parameter?).map fun
    | [only] => if only.type = .void ∧ only.name = none then [] else [only]
    | parameters => parameters

/-- No parameter has type `void`. -/
def requireNoVoid (location : Location) : List Parameter → Noted Unit
  | [] => pure ()
  | p :: ps => do
    requireNotVoid (some p.type) (p.name.getD "") location
    requireNoVoid location ps

/-! ## Declarations of one function -/

/-- Parameters have the qualifiers that they had before. -/
def requireQualifiers (previous : Option Location) (location : Location) (position : Nat) :
    List Parameter → List Parameter → Noted Unit
  | old :: olds, new :: news => do
    if old.qualifiers ≠ new.qualifiers then
      report (.parameterQualifierMismatch position previous) location
    requireQualifiers previous location (position + 1) olds news
  | _, _ => pure ()

/-- Compares a declaration with the prototype before it. -/
def requireAgreement (name : Token) (returnLocation : Location) (old new : Function) :
    Noted Unit := do
  if old.returnType ≠ new.returnType then
    report (.returnTypeMismatch old.returnType new.returnType old.declaredAt) returnLocation
  requireQualifiers old.declaredAt name.location 1 old.parameters new.parameters

/-- Declares a function at file scope. Of its declarations the first prototype counts until there
is a definition, then the first definition does. -/
def declareFunction (name : Token) (returnLocation : Location) (f : Function) : Check Unit := do
  let c ← get
  let accept : Check Unit := set { c with scopes := c.scopes.declareFunction f }
  match c.scopes.current.function? f.signature with
  | some old =>
    match old.kind, f.kind with
    | .definition, .definition =>
      report (.functionRedefinition name.text old.declaredAt) name.location
    | .definition, _ =>
      report (.prototypeAfterDefinition name.text old.declaredAt) name.location
    | _, kind => do
      requireAgreement name returnLocation old f
      if kind ≠ .prototype then accept
  | none =>
    match c.scopes.current.declared? c.order.arrange name.text with
    | none | some (.function _) => accept
    | some existing =>
      report (.redeclaration name.text existing.kind existing.declaredAt) name.location

/-- Types a header, and declares the function if it is at file scope. -/
def FunctionHeader.check (kind : FunctionKind) (h : FunctionHeader) : Check FunctionHeader := do
  let nested := !(← get).scopes.isGlobal
  if nested then report .nestedFunction h.name.location
  let returnType ← h.returnType.check
  let parameters ← checkParameters h.parameters
  let resolved := parameters? parameters
  requireNoVoid h.name.location (resolved.getD [])
  let h := { h with returnType, parameters, symbol := none }
  match returnType.type, resolved with
  | some type, some resolved => do
    let f : Function :=
      { name := h.name.text
        returnType := type
        parameters := resolved
        kind := kind
        declaredAt := some h.name.location
        evaluate := none }
    if !nested then declareFunction h.name returnType.location f
    pure { h with symbol := some f }
  | _, _ => do
    if !nested then modify fun c => { c with unresolved := h.name.text :: c.unresolved }
    pure h

/-! ## Parameters in the body -/

/-- Declares the parameters that have names. -/
def declareParameters : List ParameterSpec → Check (List ParameterSpec)
  | [] => pure []
  | p :: ps => do
    let p ←
      match p.name with
      | none => pure p
      | some name => do
        let v : Variable :=
          { name := name.text
            type := p.type
            qualifiers := p.qualifierSet
            constant := none
            readOnly := p.qualifierSet.contains .const
            declaredAt := some name.location }
        declare name (.variable v)
        pure { p with symbol := some v }
    let ps ← declareParameters ps
    pure (p :: ps)

end Essl
