import Essl.Typing.Operation
import Essl.Value.Construct

/-!
# Calls and constructors

A name in front of arguments is a function, a struct or a built-in type. The arguments are typed
already.
-/

namespace Essl

/-! ## Constructors of built-in types -/

/-- The built-in type of something that constructors take apart. -/
def constructorPart? : Ty → Option Primitive
  | .primitive p =>
    match p.primitiveClass with
    | .scalar | .vector | .matrix => some p
    | .void | .sampler => none
  | _ => none

/-- Whether the type is one of matrices. -/
def Primitive.isMatrix (p : Primitive) : Bool := p.primitiveClass == .matrix

/-- What is wrong with the types of constructor arguments. -/
inductive ConstructorFault where
  /-- An argument, by its position, does not belong. -/
  | argument (position : Nat) (cause : SemanticCause)
  | shortage
  deriving DecidableEq

/-- Arguments supply scalars until there are as many as needed. -/
def supplyFault? (target : Primitive) (supplied position : Nat) :
    List Primitive → Option ConstructorFault
  | [] => if supplied < target.scalarCount then some .shortage else none
  | p :: ps =>
    if target.scalarCount ≤ supplied then
      some (.argument position (.tooManyConstructorArguments (.primitive target)))
    else supplyFault? target (supplied + p.scalarCount) (position + 1) ps

/-- What is wrong with arguments of scalar, vector and matrix types. A single scalar does for all
targets, a single matrix for matrices; no other arguments of a matrix are matrices. -/
def partsFault? (target : Primitive) (parts : List Primitive) : Option ConstructorFault :=
  let general : Option ConstructorFault :=
    match if target.isMatrix then parts.findIdx? Primitive.isMatrix else none with
    | some i =>
      parts[i]?.map fun p => .argument i (.invalidConstructorArgument (.primitive p))
    | none => supplyFault? target 0 0 parts
  match parts with
  | [.scalar _] => none
  | [.matrix _] => if target.isMatrix then none else general
  | _ => general

/-- What is wrong with the types of the arguments of a scalar, vector or matrix constructor. -/
def constructorFault? (target : Primitive) (types : List Ty) : Option ConstructorFault :=
  match types.findIdx? (constructorPart? · |>.isNone) with
  | some i => types[i]?.map fun type => .argument i (.invalidConstructorArgument type)
  | none => partsFault? target (types.filterMap constructorPart?)

/-- Types the constructor of a built-in type. -/
def typePrimitiveConstructor (target : Primitive) (types : List Ty) (arguments : List Expr)
    (location : Location) : Noted ExprInfo :=
  let type : Ty := .primitive target
  if (constructorPart? type).isNone then do
    report (.invalidConstructor type) location
    pure .none
  else
    match constructorFault? target types with
    | some (.argument i cause) => do
      report cause ((arguments[i]?.map Expr.location).getD location)
      pure (.ofType type)
    | some .shortage => do
      report (.notEnoughConstructorData type) location
      pure (.ofType type)
    | none => pure (.ofValue type ((constants? arguments).bind target.construct))

/-! ## Structs and arrays -/

/-- Arguments have the expected types where these are known. Says whether they do. -/
def requireTypes : List (Option Ty) → List Expr → Noted Bool
  | some expected :: types, argument :: arguments => do
    requireType expected argument.info.type argument.location
    let others ← requireTypes types arguments
    pure (argument.info.type = some expected && others)
  | none :: types, _ :: arguments => requireTypes types arguments
  | _, _ => pure true

/-- Types the constructor of a struct: one argument for each field. -/
def typeStructConstructor (s : StructDef) (arguments : List Expr) (location : Location) :
    Noted ExprInfo :=
  if arguments.length ≠ s.fields.length then do
    report (.constructorArgumentCount (.struct s) s.fields.length arguments.length) location
    pure (.ofType (some (.struct s)))
  else do
    let matched ← requireTypes (s.fields.map Field.type) arguments
    let constant := if matched then (constants? arguments).map Value.composite else none
    pure ⟨some (.struct s), some (.struct s), constant⟩

/-- Types the constructor of an array of a type, of a length that may be unknown. -/
def typeArrayElements (element : Ty) (length : Option Nat) (arguments : List Expr)
    (location : Location) : Noted ExprInfo :=
  match length, types? arguments with
  | some length, some _ =>
    let type : Ty := .array element length
    if arguments.length ≠ length then do
      report (.arrayConstructorSize length arguments.length) location
      pure (.ofType (some type))
    else do
      let matched ← requireTypes (arguments.map fun _ => some element) arguments
      let constant := if matched then (constants? arguments).map Value.composite else none
      pure (.ofValue type constant)
  | _, _ => pure .none

/-- Whether there are values of a type that could be elements. -/
def hasValues : Ty → Bool
  | .primitive p => (constructorPart? (.primitive p)).isSome
  | _ => true

def typeArrayConstructor (c : Context) (callee : Token) (length : Option Nat)
    (arguments : List Expr) (location : Location) : Noted ExprInfo := do
  match ← c.typeNamed? callee with
  | none => pure .none
  | some element =>
    if hasValues element then typeArrayElements element length arguments location
    else do
      report (.invalidConstructor element) callee.location
      pure .none

/-! ## Calls -/

/-- Arguments are writable where the function writes to the parameter. -/
def requireOutputs : List Parameter → List Expr → Noted Unit
  | parameter :: parameters, argument :: arguments => do
    if parameter.qualifiers.contains .output || parameter.qualifiers.contains .inout then
      requireWritable argument
    requireOutputs parameters arguments
  | _, _ => pure ()

def typeFunctionCall (f : Function) (arguments : List Expr) : Noted ExprInfo := do
  requireOutputs f.parameters arguments
  let constant := do (← f.evaluate) (← constants? arguments)
  pure ⟨some f.returnType, some (.function f), constant⟩

/-- Types a call or constructor. -/
def typeCall (c : Context) (callee : Token) (arguments : List Expr) (location : Location) :
    Noted ExprInfo :=
  match types? arguments with
  | none => pure .none
  | some types =>
    match c.function? callee.text types, c.scopes.lookup callee.text,
        Primitive.ofName? callee.text with
    | some f, _, _ => typeFunctionCall f arguments
    | none, some (.struct s), _ => typeStructConstructor s arguments location
    | none, _, some p => typePrimitiveConstructor p types arguments location
    | none, _, none =>
      if c.unresolved.contains callee.text then pure .none
      else do
        report (.noMatchingFunction (signature callee.text (types.map Ty.text)))
          callee.location
        pure .none

end Essl
