import Essl.Diagnostic
import Essl.Symbol

/-!
# Problems of meaning

What can be wrong with a shader that the grammar accepts, each as a cause with its wording.
-/

namespace Essl

/-- What can be wrong with the meaning of a shader. -/
inductive SemanticCause where
  /-- A name is declared twice in one scope. -/
  | redeclaration (name : String) (kind : SymbolKind) (previous : Option Location)
  | duplicateField (name : String) (previous : Location)
  | undeclaredIdentifier (name : String)
  | notAType (name : String)
  | notAVariable (name : String)
  | voidVariable (name : String)
  | noMatchingFunction (signature : String)
  | noMatchingOperator (signature : String)
  | typeMismatch (expected actual : Ty)
  | conditionNotBool (type : Ty)
  | branchMismatch (whenTrue whenFalse : Ty)
  | notIndexable (type : Ty)
  | indexNotInteger (type : Ty)
  | nonConstantIndex
  | indexOutOfBounds (index : Int32) (length : Nat)
  | invalidSwizzleComponent (c : Char)
  | mixedSwizzleSets (c : Char)
  | swizzleOutOfBounds (c : Char) (type : Ty)
  | swizzleTooLong (length : Nat)
  | noSuchField (type : Ty) (field : String)
  | invalidFieldSelection (type : Ty)
  | nonConstantArraySize
  | arraySizeNotInteger (type : Ty)
  | arraySizeNotPositive (size : Int32)
  | arrayConstructorSize (expected actual : Nat)
  | constructorArgumentCount (type : Ty) (expected actual : Nat)
  | notEnoughConstructorData (type : Ty)
  | tooManyConstructorArguments (type : Ty)
  | invalidConstructorArgument (type : Ty)
  | invalidConstructor (type : Ty)
  | nestedFunction
  | returnTypeMismatch (expected actual : Ty) (previous : Option Location)
  /-- The position of the parameter counts from 1. -/
  | parameterQualifierMismatch (position : Nat) (previous : Option Location)
  | functionRedefinition (name : String) (previous : Option Location)
  | prototypeAfterDefinition (name : String) (previous : Option Location)
  | missingConstInitializer (name : String)
  | nonConstantInitializer (name : String)
  | invalidPrecisionType (type : Ty)
  | notGlobalScope (qualifier : Qualifier)
  | attributeInFragmentShader
  | readOnlyAssignment (name : String)
  | notAssignable
  /-- A jump that only loops have. -/
  | outsideLoop (jump : Keyword)
  | returnValueMismatch (expected actual : Ty)
  | missingReturnValue (type : Ty)
  deriving DecidableEq

/-- A cause at its place. -/
abbrev SemanticError := Located SemanticCause

namespace SemanticCause

private def quoted (text : String) : String := "`" ++ text ++ "`"

private def quotedType (type : Ty) : String := quoted type.text

private def quotedChar (c : Char) : String := quoted c.toString

/-- The wording of a cause. -/
def message : SemanticCause → String
  | redeclaration name kind _ => quoted name ++ " is already declared as a " ++ kind.text
  | duplicateField name _ => "duplicate field " ++ quoted name
  | undeclaredIdentifier name => quoted name ++ " is not declared"
  | notAType name => quoted name ++ " is not a type"
  | notAVariable name => quoted name ++ " is not a variable"
  | voidVariable name => "variable " ++ quoted name ++ " cannot have type `void`"
  | noMatchingFunction signature => "no matching function for call to " ++ quoted signature
  | noMatchingOperator signature => "no operator " ++ quoted signature
  | typeMismatch expected actual =>
    "type mismatch: expected " ++ quotedType expected ++ ", but got " ++ quotedType actual
  | conditionNotBool type => "condition must be `bool`, but got " ++ quotedType type
  | branchMismatch whenTrue whenFalse =>
    "branches of `?:` have different types " ++ quotedType whenTrue ++ " and " ++
      quotedType whenFalse
  | notIndexable type => quotedType type ++ " cannot be indexed"
  | indexNotInteger type => "index must be an integer, but got " ++ quotedType type
  | nonConstantIndex => "index must be a constant expression"
  | indexOutOfBounds index length =>
    "index " ++ toString index.toInt ++ " is out of bounds for length " ++ toString length
  | invalidSwizzleComponent c => "invalid swizzle component " ++ quotedChar c
  | mixedSwizzleSets c =>
    "swizzle component " ++ quotedChar c ++ " is from a different set than the first component"
  | swizzleOutOfBounds c type =>
    "swizzle component " ++ quotedChar c ++ " is out of bounds for " ++ quotedType type
  | swizzleTooLong length =>
    "swizzle selects " ++ toString length ++ " components, but at most 4 are allowed"
  | noSuchField type field => quotedType type ++ " has no field named " ++ quoted field
  | invalidFieldSelection type => "cannot select a field of " ++ quotedType type
  | nonConstantArraySize => "array size must be a constant expression"
  | arraySizeNotInteger type => "array size must be an integer, but got " ++ type.kindText
  | arraySizeNotPositive size => "array size must be positive, but got " ++ toString size.toInt
  | arrayConstructorSize expected actual =>
    "array constructor expects " ++ toString expected ++ " elements, but got " ++ toString actual
  | constructorArgumentCount type expected actual =>
    quotedType type ++ " constructor expects " ++ toString expected ++ " arguments, but got " ++
      toString actual
  | notEnoughConstructorData type => "not enough data for " ++ quotedType type ++ " constructor"
  | tooManyConstructorArguments type =>
    "too many arguments for " ++ quotedType type ++ " constructor"
  | invalidConstructorArgument type =>
    quotedType type ++ " cannot be an argument of a constructor"
  | invalidConstructor type => quotedType type ++ " cannot be constructed"
  | nestedFunction => "functions can only be declared at global scope"
  | returnTypeMismatch expected actual _ =>
    "return type " ++ quotedType actual ++ " differs from the prototype's " ++
      quotedType expected
  | parameterQualifierMismatch position _ =>
    "qualifiers of parameter " ++ toString position ++ " differ from the prototype"
  | functionRedefinition name _ => "function " ++ quoted name ++ " is already defined"
  | prototypeAfterDefinition name _ =>
    "prototype of " ++ quoted name ++ " follows its definition"
  | missingConstInitializer name => "`const` variable " ++ quoted name ++ " must be initialized"
  | nonConstantInitializer name =>
    "initializer of `const` variable " ++ quoted name ++ " is not a constant expression"
  | invalidPrecisionType type => "precision cannot be specified for " ++ quotedType type
  | notGlobalScope qualifier => quoted qualifier.text ++ " is only allowed at global scope"
  | attributeInFragmentShader => "`attribute` variables are only allowed in vertex shaders"
  | readOnlyAssignment name => "cannot assign to read-only variable " ++ quoted name
  | notAssignable => "expression is not assignable"
  | outsideLoop jump => quoted jump.text ++ " is only allowed in a loop"
  | returnValueMismatch expected actual =>
    "return value must be " ++ quotedType expected ++ ", but got " ++ quotedType actual
  | missingReturnValue type => "function returning " ++ quotedType type ++ " must return a value"

/-- What is written beside the place of the problem. -/
def label : SemanticCause → String
  | redeclaration .. | duplicateField .. => "redeclared here"
  | undeclaredIdentifier _ => "undeclared identifier"
  | noMatchingFunction _ => "no matching overload"
  | typeMismatch _ actual => "this is " ++ quotedType actual
  | indexOutOfBounds .. => "index out of bounds"
  | invalidSwizzleComponent _ | mixedSwizzleSets _ | swizzleOutOfBounds .. =>
    "invalid component"
  | readOnlyAssignment _ => "read-only"
  | _ => ""

/-- The earlier declaration that the problem is about. -/
def previous : SemanticCause → Option Location
  | redeclaration _ _ previous | returnTypeMismatch _ _ previous
  | parameterQualifierMismatch _ previous | functionRedefinition _ previous
  | prototypeAfterDefinition _ previous => previous
  | duplicateField _ previous => some previous
  | _ => none

/-- The message for a cause, with marks at its place and where it goes back to. -/
def toMessage (cause : SemanticCause) (location : Location) : Message where
  title := cause.message
  marks :=
    ⟨.error, cause.label, location⟩ ::
      (cause.previous.map fun previous => ⟨.info, "previously declared here", previous⟩).toList

end SemanticCause

end Essl
