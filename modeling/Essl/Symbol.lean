import Essl.Type.Basic
import Essl.Type.Qualifier
import Essl.Value

/-!
# Symbols

What the names of a shader stand for: variables, functions and structs.
-/

namespace Essl

/-- A set of qualifiers. Its members are listed in the order of the qualifiers, so that equal
sets are equal. -/
structure QualifierSet where
  members : List Qualifier
  deriving DecidableEq

namespace QualifierSet

def ofList (qualifiers : List Qualifier) : QualifierSet :=
  ⟨Qualifier.all.filter (qualifiers.contains ·)⟩

/-- The set without members. -/
def empty : QualifierSet := ⟨[]⟩

def contains (set : QualifierSet) (q : Qualifier) : Bool := set.members.contains q

/-- The set with one more member. -/
def insert (set : QualifierSet) (q : Qualifier) : QualifierSet := ofList (q :: set.members)

theorem contains_ofList (qualifiers : List Qualifier) (q : Qualifier) :
    (ofList qualifiers).contains q = qualifiers.contains q := by
  have hall : q ∈ Qualifier.all := by cases q <;> decide
  simp [ofList, contains, hall]

end QualifierSet

/-- A variable, whether a shader declares it or it is built in. -/
structure Variable where
  name : String
  /-- Absent if the type could not be resolved. -/
  type : Option Ty
  qualifiers : QualifierSet
  /-- The value of a constant. -/
  constant : Option Value
  readOnly : Bool
  /-- The declaring name, absent for built-in variables. -/
  declaredAt : Option Location

/-- A parameter of a function, of which prototypes need not give the name. -/
structure Parameter where
  name : Option String
  type : Ty
  qualifiers : QualifierSet

/-- How a function came to be known. -/
inductive FunctionKind where
  | prototype
  | definition
  | builtin
  deriving DecidableEq

/-- Computes the result of a call from constant arguments. -/
abbrev Evaluator : Type := List Value → Option Value

/-- One overload of a function, with what computes it if that is known. -/
structure Function where
  name : String
  returnType : Ty
  parameters : List Parameter
  kind : FunctionKind
  /-- The declaring name, absent for built-in functions. -/
  declaredAt : Option Location
  evaluate : Option Evaluator

/-- A function name with the types of its parameters, which tell overloads apart. -/
def signature (name : String) (types : List String) : String :=
  name ++ "(" ++ ",".intercalate types ++ ")"

/-- The signature that an overload is known by in a scope. -/
def Function.signature (f : Function) : String :=
  Essl.signature f.name (f.parameters.map (·.type.text))

/-- What a name stands for. -/
inductive Symbol where
  | «variable» (v : Variable)
  | function (f : Function)
  | struct (s : StructDef)

/-- The kinds of symbol that diagnostics tell apart. -/
inductive SymbolKind where
  | «variable»
  | functionPrototype
  | functionDefinition
  | builtinFunction
  | struct
  deriving DecidableEq

namespace SymbolKind

/-- How diagnostics name the kind. -/
def text : SymbolKind → String
  | .variable => "variable"
  | functionPrototype => "function prototype"
  | functionDefinition => "function definition"
  | builtinFunction => "built-in function"
  | struct => "struct"

end SymbolKind

namespace Symbol

def kind : Symbol → SymbolKind
  | .variable _ => .variable
  | function f =>
    match f.kind with
    | .prototype => .functionPrototype
    | .definition => .functionDefinition
    | .builtin => .builtinFunction
  | struct _ => .struct

/-- Where the symbol is declared, if in a shader. -/
def declaredAt : Symbol → Option Location
  | .variable v => v.declaredAt
  | function f => f.declaredAt
  | struct s => some s.location

end Symbol

end Essl
