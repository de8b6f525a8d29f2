/-!
# Qualifiers

Words that a declaration may put in front of a type.
-/

namespace Essl

/-- The order of the constructors is the order in which lists of qualifiers are shown. -/
inductive Qualifier where
  | const
  | attrib
  | uniform
  | varying
  | invariant
  | input
  | output
  | inout
  | highp
  | mediump
  | lowp
  deriving DecidableEq

namespace Qualifier

def all : List Qualifier :=
  [const, attrib, uniform, varying, invariant, input, output, inout, highp, mediump, lowp]

/-- The spelling of a qualifier. -/
def text : Qualifier → String
  | const => "const"
  | attrib => "attribute"
  | uniform => "uniform"
  | varying => "varying"
  | invariant => "invariant"
  | input => "in"
  | output => "out"
  | inout => "inout"
  | highp => "highp"
  | mediump => "mediump"
  | lowp => "lowp"

def isPrecision : Qualifier → Bool
  | highp | mediump | lowp => true
  | _ => false

/-- Qualifiers that can start a fully specified type. -/
def isStorage : Qualifier → Bool
  | const | attrib | varying | uniform | invariant => true
  | _ => false

/-- Qualifiers that say which way a parameter passes its value. -/
def isDirection : Qualifier → Bool
  | input | output | inout => true
  | _ => false

/-- Qualifiers of the interface of a shader, for variables at file scope only. -/
def isGlobalStorage : Qualifier → Bool
  | attrib | uniform | varying => true
  | _ => false

end Qualifier

end Essl
