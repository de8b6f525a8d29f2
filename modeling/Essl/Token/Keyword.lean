import Essl.Type.Primitive
import Essl.Type.Qualifier

/-!
# Keywords

The reserved words of the language.
-/

namespace Essl

/-- The reserved words: qualifiers, names of types, and the rest. -/
inductive Keyword where
  | qualifier (qualifier : Qualifier)
  | type (primitive : Primitive)
  | «struct»
  | precision
  | «if»
  | «else»
  | «for»
  | «while»
  | «do»
  | «break»
  | «continue»
  | «return»
  | discard
  deriving DecidableEq

namespace Keyword

/-- The spelling of a keyword. -/
def text : Keyword → String
  | qualifier q => q.text
  | type p => p.name
  | .struct => "struct"
  | precision => "precision"
  | .if => "if"
  | .else => "else"
  | .for => "for"
  | .while => "while"
  | .do => "do"
  | .break => "break"
  | .continue => "continue"
  | .return => "return"
  | discard => "discard"

def all : List Keyword :=
  Qualifier.all.map qualifier ++ Primitive.all.map type ++
    [.struct, precision, .if, .else, .for, .while, .do, .break, .continue, .return, discard]

/-- The keyword with a spelling, if there is one. -/
def ofText? (text : String) : Option Keyword := all.find? (·.text == text)

/-- The type that the keyword names, if any. -/
def primitive? : Keyword → Option Primitive
  | type p => some p
  | _ => none

def qualifier? : Keyword → Option Qualifier
  | qualifier q => some q
  | _ => none

/-- Whether the keyword names a type. -/
def isType : Keyword → Bool
  | type _ => true
  | _ => false

/-- Type names that can be called; only `void` cannot. -/
def isConstructor : Keyword → Bool
  | type p => p != .void
  | _ => false

/-- Whether the keyword is a precision qualifier. -/
def isPrecision : Keyword → Bool
  | qualifier q => q.isPrecision
  | _ => false

/-- Whether the keyword is a storage qualifier. -/
def isStorage : Keyword → Bool
  | qualifier q => q.isStorage
  | _ => false

/-- Whether the keyword tells which way an argument is passed. -/
def isDirection : Keyword → Bool
  | qualifier q => q.isDirection
  | _ => false

theorem mem_all (k : Keyword) : k ∈ all := by
  cases k with
  | qualifier q => cases q <;> decide
  | type p => simp [all, Primitive.mem_all p]
  | _ => decide

theorem ofText?_text (k : Keyword) : ofText? k.text = some k := by
  have h := mem_all k
  revert k
  decide

end Keyword

end Essl
