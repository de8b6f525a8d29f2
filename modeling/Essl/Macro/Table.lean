import Essl.Token.Scan

/-!
# Macro definitions

A table holds at most one definition for each name.
-/

namespace Essl

/-- The definition of a macro. -/
structure MacroDef where
  name : String
  /-- The parameters, if the macro is called with arguments. -/
  parameters : Option (List String)
  body : List Token
  /-- The name in the directive, absent for macros that no directive defines. -/
  declaredAt : Option Location

/-- The macros defined at a point of a shader. -/
structure MacroTable where
  entries : List MacroDef

namespace MacroTable

def empty : MacroTable := ⟨[]⟩

/-- The definition of a name. -/
def find? (table : MacroTable) (name : String) : Option MacroDef :=
  table.entries.find? (·.name == name)

/-- Whether a name is defined. -/
def contains (table : MacroTable) (name : String) : Bool := (table.find? name).isSome

/-- Removes the definition of a name, if there is one. -/
def undefine (table : MacroTable) (name : String) : MacroTable :=
  ⟨table.entries.filter (·.name != name)⟩

/-- Adds a definition in place of any earlier one of its name. -/
def define (table : MacroTable) (definition : MacroDef) : MacroTable :=
  ⟨definition :: (table.undefine definition.name).entries⟩

theorem find?_undefine_of_ne (table : MacroTable) {name other : String} (h : other ≠ name) :
    (table.undefine name).find? other = table.find? other := by
  simp only [undefine, find?, List.find?_filter]
  congr 1
  funext d
  by_cases hd : d.name = other <;> simp [hd, h]

@[simp] theorem find?_define_self (table : MacroTable) (d : MacroDef) :
    (table.define d).find? d.name = some d := by
  simp [define, find?]

theorem find?_define_of_ne (table : MacroTable) {d : MacroDef} {name : String}
    (h : name ≠ d.name) : (table.define d).find? name = table.find? name := by
  rw [← table.find?_undefine_of_ne h]
  simp [define, find?, h.symm]

/-- How many tokens all replacement lists have together. -/
def bodySize (table : MacroTable) : Nat := (table.entries.flatMap (·.body)).length

end MacroTable

/-- Names that only the language itself may define. -/
def isReservedName (name : String) : Bool :=
  ['_', '_'].isPrefixOf name.toList || ['G', 'L', '_'].isPrefixOf name.toList

end Essl
