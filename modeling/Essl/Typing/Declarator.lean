import Essl.Typing.Expr

/-!
# Types in declarations, and what they declare

Type specifiers define structs on the way. A variable is declared after its initializer, which
therefore cannot refer to it.
-/

namespace Essl

/-! ## Qualifiers -/

/-- The qualifiers that words stand for. -/
def qualifierSet (words : List Token) : QualifierSet :=
  .ofList (words.filterMap fun t => t.kind.keyword?.bind Keyword.qualifier?)

def TypeQualifiers.set (q : TypeQualifiers) : QualifierSet :=
  qualifierSet (q.storage ++ q.precision.toList)

/-- The qualifiers of a parameter. One without a direction is an input. -/
def ParameterSpec.qualifierSet (p : ParameterSpec) : QualifierSet :=
  let set := Essl.qualifierSet p.qualifiers
  if set.members.any Qualifier.isDirection then set else set.insert .input

/-- Checks where a storage qualifier is written. -/
def requireStorage (c : Context) (word : Token) : Noted Unit :=
  match word.kind.keyword?.bind Keyword.qualifier? with
  | none => pure ()
  | some q => do
    if (q.isGlobalStorage || q == .invariant) && !c.scopes.isGlobal then
      report (.notGlobalScope q) word.location
    if q == .attrib && c.stage != .vertex then
      report .attributeInFragmentShader word.location

/-- Checks where storage qualifiers are written. -/
def requireStorages (c : Context) : List Token → Noted Unit
  | [] => pure ()
  | word :: words => do
    requireStorage c word
    requireStorages c words

/-! ## Types -/

/-- The type of a declared name: that in front of it, or an array of these. -/
def declaredType (c : Context) (base : Option Ty) :
    Option ArraySize → Noted (Option ArraySize × Option Ty)
  | none => pure (none, base)
  | some size => do
    let (size, length) ← size.check c
    let type := do pure (.array (← base) (← length))
    pure (some size, type)

/-- There are no objects of type `void`. -/
def requireNotVoid (type : Option Ty) (name : String) (location : Location) : Noted Unit :=
  if type = some .void then report (.voidVariable name) location else pure ()

/-- Types the names of fields of one type, and adds them to the fields before them. -/
def checkFieldNames (c : Context) (base : Option Ty) (fields : List Field) :
    List Declarator → Noted (List Declarator × List Field)
  | [] => pure ([], fields)
  | d :: ds => do
    let (size, type) ← declaredType c base d.size
    requireNotVoid type d.name.text d.name.location
    let d := { d with size, type, symbol := none }
    match fields.find? (·.name == d.name.text) with
    | some previous => do
      report (.duplicateField d.name.text previous.location) d.name.location
      let (ds, fields) ← checkFieldNames c base fields ds
      pure (d :: ds, fields)
    | none => do
      let field : Field := ⟨d.name.text, type, d.name.location⟩
      let (ds, fields) ← checkFieldNames c base (fields ++ [field]) ds
      pure (d :: ds, fields)

/-- Makes a struct that differs from all others. -/
def defineStruct (keyword : Token) (name : Option Token) (fields : List Field) :
    Check StructDef := do
  let c ← get
  set { c with structCount := c.structCount + 1 }
  pure ⟨c.structCount, name.map Token.text, fields, (name.getD keyword).location⟩

mutual

/-- Tells the type that a type specifier stands for. A struct is declared after its fields. -/
def TypeSpec.check : TypeSpec → Check TypeSpec
  | .named q name _ => do
    let type ← (← get).typeNamed? name
    pure (.named q name type)
  | .struct q keyword name opening fields closing _ _ => do
    let (fields, members) ← inScope .struct (checkFields [] fields)
    let s ← defineStruct keyword name members
    match name with
    | some name => declare name (.struct s)
    | none => pure ()
    pure (.struct q keyword name opening fields closing (some s) (some (.struct s)))

/-- Types field declarations, and adds the fields to those before them. -/
def checkFields (members : List Field) : List FieldSpec → Check (List FieldSpec × List Field)
  | [] => pure ([], members)
  | ⟨type, names, semicolon⟩ :: rest => do
    let type ← type.check
    let (names, members) ← checkFieldNames (← get) type.type members names
    let (rest, members) ← checkFields members rest
    pure (⟨type, names, semicolon⟩ :: rest, members)

end

/-! ## Variables -/

/-- A `const` variable is initialized with a constant, which is its value. -/
def requireConstant (d : Declarator) : Noted Unit :=
  match d.initializer with
  | none => report (.missingConstInitializer d.name.text) d.name.location
  | some e =>
    if e.info.type.isSome && e.info.constant.isNone then
      report (.nonConstantInitializer d.name.text) e.location
    else pure ()

/-- Types the initializer of a variable. -/
def checkInitializer (c : Context) (type : Option Ty) : Option Expr → Noted (Option Expr)
  | none => pure none
  | some e => do
    let e ← e.check c
    requireType type e.info.type e.location
    pure (some e)

/-- The value of a variable, which is known for `const` ones. -/
def declaredConstant (qualifiers : QualifierSet) (type : Option Ty) (initializer : Option Expr) :
    Option Value :=
  match type, initializer with
  | some type, some e =>
    if qualifiers.contains .const ∧ e.info.type = some type then e.info.constant else none
  | _, _ => none

/-- Types a declarator, and declares the variable. -/
def Declarator.check (base : Option Ty) (qualifiers : QualifierSet) (d : Declarator) :
    Check Declarator := do
  let c ← get
  let (size, type) ← declaredType c base d.size
  requireNotVoid type d.name.text d.name.location
  let initializer ← checkInitializer c type d.initializer
  let d := { d with size, initializer, type }
  if qualifiers.contains .const then requireConstant d
  let v : Variable :=
    { name := d.name.text
      type := type
      qualifiers := qualifiers
      constant := declaredConstant qualifiers type initializer
      readOnly :=
        qualifiers.contains .const || qualifiers.contains .uniform || qualifiers.contains .attrib
      declaredAt := some d.name.location }
  declare d.name (.variable v)
  pure { d with symbol := some v }

/-- Types the declarators after a type, and declares the variables. -/
def checkDeclarators (base : Option Ty) (qualifiers : QualifierSet) :
    List Declarator → Check (List Declarator)
  | [] => pure []
  | d :: ds => do
    let d ← d.check base qualifiers
    let ds ← checkDeclarators base qualifiers ds
    pure (d :: ds)

end Essl
