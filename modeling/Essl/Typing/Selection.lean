import Essl.Typing.Context

/-!
# Fields, swizzles and indices

Selecting parts of a value. The operands are typed already.
-/

namespace Essl

/-! ## Swizzles -/

/-- The names of the components of a vector. A swizzle takes all its names from one set. -/
def swizzleSets : List (List Char) :=
  [['x', 'y', 'z', 'w'], ['r', 'g', 'b', 'a'], ['s', 't', 'p', 'q']]

/-- The set that a component name is from, and the position in it. -/
def swizzleComponent? (c : Char) : Option (Nat × Nat) :=
  (swizzleSets.mapIdx fun set names => (names.idxOf? c).map (set, ·)).findSome? id

/-- A character that makes a swizzle unacceptable. -/
structure SwizzleFault where
  cause : SemanticCause
  /-- In bytes from the start of the selector. -/
  offset : Nat
  character : Char

/-- The positions that component names select, after names from the given set. -/
def swizzleIndices (vector : Primitive) (set : Option Nat) (offset : Nat) :
    List Char → Except SwizzleFault (List Nat)
  | [] => .ok []
  | c :: cs =>
    match swizzleComponent? c with
    | none => .error ⟨.invalidSwizzleComponent c, offset, c⟩
    | some (own, index) =>
      if set.any (· ≠ own) then .error ⟨.mixedSwizzleSets c, offset, c⟩
      else if vector.componentCount ≤ index then
        .error ⟨.swizzleOutOfBounds c (.primitive vector), offset, c⟩
      else (swizzleIndices vector (some own) (offset + c.utf8Size) cs).map (index :: ·)

/-- Types a swizzle of a vector that may have a known value. -/
def typeSwizzle (vector : Primitive) (constant : Option Value) (selector : Token) :
    Noted ExprInfo :=
  let names := selector.text.toList
  if 4 < names.length then do
    report (.swizzleTooLong names.length) selector.location
    pure .none
  else
    match swizzleIndices vector none 0 names with
    | .error fault => do
      report fault.cause (selector.location.slice fault.offset fault.character.utf8Size)
      pure .none
    | .ok indices =>
      pure <|
        match vector.element.vectorOf? names.length with
        | some result => .ofValue (.primitive result) (constant.bind (·.swizzle indices))
        | none => .none

/-! ## Fields and indices -/

/-- Types `operand.selector`. -/
def typeField (operand : Expr) (selector : Token) : Noted ExprInfo :=
  match operand.info.type with
  | none => pure .none
  | some (.primitive (.vector element size)) =>
    typeSwizzle (.vector element size) operand.info.constant selector
  | some (.struct s) =>
    match s.find? selector.text with
    | some (index, field) =>
      pure ⟨field.type, none, operand.info.constant.bind (·.component? index)⟩
    | none => do
      report (.noSuchField (.struct s) selector.text) selector.location
      pure .none
  | some type => do
    report (.invalidFieldSelection type) selector.location
    pure .none

/-- The type and number of the parts of an indexed value. -/
def indexed? : Ty → Option (Ty × Nat)
  | .primitive (.matrix size) => some (.primitive (.vector .float size), size.toNat)
  | .primitive (.vector element size) => some (.primitive (.scalar element), size.toNat)
  | .array element length => some (element, length)
  | _ => none

/-- The position that an index selects, as far as it is known. It is a constant within bounds. -/
def typePosition (index : Expr) (length : Nat) : Noted (Option Nat) :=
  match index.info.type with
  | none => pure none
  | some type =>
    if type ≠ .int then do
      report (.indexNotInteger type) index.location
      pure none
    else
      match index.info.constant.bind Value.asInt? with
      | none => do
        report .nonConstantIndex index.location
        pure none
      | some i =>
        if 0 ≤ i ∧ i.toInt.toNat < length then pure (some i.toInt.toNat)
        else do
          report (.indexOutOfBounds i length) index.location
          pure none

/-- Types `operand[index]`. -/
def typeIndex (operand index : Expr) : Noted ExprInfo :=
  match operand.info.type with
  | none => pure .none
  | some type =>
    match indexed? type with
    | none => do
      report (.notIndexable type) operand.location
      pure .none
    | some (part, length) => do
      let position ← typePosition index length
      let constant := do (← operand.info.constant).component? (← position)
      pure (.ofValue part constant)

end Essl
