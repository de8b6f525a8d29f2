import Essl.Proofs.Tree.Erasure
import Essl.Proofs.Tree.Trace

/-!
# Where storage qualifiers are used

The grammar has four places for storage qualifiers. In two of them, declarations of variables or
types and declarations of invariants, every word is an event of the trace.
-/

namespace Essl

/-- A place for storage qualifiers, with what stands there. -/
inductive StorageUse where
  /-- In front of the type in a declaration, at file scope or not. -/
  | declaration (fileScope : Bool) (s : TypeSpec)
  /-- The word in front of the names of variables, at file scope or not. -/
  | invariant (fileScope : Bool) (keyword : Token)
  /-- In front of the type in the condition of a loop. -/
  | condition (s : TypeSpec)
  /-- In front of the type that a function returns. -/
  | returnType (s : TypeSpec)

namespace StorageUse

/-- The type that the words stand in front of. -/
def type? : StorageUse → Option TypeSpec
  | declaration _ s | condition s | returnType s => some s
  | invariant .. => none

/-- The words that typing looks at. -/
def checked : StorageUse → List StorageWord
  | declaration fileScope s => s.qualifiers.storageWords fileScope
  | invariant fileScope keyword => [⟨.invariant, keyword.location, fileScope⟩]
  | condition _ | returnType _ => []

end StorageUse

def Condition.storageUses : Condition → List StorageUse
  | expression _ => []
  | declaration s _ => [.condition s]

mutual

/-- The places in a declaration that stands at file scope or not, in order. -/
def Declaration.storageUses (fileScope : Bool) : Declaration → List StorageUse
  | .declarators s _ _ | .type s _ => [.declaration fileScope s]
  | .precision .. => []
  | .invariants keyword _ _ => [.invariant fileScope keyword]
  | .prototype h _ => [.returnType h.returnType]
  | .function h body => .returnType h.returnType :: body.storageUses

def Block.storageUses : Block → List StorageUse
  | ⟨_, statements, _, _⟩ => Statement.storageUsesOfAll statements

def Statement.storageUses : Statement → List StorageUse
  | .declaration d => d.storageUses false
  | .block b => b.storageUses
  | .expression .. | .empty _ | .jump .. | .return .. => []
  | .ifThen _ _ _ _ whenTrue => whenTrue.storageUses
  | .ifElse _ _ _ _ whenTrue _ whenFalse => whenTrue.storageUses ++ whenFalse.storageUses
  | .whileLoop _ _ condition _ body => condition.storageUses ++ body.storageUses
  | .doLoop _ body _ _ _ _ _ => body.storageUses
  | .forLoop _ _ init condition _ _ _ body =>
    init.storageUses ++ condition.elim [] Condition.storageUses ++ body.storageUses

def Statement.storageUsesOfAll : List Statement → List StorageUse
  | [] => []
  | s :: ss => s.storageUses ++ Statement.storageUsesOfAll ss

end

/-- All places for storage qualifiers in the shader, in order. -/
def Shader.storageUses (shader : Shader) : List StorageUse :=
  shader.declarations.flatMap (Declaration.storageUses true)

/-- The words in the places that typing looks at. -/
def checkedWords (uses : List StorageUse) : List StorageWord := uses.flatMap StorageUse.checked

section

variable {uses more : List StorageUse} {use : StorageUse}

@[simp] theorem checkedWords_nil : checkedWords [] = [] := rfl

@[simp] theorem checkedWords_cons :
    checkedWords (use :: uses) = use.checked ++ checkedWords uses :=
  List.flatMap_cons

@[simp] theorem checkedWords_append :
    checkedWords (uses ++ more) = checkedWords uses ++ checkedWords more :=
  List.flatMap_append

end

/-! ## Without annotations -/

@[simp] theorem Condition.checkedWords_storageUses (c : Condition) :
    checkedWords c.storageUses = [] := by
  cases c <;> rfl

mutual

theorem Declaration.checkedWords_erase (fileScope : Bool) : ∀ d : Declaration,
    checkedWords (d.erase.storageUses fileScope) = checkedWords (d.storageUses fileScope)
  | .declarators s _ _ | .type s _ => by
      simp [Declaration.erase, Declaration.storageUses, StorageUse.checked]
  | .precision .. | .invariants .. | .prototype .. => rfl
  | .function _ body => by
      simp [Declaration.erase, Declaration.storageUses, StorageUse.checked,
        body.checkedWords_erase]

theorem Block.checkedWords_erase : ∀ b : Block,
    checkedWords b.erase.storageUses = checkedWords b.storageUses
  | ⟨_, statements, _, _⟩ => Statement.checkedWords_eraseAll statements

theorem Statement.checkedWords_erase : ∀ s : Statement,
    checkedWords s.erase.storageUses = checkedWords s.storageUses
  | .declaration d => d.checkedWords_erase false
  | .block b => b.checkedWords_erase
  | .expression .. | .empty _ | .jump .. | .return .. => rfl
  | .ifThen _ _ _ _ whenTrue => whenTrue.checkedWords_erase
  | .ifElse _ _ _ _ whenTrue _ whenFalse => by
      simp [Statement.erase, Statement.storageUses, whenTrue.checkedWords_erase,
        whenFalse.checkedWords_erase]
  | .whileLoop _ _ condition _ body => by
      simp [Statement.erase, Statement.storageUses, body.checkedWords_erase]
  | .doLoop _ body _ _ _ _ _ => body.checkedWords_erase
  | .forLoop _ _ init condition _ _ _ body => by
      cases condition <;>
        simp [Statement.erase, Statement.storageUses, init.checkedWords_erase,
          body.checkedWords_erase]

theorem Statement.checkedWords_eraseAll : ∀ ss : List Statement,
    checkedWords (Statement.storageUsesOfAll (Statement.eraseAll ss)) =
      checkedWords (Statement.storageUsesOfAll ss)
  | [] => rfl
  | s :: ss => by
      simp [Statement.eraseAll, Statement.storageUsesOfAll, s.checkedWords_erase,
        Statement.checkedWords_eraseAll ss]

end

theorem Shader.checkedWords_erase (shader : Shader) :
    checkedWords shader.erase.storageUses = checkedWords shader.storageUses := by
  obtain ⟨ds⟩ := shader
  induction ds with
  | nil => rfl
  | cons d ds ih =>
      simp only [Shader.storageUses, Shader.erase, List.map_cons, List.flatMap_cons,
        checkedWords_append, d.checkedWords_erase] at ih ⊢
      rw [ih]

/-! ## In the trace -/

/-- The storage qualifiers among events. -/
def storageIn (events : List ScopeEvent) : List StorageWord :=
  events.filterMap fun
    | .storage word => some word
    | _ => none

section

variable {events more : List ScopeEvent}

@[simp] theorem storageIn_nil : storageIn [] = [] := rfl

@[simp] theorem storageIn_append :
    storageIn (events ++ more) = storageIn events ++ storageIn more :=
  List.filterMap_append

@[simp] theorem storageIn_enter : storageIn (.enter :: events) = storageIn events := rfl

@[simp] theorem storageIn_leave : storageIn (.leave :: events) = storageIn events := rfl

@[simp] theorem storageIn_map_storage (words : List StorageWord) :
    storageIn (words.map .storage) = words := by
  simp [storageIn, List.filterMap_map]

theorem storageIn_flatMap {α : Type} {f : α → List ScopeEvent} {as : List α}
    (h : ∀ a ∈ as, storageIn (f a) = []) : storageIn (as.flatMap f) = [] := by
  induction as with
  | nil => rfl
  | cons a as ih =>
      obtain ⟨ha, has⟩ := List.forall_mem_cons.1 h
      simp [ha, ih has]

end

theorem Expr.storageIn_acts (e : Expr) : storageIn e.acts = [] := by
  cases e with
  | «variable» => rfl
  | arrayCall => rfl
  | _ => exact List.filterMap_eq_nil_iff.2 (List.forall_mem_map.2 fun _ _ => rfl)

mutual

theorem Expr.storageIn_events : ∀ e : Expr, storageIn e.events = []
  | .assignment _ left _ right | .binary _ left _ right => by
      simp [events, storageIn_acts, left.storageIn_events, right.storageIn_events]
  | .ternary _ condition _ whenTrue _ whenFalse => by
      simp [events, storageIn_acts, condition.storageIn_events, whenTrue.storageIn_events,
        whenFalse.storageIn_events]
  | .unary _ _ operand | .step _ operand _ | .group _ _ operand _ | .field _ operand _ _ => by
      simp [events, storageIn_acts, operand.storageIn_events]
  | .literal .. | .variable .. => by simp [events, storageIn_acts]
  | .call _ _ _ _ arguments _ | .list _ arguments => by
      simp [events, storageIn_acts, Expr.storageIn_eventsOfEach arguments]
  | .arrayCall _ _ _ size _ _ _ arguments _ => by
      simp [events, storageIn_acts, size.storageIn_events, Expr.storageIn_eventsOfEach arguments]
  | .index _ operand _ position _ => by
      simp [events, storageIn_acts, operand.storageIn_events, position.storageIn_events]

theorem Expr.storageIn_eventsOfEach : ∀ es : List Expr, storageIn (eventsOfEach es) = []
  | [] => rfl
  | e :: es => by
      simp [eventsOfEach, e.storageIn_events, Expr.storageIn_eventsOfEach es]

end

theorem storageIn_sizeEvents (size : Option ArraySize) : storageIn (sizeEvents size) = [] := by
  cases size with
  | none => rfl
  | some size => exact size.size.storageIn_events

theorem storageIn_optionalEvents (e : Option Expr) : storageIn (optionalEvents e) = [] := by
  cases e with
  | none => rfl
  | some e => exact e.storageIn_events

theorem Declarator.storageIn_eventsInside (d : Declarator) : storageIn d.eventsInside = [] := by
  simp [eventsInside, storageIn_sizeEvents, storageIn_optionalEvents]

theorem Declarator.storageIn_events (words : List Token) (d : Declarator) :
    storageIn (d.events words) = [] := by
  rw [events, storageIn_append, d.storageIn_eventsInside]
  rfl

mutual

theorem TypeSpec.storageIn_events : ∀ s : TypeSpec, storageIn s.events = []
  | .named .. => rfl
  | .struct _ _ name _ fields _ defined _ => by
      have hdeclared : storageIn (name.toList.map (.struct · defined)) = [] := by cases name <;> rfl
      simp [TypeSpec.events, FieldSpec.storageIn_eventsOfAll fields, hdeclared]

theorem FieldSpec.storageIn_eventsOfAll : ∀ fields : List FieldSpec,
    storageIn (FieldSpec.eventsOfAll fields) = []
  | [] => rfl
  | ⟨type, names, _⟩ :: rest => by
      have hnames : storageIn (names.flatMap Declarator.eventsInside) = [] :=
        storageIn_flatMap fun d _ => d.storageIn_eventsInside
      simp [FieldSpec.eventsOfAll, type.storageIn_events, hnames,
        FieldSpec.storageIn_eventsOfAll rest]

end

theorem FunctionHeader.storageIn_events (fileScope : Bool) (h : FunctionHeader) :
    storageIn (h.events fileScope) = [] := by
  have hparameters : storageIn (h.parameters.flatMap ParameterSpec.events) = [] :=
    storageIn_flatMap fun p _ => by
      simp [ParameterSpec.events, p.typeSpec.storageIn_events, storageIn_sizeEvents]
  rw [events, storageIn_append, storageIn_append, h.returnType.storageIn_events, hparameters]
  split <;> rfl

theorem Condition.storageIn_events (c : Condition) : storageIn c.events = [] := by
  cases c with
  | expression e => exact e.storageIn_events
  | declaration s d => simp [events, s.storageIn_events, d.storageIn_events]

mutual

theorem Declaration.storageIn_events (fileScope : Bool) : ∀ d : Declaration,
    storageIn (d.events fileScope) = checkedWords (d.storageUses fileScope)
  | .declarators s ds _ => by
      have hds : storageIn (ds.flatMap (Declarator.events s.qualifiers.words)) = [] :=
        storageIn_flatMap fun d _ => d.storageIn_events _
      simp [Declaration.events, Declaration.storageUses, StorageUse.checked, s.storageIn_events,
        hds]
  | .type s _ => by
      simp [Declaration.events, Declaration.storageUses, StorageUse.checked, s.storageIn_events]
  | .precision _ _ s _ => s.storageIn_events
  | .invariants keyword names _ => by
      have hnames : storageIn (names.map fun n => .invariant n.name n.symbol) = [] :=
        List.filterMap_eq_nil_iff.2 (List.forall_mem_map.2 fun _ _ => rfl)
      exact congrArg (⟨.invariant, keyword.location, fileScope⟩ :: ·) hnames
  | .prototype h _ => h.storageIn_events fileScope
  | .function h body => by
      have hparameters : storageIn (h.parameters.flatMap ParameterSpec.declaration) = [] :=
        storageIn_flatMap fun p _ => by
          rw [ParameterSpec.declaration]
          cases p.name <;> rfl
      simp [Declaration.events, Declaration.storageUses, StorageUse.checked, h.storageIn_events,
        hparameters, body.storageIn_eventsInside]

theorem Block.storageIn_eventsInside : ∀ b : Block,
    storageIn b.eventsInside = checkedWords b.storageUses
  | ⟨_, statements, _, _⟩ => Statement.storageIn_eventsOfAll statements

theorem Block.storageIn_events : ∀ b : Block, storageIn b.events = checkedWords b.storageUses
  | ⟨_, statements, _, newScope⟩ => by
      have h := Statement.storageIn_eventsOfAll statements
      cases newScope
      · exact h
      · simpa [Block.events, Block.storageUses] using h

theorem Statement.storageIn_events : ∀ s : Statement,
    storageIn s.events = checkedWords s.storageUses
  | .declaration d => d.storageIn_events false
  | .block b => b.storageIn_events
  | .expression e _ => e.storageIn_events
  | .empty _ | .jump .. => rfl
  | .ifThen _ _ condition _ whenTrue => by
      simp [Statement.events, Statement.storageUses, condition.storageIn_events,
        whenTrue.storageIn_events]
  | .ifElse _ _ condition _ whenTrue _ whenFalse => by
      simp [Statement.events, Statement.storageUses, condition.storageIn_events,
        whenTrue.storageIn_events, whenFalse.storageIn_events]
  | .whileLoop _ _ condition _ body => by
      simp [Statement.events, Statement.storageUses, condition.storageIn_events,
        body.storageIn_events]
  | .doLoop _ body _ _ condition _ _ => by
      simp [Statement.events, Statement.storageUses, condition.storageIn_events,
        body.storageIn_events]
  | .forLoop _ _ init condition _ increment _ body => by
      cases condition <;>
        simp [Statement.events, Statement.storageUses, init.storageIn_events,
          optionalConditionEvents, Condition.storageIn_events, storageIn_optionalEvents,
          body.storageIn_events]
  | .return _ value _ => storageIn_optionalEvents value

theorem Statement.storageIn_eventsOfAll : ∀ ss : List Statement,
    storageIn (Statement.eventsOfAll ss) = checkedWords (Statement.storageUsesOfAll ss)
  | [] => rfl
  | s :: ss => by
      simp [Statement.eventsOfAll, Statement.storageUsesOfAll, s.storageIn_events,
        Statement.storageIn_eventsOfAll ss]

end

/-- The storage qualifiers of the trace are the words in the places that typing looks at. -/
theorem Shader.storageIn_trace (shader : Shader) :
    storageIn shader.trace = checkedWords shader.storageUses := by
  obtain ⟨ds⟩ := shader
  induction ds with
  | nil => rfl
  | cons d ds ih =>
      simp only [Shader.trace, Shader.storageUses, List.flatMap_cons, storageIn_append,
        checkedWords_append, d.storageIn_events] at ih ⊢
      rw [ih]

end Essl
