import Essl.Slab
import Essl.Typing.Scope

/-!
# Scopes in an arena

Open scopes can be kept in slots that are used again, each with the slot of the scope around it.
What is looked up goes from slot to slot. The slots are a parameter, and so is the order in which
the functions of a scope come, because nothing specifies that order.
-/

namespace Essl

/-- A scope with the slot of the scope around it, and with its variables in the order of their
declarations. Structs have fields instead. -/
structure ScopeSlot where
  scope : Scope
  parent : Option Nat
  variableList : Option (List Variable)

namespace ScopeSlot

/-- A scope in which nothing is declared. -/
def empty (kind : ScopeKind) (parent : Option Nat) : ScopeSlot :=
  ⟨.empty kind, parent, if kind = .struct then none else some []⟩

def addSymbol (slot : ScopeSlot) (name : String) (symbol : Symbol) : ScopeSlot :=
  { slot with
    scope := slot.scope.addSymbol name symbol
    variableList :=
      match symbol with
      | .variable v => slot.variableList.map (· ++ [v])
      | _ => slot.variableList }

def addFunction (slot : ScopeSlot) (f : Function) : ScopeSlot :=
  { slot with scope := slot.scope.addFunction f }

end ScopeSlot

/-- The open scopes, and the slot of the innermost one. -/
structure ScopeArena (τ : Type) where
  slots : τ
  current : Nat

namespace ScopeArena

variable {τ : Type} (S : Slab τ ScopeSlot) (order : List Function → List Function)

/-- Nothing declared, at file scope. -/
def new : ScopeArena τ :=
  let (key, slots) := S.insert S.empty (.empty .global none)
  ⟨slots, key⟩

/-- The innermost scope. A vacant slot makes this fail, and everything that needs the scope. -/
def here? (arena : ScopeArena τ) : Option ScopeSlot := S.get? arena.slots arena.current

/-- Opens a scope. -/
def push (arena : ScopeArena τ) (kind : ScopeKind) : ScopeArena τ :=
  let (key, slots) := S.insert arena.slots (.empty kind (some arena.current))
  ⟨slots, key⟩

/-- Closes the current scope. There is always one left. -/
def pop? (arena : ScopeArena τ) : Option (ScopeArena τ) := do
  let slot ← arena.here? S
  let parent ← slot.parent
  some ⟨S.remove arena.slots arena.current, parent⟩

/-- Declares a variable or struct in the current scope, unless the scope already declares the
name as anything. -/
def declare? (arena : ScopeArena τ) (name : String) (symbol : Symbol) :
    Option (Except Symbol (ScopeArena τ)) := do
  let slot ← arena.here? S
  match slot.scope.declared? order name with
  | some existing => some (.error existing)
  | none =>
    some <| .ok { arena with
      slots := S.replace arena.slots arena.current (slot.addSymbol name symbol) }

/-- Adds a function to the current scope, in place of one with its signature. -/
def declareFunction? (arena : ScopeArena τ) (f : Function) : Option (ScopeArena τ) := do
  let slot ← arena.here? S
  some { arena with slots := S.replace arena.slots arena.current (slot.addFunction f) }

/-- The scope in a slot and those around it, if they are not more than so many. -/
def scopesFrom? (slots : τ) : Nat → Nat → Option (List Scope)
  | 0, _ => none
  | count + 1, key => do
    let slot ← S.get? slots key
    match slot.parent with
    | none => some [slot.scope]
    | some parent => (scopesFrom? slots count parent).map (slot.scope :: ·)

/-- All open scopes, from the inside out. There are not more than slots. -/
def all? (arena : ScopeArena τ) : Option (List Scope) :=
  scopesFrom? S arena.slots (S.size arena.slots) arena.current

/-- The variable or struct of the innermost scope that declares the name as one. -/
def lookup? (arena : ScopeArena τ) (name : String) : Option (Option Symbol) :=
  (arena.all? S).map fun scopes => scopes.findSome? (·.symbol? name)

/-- The function of the innermost scope that declares the signature. -/
def lookupFunction? (arena : ScopeArena τ) (signature : String) : Option (Option Function) :=
  (arena.all? S).map fun scopes => scopes.findSome? (·.function? signature)

end ScopeArena

/-! ## Requests -/

/-- What can be asked of open scopes. -/
inductive ScopeRequest where
  /-- Which scope is the current one. -/
  | position
  | push (kind : ScopeKind)
  | pop
  | declare (name : String) (symbol : Symbol)
  | declareFunction (f : Function)
  /-- What declares a name in the current scope. -/
  | declared (name : String)
  /-- The function with a signature in the current scope. -/
  | function (signature : String)
  | lookup (name : String)
  | lookupFunction (signature : String)
  /-- The variables of the current scope. -/
  | variableList

inductive ScopeReply where
  | position (key : Nat) (kind : ScopeKind) (isGlobal : Bool)
  | entered (key : Nat)
  | done
  | existing (symbol : Symbol)
  | symbol (found : Option Symbol)
  | function (found : Option Function)
  | variableList (found : Option (List Variable))
  /-- The request cannot be met. -/
  | failed

namespace ScopeArena

variable {τ : Type} (S : Slab τ ScopeSlot) (order : List Function → List Function)

def serve? (arena : ScopeArena τ) : ScopeRequest → Option (ScopeReply × ScopeArena τ)
  | .position => (arena.here? S).map fun slot =>
    (.position arena.current slot.scope.kind (slot.scope.kind == .global), arena)
  | .push kind =>
    let inner := arena.push S kind
    some (.entered inner.current, inner)
  | .pop => (arena.pop? S).map fun outer => (.done, outer)
  | .declare name symbol => (arena.declare? S order name symbol).map fun
    | .error existing => (.existing existing, arena)
    | .ok changed => (.done, changed)
  | .declareFunction f => (arena.declareFunction? S f).map fun changed => (.done, changed)
  | .declared name => (arena.here? S).map fun slot =>
    (.symbol (slot.scope.declared? order name), arena)
  | .function signature => (arena.here? S).map fun slot =>
    (.function (slot.scope.function? signature), arena)
  | .lookup name => (arena.lookup? S name).map fun found => (.symbol found, arena)
  | .lookupFunction signature =>
    (arena.lookupFunction? S signature).map fun found => (.function found, arena)
  | .variableList =>
    (arena.here? S).map fun slot => (.variableList slot.variableList, arena)

/-- A request that cannot be met leaves everything as it was. -/
def serve (arena : ScopeArena τ) (request : ScopeRequest) : ScopeReply × ScopeArena τ :=
  (arena.serve? S order request).getD (.failed, arena)

/-- The scopes after some requests. -/
def after (arena : ScopeArena τ) (requests : List ScopeRequest) : ScopeArena τ :=
  requests.foldl (fun arena request => (arena.serve S order request).2) arena

end ScopeArena

namespace Scopes

/-- A request of a stack of scopes, in which functions come from the newest on. The number of a
scope is how deep it is. -/
def serve (scopes : Scopes) : ScopeRequest → ScopeReply × Scopes
  | .position => (.position scopes.depth scopes.current.kind scopes.isGlobal, scopes)
  | .push kind => (.entered (scopes.push kind).depth, scopes.push kind)
  | .pop =>
    match scopes.pop? with
    | some outer => (.done, outer)
    | none => (.failed, scopes)
  | .declare name symbol =>
    match scopes.declare id name symbol with
    | .error existing => (.existing existing, scopes)
    | .ok changed => (.done, changed)
  | .declareFunction f => (.done, scopes.declareFunction f)
  | .declared name => (.symbol (scopes.current.declared? id name), scopes)
  | .function signature => (.function (scopes.current.function? signature), scopes)
  | .lookup name => (.symbol (scopes.lookup name), scopes)
  | .lookupFunction signature => (.function (scopes.lookupFunction signature), scopes)
  | .variableList => (.variableList scopes.current.variables?, scopes)

/-- The scopes after some requests. -/
def after (scopes : Scopes) (requests : List ScopeRequest) : Scopes :=
  requests.foldl (fun scopes request => (scopes.serve request).2) scopes

end Scopes

end Essl
