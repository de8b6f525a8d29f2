import Essl.Symbol

/-!
# Scopes

A scope has two name spaces. Variables and structs share one, in which a name is declared at most
once; functions have one of their own, keyed by signature, so that overloads live side by side.
Open scopes are nested: names are looked up from the innermost one outwards.
-/

namespace Essl

/-- The construct that a scope belongs to. -/
inductive ScopeKind where
  | global
  | function
  | struct
  | block
  deriving DecidableEq

/-- An order in which the functions of a scope come when one is looked for by its name alone.
Nothing specifies it. -/
structure FunctionOrder where
  arrange : List Function → List Function
  perm : ∀ fs, (arrange fs).Perm fs

namespace FunctionOrder

def newestFirst : FunctionOrder := ⟨id, .refl⟩

def oldestFirst : FunctionOrder := ⟨List.reverse, List.reverse_perm⟩

end FunctionOrder

/-- What is declared in one scope. -/
structure Scope where
  kind : ScopeKind
  /-- Variables and structs by name, the newest first. -/
  symbols : List (String × Symbol)
  /-- Functions by signature, each of them once, the newest first. -/
  functions : List (String × Function)

namespace Scope

/-- A scope in which nothing is declared. -/
def empty (kind : ScopeKind) : Scope := ⟨kind, [], []⟩

/-- The variable or struct with the name. -/
def symbol? (scope : Scope) (name : String) : Option Symbol := scope.symbols.lookup name

/-- The function that a signature stands for in this scope. -/
def function? (scope : Scope) (signature : String) : Option Function :=
  scope.functions.lookup signature

/-- Whatever declares the name: a variable or struct, else the first function with the name, by the
order in which functions come. -/
def declared? (scope : Scope) (order : List Function → List Function) (name : String) :
    Option Symbol :=
  match scope.symbol? name with
  | some symbol => some symbol
  | none => ((order (scope.functions.map Prod.snd)).find? (·.name == name)).map .function

/-- The variables in the order of their declarations. Structs have fields instead. -/
def variables? (scope : Scope) : Option (List Variable) :=
  match scope.kind with
  | .struct => none
  | _ =>
    some <| scope.symbols.reverse.filterMap fun
      | (_, .variable v) => some v
      | _ => none

/-- Adds a variable or struct. -/
def addSymbol (scope : Scope) (name : String) (symbol : Symbol) : Scope :=
  { scope with symbols := (name, symbol) :: scope.symbols }

/-- Adds a function in place of one with its signature. -/
def addFunction (scope : Scope) (f : Function) : Scope :=
  { scope with
    functions := (f.signature, f) :: scope.functions.filter (·.1 != f.signature) }

variable {scope : Scope} {f : Function}

theorem symbol?_addSymbol (scope : Scope) (name : String) (symbol : Symbol) (other : String) :
    (scope.addSymbol name symbol).symbol? other =
      if other = name then some symbol else scope.symbol? other := by
  rw [symbol?, addSymbol, List.lookup_cons]
  by_cases h : other = name
  · simp [h]
  · rw [beq_false_of_ne h, if_neg h]
    rfl

@[simp] theorem symbol?_addFunction (scope : Scope) (f : Function) (name : String) :
    (scope.addFunction f).symbol? name = scope.symbol? name := rfl

theorem function?_addFunction_self (scope : Scope) (f : Function) :
    (scope.addFunction f).function? f.signature = some f :=
  List.lookup_cons_self

/-- Only the signature that is added stands for something else than before. -/
theorem function?_addFunction_of_ne (scope : Scope) {signature : String}
    (h : signature ≠ f.signature) :
    (scope.addFunction f).function? signature = scope.function? signature := by
  have hfilter (entries : List (String × Function)) :
      (entries.filter (·.1 != f.signature)).lookup signature = entries.lookup signature := by
    induction entries with
    | nil => rfl
    | cons entry entries ih =>
        obtain ⟨key, g⟩ := entry
        by_cases hkey : key = f.signature
        · simp [hkey, List.lookup_cons, beq_false_of_ne h, ih]
        · simp [hkey, List.lookup_cons, ih]
  rw [function?, addFunction, List.lookup_cons, beq_false_of_ne h]
  exact hfilter scope.functions

/-- What holds of the functions of a scope and of one more holds of all with that one. -/
theorem forall_addFunction {P : String × Function → Prop} (hf : P (f.signature, f))
    (h : ∀ entry ∈ scope.functions, P entry) : ∀ entry ∈ (scope.addFunction f).functions, P entry :=
  List.forall_mem_cons.2 ⟨hf, fun entry hentry => h entry (List.mem_filter.1 hentry).1⟩

end Scope

/-- The open scopes. -/
structure Scopes where
  current : Scope
  /-- The scopes around the current one, from the inside out. -/
  outer : List Scope

namespace Scopes

/-- Nothing declared, at file scope. -/
def empty : Scopes := ⟨.empty .global, []⟩

/-- All open scopes, from the inside out. -/
def all (scopes : Scopes) : List Scope := scopes.current :: scopes.outer

/-- How many scopes are around the current one. -/
def depth (scopes : Scopes) : Nat := scopes.outer.length

/-- Whether the innermost scope is that of the whole shader. -/
def isGlobal (scopes : Scopes) : Bool := scopes.current.kind == .global

/-- Opens a scope. -/
def push (scopes : Scopes) (kind : ScopeKind) : Scopes := ⟨.empty kind, scopes.all⟩

/-- Closes the current scope. There is always one left. -/
def pop? (scopes : Scopes) : Option Scopes :=
  match scopes.outer with
  | [] => none
  | scope :: rest => some ⟨scope, rest⟩

/-- Declares a variable or struct in the current scope, unless the scope already declares the
name as anything. -/
def declare (scopes : Scopes) (order : List Function → List Function) (name : String)
    (symbol : Symbol) : Except Symbol Scopes :=
  match scopes.current.declared? order name with
  | some existing => .error existing
  | none => .ok { scopes with current := scopes.current.addSymbol name symbol }

/-- Adds a function to the current scope, in place of one with its signature. -/
def declareFunction (scopes : Scopes) (f : Function) : Scopes :=
  { scopes with current := scopes.current.addFunction f }

/-- The variable or struct of the innermost scope that declares the name as one. -/
def lookup (scopes : Scopes) (name : String) : Option Symbol :=
  scopes.all.findSome? (·.symbol? name)

/-- The function of the innermost scope that declares the signature. -/
def lookupFunction (scopes : Scopes) (signature : String) : Option Function :=
  scopes.all.findSome? (·.function? signature)

@[simp] theorem pop?_push (scopes : Scopes) (kind : ScopeKind) :
    (scopes.push kind).pop? = some scopes := rfl

@[simp] theorem depth_push (scopes : Scopes) (kind : ScopeKind) :
    (scopes.push kind).depth = scopes.depth + 1 := rfl

/-- A new scope hides nothing. -/
@[simp] theorem lookup_push (scopes : Scopes) (kind : ScopeKind) (name : String) :
    (scopes.push kind).lookup name = scopes.lookup name := rfl

@[simp] theorem lookupFunction_push (scopes : Scopes) (kind : ScopeKind) (signature : String) :
    (scopes.push kind).lookupFunction signature = scopes.lookupFunction signature := rfl

end Scopes

end Essl
