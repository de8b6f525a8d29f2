import Essl.Proofs.Builtin.Evaluation
import Essl.Proofs.Typing.Logic

/-!
# What holds of a context

Every type that is known to typing has all the types of its fields, and every constant is one of
its type, as long as no problem is noted. In any case structs have proper names, and functions are
found under the signature of their parameters.
-/

namespace Essl

/-! ## Types -/

mutual

/-- The structs in a type have names that can be written, and their fields have types. -/
def Ty.Proper (clean : Prop) : Ty → Prop
  | .primitive _ => True
  | .array element _ => element.Proper clean
  | .struct s => s.Proper clean

def StructDef.Proper (clean : Prop) : StructDef → Prop
  | ⟨_, name, fields, _⟩ => (∀ n ∈ name, IsName n) ∧ Field.AllProper clean fields

def Field.AllProper (clean : Prop) : List Field → Prop
  | [] => True
  | ⟨_, some type, _⟩ :: fields => type.Proper clean ∧ Field.AllProper clean fields
  | ⟨_, none, _⟩ :: fields => ¬ clean ∧ Field.AllProper clean fields

end

/-- The type is known, unless `clean` does not hold. -/
def Known (clean : Prop) : Option Ty → Prop
  | some type => type.Proper clean
  | none => ¬ clean

/-- The type is known, and the constant is one of the type. -/
structure Typed (clean : Prop) (type : Option Ty) (constant : Option Value) : Prop where
  known : Known clean type
  holds : clean → ∀ t ∈ type, ∀ v ∈ constant, t.Holds v

section

variable {clean : Prop} {type : Option Ty} {t : Ty} {s : StructDef} {constant : Option Value}

theorem Field.allProper_iff {fields : List Field} :
    Field.AllProper clean fields ↔ ∀ field ∈ fields, Known clean field.type := by
  induction fields with
  | nil => simp [Field.AllProper]
  | cons field fields ih =>
      obtain ⟨name, type, location⟩ := field
      cases type <;> simp [Field.AllProper, Known, ih]

theorem StructDef.proper_iff : s.Proper clean ↔
    s.Named ∧ ∀ field ∈ s.fields, Known clean field.type := by
  obtain ⟨id, name, fields, location⟩ := s
  rw [StructDef.Proper, Field.allProper_iff]
  rfl

theorem Ty.Proper.named : ∀ {t : Ty}, t.Proper clean → t.Named
  | .primitive _, _ => trivial
  | .array element _, h => Ty.Proper.named (t := element) h
  | .struct _, h => (StructDef.proper_iff.1 h).1

@[simp] theorem known_none : Known clean none ↔ ¬ clean := Iff.rfl

@[simp] theorem known_some : Known clean (some t) ↔ t.Proper clean := Iff.rfl

@[simp] theorem Ty.proper_primitive {p : Primitive} : (Ty.primitive p).Proper clean := trivial

theorem Ty.Proper.known (h : t.Proper clean) : Known clean (some t) := h

namespace Known

theorem eq_some (h : Known clean type) (hclean : clean) : ∃ t, type = some t := by
  cases type with
  | none => exact absurd hclean h
  | some t => exact ⟨t, rfl⟩

theorem proper (h : Known clean type) (ht : t ∈ type) : t.Proper clean := by
  obtain rfl := Option.mem_def.1 ht
  exact h

theorem typed (h : Known clean type) : Typed clean type none :=
  ⟨h, by simp⟩

theorem array {element : Option Ty} {length : Option Nat} (helement : Known clean element)
    (hlength : clean → length ≠ none) :
    Known clean (do pure (.array (← element) (← length))) := by
  cases element with
  | none => exact helement
  | some element =>
      cases length with
      | none => exact fun hclean => hlength hclean rfl
      | some length => exact helement

end Known

namespace Typed

theorem unknown (h : ¬ clean) : Typed clean none constant := ⟨h, by simp⟩

theorem ofType (h : t.Proper clean) : Typed clean (some t) none := Known.typed h

theorem some (h : t.Proper clean) (hv : clean → ∀ v ∈ constant, t.Holds v) :
    Typed clean (some t) constant := by
  refine ⟨h, ?_⟩
  rintro hclean _ ⟨⟩
  exact hv hclean

theorem primitive {p : Primitive} (hv : clean → ∀ v ∈ constant, p.Holds v) :
    Typed clean (Option.some (.primitive p)) constant :=
  some Ty.proper_primitive hv

end Typed

end

/-! ## Symbols and scopes -/

section

variable (clean : Prop)

/-- A function of the shader. -/
structure Function.Declared (f : Function) : Prop where
  name : '(' ∉ f.name.toList
  parameters : ∀ p ∈ f.parameters, p.type.Proper clean
  returnType : f.returnType.Proper clean
  evaluate : f.evaluate = none

/-- A variable has a type, and its constant is of this type; a struct has types for all fields. -/
def Symbol.Sound : Symbol → Prop
  | .variable v => Typed clean v.type v.constant
  | .struct s => s.Proper clean
  | .function _ => True

structure Scope.Sound (scope : Scope) : Prop where
  symbols : ∀ entry ∈ scope.symbols, entry.2.Sound clean
  functions : ∀ entry ∈ scope.functions, entry.1 = entry.2.signature ∧ entry.2.Declared clean

/-- The context is one in a function with the given return type. -/
structure Context.Sound (returnType : Option Ty) (c : Context) : Prop where
  scopes : ∀ scope ∈ c.scopes.all, scope.Sound clean
  unresolved : clean → c.unresolved = []
  returnType : c.returnType = returnType

end

theorem Scope.Sound.empty {clean : Prop} (kind : ScopeKind) :
    (Scope.empty kind).Sound clean :=
  ⟨fun _ h => absurd h List.not_mem_nil, fun _ h => absurd h List.not_mem_nil⟩

theorem Scope.Sound.symbol? {clean : Prop} {scope : Scope} (h : scope.Sound clean) {name : String}
    {symbol : Symbol} (hs : scope.symbol? name = some symbol) : symbol.Sound clean := by
  obtain ⟨before, after, hsplit, -⟩ := List.lookup_eq_some_iff.1 hs
  refine h.symbols (name, symbol) ?_
  rw [hsplit]
  simp

theorem Scope.Sound.function? {clean : Prop} {scope : Scope} (h : scope.Sound clean)
    {signature : String} {f : Function} (hf : scope.function? signature = some f) :
    signature = f.signature ∧ f.Declared clean := by
  obtain ⟨before, after, hsplit, -⟩ := List.lookup_eq_some_iff.1 hf
  refine h.functions (signature, f) ?_
  rw [hsplit]
  simp

theorem Builtin.variableNamed?_typed {clean : Prop} {name : String} {stage : Stage} {v : Variable}
    (h : Builtin.variableNamed? name stage = some v) : Typed clean v.type v.constant := by
  have hconstants : ∀ v ∈ Builtin.constants, Typed clean v.type v.constant := by
    intro v hv
    obtain ⟨⟨name, value⟩, -, rfl⟩ := List.mem_map.1 hv
    refine Typed.some trivial ?_
    rintro - _ ⟨⟩
    trivial
  have hvariables : ∀ v ∈ Builtin.stageVariables stage, Typed clean v.type v.constant := by
    intro v hv
    cases stage <;>
      simp only [Builtin.stageVariables, List.mem_cons, List.not_mem_nil, or_false] at hv
    · rcases hv with rfl | rfl <;> exact Typed.ofType trivial
    · rcases hv with rfl | rfl | rfl | rfl | rfl <;> exact Typed.ofType trivial
  have hmem := List.mem_of_find?_eq_some h
  rcases List.mem_append.1 hmem with hv | hv
  · exact hvariables v hv
  · exact hconstants v hv

namespace Context.Sound

variable {clean : Prop} {returnType : Option Ty} {c : Context} {name : String}

theorem empty (stage : Stage) (order : FunctionOrder) :
    (Context.empty stage order).Sound clean none := by
  refine ⟨?_, fun _ => rfl, rfl⟩
  intro scope hscope
  obtain rfl := List.mem_singleton.1 hscope
  exact Scope.Sound.empty .global

/-! ### Names -/

theorem symbol (h : c.Sound clean returnType) {symbol : Symbol}
    (hs : c.scopes.lookup name = some symbol) : symbol.Sound clean := by
  obtain ⟨scope, hscope, hfound⟩ := List.exists_of_findSome?_eq_some hs
  exact (h.scopes scope hscope).symbol? hfound

theorem function (h : c.Sound clean returnType) {signature : String} {f : Function}
    (hf : c.scopes.lookupFunction signature = some f) :
    signature = f.signature ∧ f.Declared clean := by
  obtain ⟨scope, hscope, hfound⟩ := List.exists_of_findSome?_eq_some hf
  exact (h.scopes scope hscope).function? hfound

theorem variableNamed? (h : c.Sound clean returnType) (name : Token) :
    (c.variableNamed? name).Ensures clean fun found =>
      (clean → found ≠ none) ∧ ∀ v ∈ found, Typed clean v.type v.constant := by
  unfold Context.variableNamed?
  split
  · rename_i v hv
    apply Noted.Ensures.pure
    refine ⟨by simp, ?_⟩
    rintro _ ⟨⟩
    exact h.symbol hv
  · apply Noted.Ensures.reported
    simp
  · split
    · rename_i v hv
      apply Noted.Ensures.pure
      simpa using Builtin.variableNamed?_typed hv
    · apply Noted.Ensures.reported
      simp

theorem typeNamed? (h : c.Sound clean returnType) (name : Token) :
    (c.typeNamed? name).Ensures clean (Known clean) := by
  unfold Context.typeNamed?
  split
  · rename_i s hs
    apply Noted.Ensures.pure
    exact h.symbol hs
  · exact Noted.Ensures.reported id
  · split
    · apply Noted.Ensures.pure
      trivial
    · exact Noted.Ensures.reported id

/-! ### Changes -/

theorem push (h : c.Sound clean returnType) (kind : ScopeKind) :
    Context.Sound clean returnType { c with scopes := c.scopes.push kind } := by
  refine ⟨?_, h.unresolved, h.returnType⟩
  intro scope hscope
  rcases List.mem_cons.1 hscope with rfl | hscope
  · exact Scope.Sound.empty kind
  · exact h.scopes scope hscope

theorem pop (h : c.Sound clean returnType) :
    Context.Sound clean returnType { c with scopes := c.scopes.pop?.getD c.scopes } := by
  refine ⟨?_, h.unresolved, h.returnType⟩
  intro scope hscope
  apply h.scopes
  dsimp only at hscope
  cases houter : c.scopes.outer with
  | nil => simpa [Scopes.pop?, houter] using hscope
  | cons outer rest =>
      simp only [Scopes.pop?, houter, Option.getD_some, Scopes.all] at hscope
      simpa [Scopes.all, houter] using Or.inr (List.mem_cons.1 hscope)

theorem inFunction (h : c.Sound clean returnType) (inner : Option Ty) :
    Context.Sound clean inner { c with returnType := inner } :=
  ⟨h.scopes, h.unresolved, rfl⟩

theorem inLoop (h : c.Sound clean returnType) (depth : Nat) :
    Context.Sound clean returnType { c with loopDepth := depth } :=
  ⟨h.scopes, h.unresolved, h.returnType⟩

theorem defined (h : c.Sound clean returnType) (count : Nat) :
    Context.Sound clean returnType { c with structCount := count } :=
  ⟨h.scopes, h.unresolved, h.returnType⟩

theorem poison (h : c.Sound clean returnType) (hclean : ¬ clean) (names : List String) :
    Context.Sound clean returnType { c with unresolved := names } :=
  ⟨h.scopes, fun hc => absurd hc hclean, h.returnType⟩

theorem declareFunction (h : c.Sound clean returnType) {f : Function} (hf : f.Declared clean) :
    Context.Sound clean returnType { c with scopes := c.scopes.declareFunction f } := by
  refine ⟨?_, h.unresolved, h.returnType⟩
  intro scope hscope
  have hcurrent := h.scopes c.scopes.current List.mem_cons_self
  rcases List.mem_cons.1 hscope with rfl | hscope
  · refine ⟨hcurrent.symbols, ?_⟩
    exact Scope.forall_addFunction ⟨rfl, hf⟩ hcurrent.functions
  · exact h.scopes scope (List.mem_cons_of_mem _ hscope)

theorem declare (h : c.Sound clean returnType) {symbol : Symbol} (hs : symbol.Sound clean)
    {scopes : Scopes} (hdeclare : c.scopes.declare c.order.arrange name symbol = .ok scopes) :
    Context.Sound clean returnType { c with scopes } := by
  refine ⟨?_, h.unresolved, h.returnType⟩
  intro scope hscope
  have hcurrent := h.scopes c.scopes.current List.mem_cons_self
  unfold Scopes.declare at hdeclare
  split at hdeclare
  · cases hdeclare
  · cases hdeclare
    rcases List.mem_cons.1 hscope with rfl | hscope
    · exact ⟨List.forall_mem_cons.2 ⟨hs, hcurrent.symbols⟩, hcurrent.functions⟩
    · exact h.scopes scope (List.mem_cons_of_mem _ hscope)

end Context.Sound

/-! ## Actions that change the context -/

namespace Keeps

variable {α : Type} {clean : Prop} {returnType : Option Ty} {P : α → Prop} {x : Check α}

theorem declare (name : Token) {symbol : Symbol} (hs : symbol.Sound clean) :
    Keeps clean (Context.Sound clean returnType) (declare name symbol) fun _ => True := by
  unfold Essl.declare
  apply get_bind
  intro c hc
  split
  · rename_i scopes hscopes
    exact put (hc.declare hs hscopes)
  · exact lift .trivial

theorem inScope (kind : ScopeKind) (hx : Keeps clean (Context.Sound clean returnType) x P) :
    Keeps clean (Context.Sound clean returnType) (inScope kind x) P :=
  between (fun _ hc => hc.push kind) hx fun _ hc => hc.pop

theorem inLoop (hx : Keeps clean (Context.Sound clean returnType) x P) :
    Keeps clean (Context.Sound clean returnType) (inLoop x) P :=
  between (fun c hc => hc.inLoop (c.loopDepth + 1)) hx fun c hc => hc.inLoop (c.loopDepth - 1)

theorem inFunction (inner : Option Ty) (hx : Keeps clean (Context.Sound clean inner) x P) :
    Keeps clean (Context.Sound clean returnType) (inFunction inner x) P := by
  apply get_bind
  intro c hc
  refine between (fun _ hc => hc.inFunction inner) (hx.inScope .function) ?_
  rw [← hc.returnType]
  exact fun _ hc' => hc'.inFunction c.returnType

end Keeps

end Essl
