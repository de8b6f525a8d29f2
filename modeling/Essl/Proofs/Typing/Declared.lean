import Essl.Proofs.Typing.Logic

/-!
# Everything that is declared

Scopes change only by a declaration, or by opening or closing one of them. So what holds of all
symbols and functions that are declared goes on to hold of all that are in scope, and of all that
names are found to stand for.
-/

namespace Essl

namespace Scope

/-- What a scope declares by a name: a variable or struct, or else any function of the name. -/
inductive Declares (scope : Scope) (name : String) : Symbol → Prop where
  | symbol {symbol : Symbol} : scope.symbol? name = some symbol → Declares scope name symbol
  | function {f : Function} : scope.symbol? name = none → f ∈ scope.functions.map Prod.snd →
      f.name = name → Declares scope name (.function f)

variable {scope : Scope} {order : List Function → List Function} {name : String} {symbol : Symbol}

/-- Whatever the order, what is found is declared. -/
theorem declares_of_declared? (horder : ∀ fs, (order fs).Perm fs)
    (h : scope.declared? order name = some symbol) : scope.Declares name symbol := by
  unfold declared? at h
  split at h
  · rename_i found hfound
    cases h
    exact .symbol hfound
  · rename_i hnone
    obtain ⟨f, hf, rfl⟩ := Option.map_eq_some_iff.1 h
    have hname := List.find?_some hf
    exact .function hnone ((horder _).mem_iff.1 (List.mem_of_find?_eq_some hf)) (eq_of_beq hname)

theorem exists_declared?_of_declares (horder : ∀ fs, (order fs).Perm fs)
    (h : scope.Declares name symbol) : ∃ found, scope.declared? order name = some found := by
  cases h with
  | symbol h => exact ⟨symbol, by rw [declared?, h]⟩
  | @function f hnone hf hname =>
      rw [declared?, hnone]
      cases hfind : (order (scope.functions.map Prod.snd)).find? (·.name == name) with
      | some g => exact ⟨.function g, rfl⟩
      | none =>
          have hne := List.find?_eq_none.1 hfind f ((horder _).mem_iff.2 hf)
          exact absurd (beq_iff_eq.2 hname) hne

/-- Two orders only decide which of several functions is found. -/
theorem declared?_cases {other : List Function → List Function}
    (horder : ∀ fs, (order fs).Perm fs) (hother : ∀ fs, (other fs).Perm fs) (scope : Scope)
    (name : String) :
    scope.declared? order name = scope.declared? other name ∨
      ∃ found existing, found ≠ existing ∧ scope.declared? order name = some found ∧
        scope.declared? other name = some existing ∧ scope.Declares name found ∧
          scope.Declares name existing := by
  cases hfound : scope.declared? order name with
  | none =>
      cases hexisting : scope.declared? other name with
      | none => exact .inl rfl
      | some existing =>
          obtain ⟨found, hsome⟩ :=
            exists_declared?_of_declares horder (declares_of_declared? hother hexisting)
          cases hfound.symm.trans hsome
  | some found =>
      have hdeclares := declares_of_declared? horder hfound
      obtain ⟨existing, hexisting⟩ := exists_declared?_of_declares hother hdeclares
      by_cases hsame : found = existing
      · exact .inl (hsame ▸ hexisting.symm)
      · exact .inr ⟨found, existing, hsame, rfl, hexisting, hdeclares,
          declares_of_declared? hother hexisting⟩

end Scope

/-! ## Properties of everything in scope -/

/-- All symbols and all functions of a scope have certain properties. -/
structure Scope.All (S : Symbol → Prop) (F : Function → Prop) (scope : Scope) : Prop where
  symbols : ∀ entry ∈ scope.symbols, S entry.2
  functions : ∀ entry ∈ scope.functions, F entry.2

/-- All symbols and all functions in scope have certain properties. -/
def Scopes.All (S : Symbol → Prop) (F : Function → Prop) (scopes : Scopes) : Prop :=
  ∀ scope ∈ scopes.all, scope.All S F

variable {S : Symbol → Prop} {F : Function → Prop} {name : String}

namespace Scope.All

variable {scope : Scope}

theorem empty (kind : ScopeKind) : (Scope.empty kind).All S F :=
  ⟨fun _ h => absurd h List.not_mem_nil, fun _ h => absurd h List.not_mem_nil⟩

theorem symbol? (h : scope.All S F) {symbol : Symbol} (hs : scope.symbol? name = some symbol) :
    S symbol := by
  obtain ⟨before, after, hsplit, -⟩ := List.lookup_eq_some_iff.1 hs
  refine h.symbols (name, symbol) ?_
  rw [hsplit]
  simp

theorem function? (h : scope.All S F) {f : Function} (hf : scope.function? name = some f) :
    F f := by
  obtain ⟨before, after, hsplit, -⟩ := List.lookup_eq_some_iff.1 hf
  refine h.functions (name, f) ?_
  rw [hsplit]
  simp

theorem declares (h : scope.All S F) (hfunction : ∀ f, F f → S (.function f)) {symbol : Symbol}
    (hs : scope.Declares name symbol) : S symbol := by
  cases hs with
  | symbol hs => exact h.symbol? hs
  | function _ hf _ =>
      obtain ⟨entry, hentry, rfl⟩ := List.mem_map.1 hf
      exact hfunction _ (h.functions entry hentry)

end Scope.All

namespace Scopes.All

variable {scopes : Scopes}

theorem empty : Scopes.empty.All S F := by
  intro scope hscope
  obtain rfl := List.mem_singleton.1 hscope
  exact Scope.All.empty .global

theorem current (h : scopes.All S F) : scopes.current.All S F := h _ List.mem_cons_self

/-! ### Names -/

theorem lookup (h : scopes.All S F) {symbol : Symbol} (hs : scopes.lookup name = some symbol) :
    S symbol := by
  obtain ⟨scope, hscope, hfound⟩ := List.exists_of_findSome?_eq_some hs
  exact (h scope hscope).symbol? hfound

theorem lookupFunction (h : scopes.All S F) {f : Function}
    (hf : scopes.lookupFunction name = some f) : F f := by
  obtain ⟨scope, hscope, hfound⟩ := List.exists_of_findSome?_eq_some hf
  exact (h scope hscope).function? hfound

/-! ### Changes -/

/-- The current scope is replaced. -/
theorem replace (h : scopes.All S F) {scope : Scope} (hscope : scope.All S F) :
    Scopes.All S F { scopes with current := scope } :=
  List.forall_mem_cons.2 ⟨hscope, fun outer houter => h outer (List.mem_cons_of_mem _ houter)⟩

theorem push (h : scopes.All S F) (kind : ScopeKind) : (scopes.push kind).All S F :=
  List.forall_mem_cons.2 ⟨Scope.All.empty kind, h⟩

theorem pop (h : scopes.All S F) : (scopes.pop?.getD scopes).All S F := by
  obtain ⟨current, outer⟩ := scopes
  cases outer with
  | nil => exact h
  | cons => exact fun scope hscope => h scope (List.mem_cons_of_mem current hscope)

theorem declare (h : scopes.All S F) {order : List Function → List Function} {symbol : Symbol}
    (hs : S symbol) {scopes' : Scopes}
    (hdeclare : scopes.declare order name symbol = .ok scopes') : scopes'.All S F := by
  unfold Scopes.declare at hdeclare
  split at hdeclare
  · cases hdeclare
  · cases hdeclare
    exact h.replace ⟨List.forall_mem_cons.2 ⟨hs, h.current.symbols⟩, h.current.functions⟩

theorem declareFunction (h : scopes.All S F) {f : Function} (hf : F f) :
    (scopes.declareFunction f).All S F :=
  h.replace ⟨h.current.symbols, Scope.forall_addFunction hf h.current.functions⟩

end Scopes.All

/-! ## Actions that change the context -/

/-- All symbols and all functions in scope have certain properties. -/
def Context.All (S : Symbol → Prop) (F : Function → Prop) (c : Context) : Prop :=
  c.scopes.All S F

namespace Keeps

variable {α : Type} {clean : Prop} {P : α → Prop} {x : Check α}

theorem declareIn (name : Token) {symbol : Symbol} (hs : S symbol) :
    Keeps clean (Context.All S F) (declare name symbol) fun _ => True := by
  unfold Essl.declare
  apply get_bind
  intro c hc
  split
  · rename_i scopes hscopes
    exact put (Scopes.All.declare hc hs hscopes)
  · exact lift .trivial

theorem inScopeIn (kind : ScopeKind) (hx : Keeps clean (Context.All S F) x P) :
    Keeps clean (Context.All S F) (inScope kind x) P :=
  between (fun _ hc => Scopes.All.push hc kind) hx fun _ hc => Scopes.All.pop hc

theorem inLoopIn (hx : Keeps clean (Context.All S F) x P) :
    Keeps clean (Context.All S F) (inLoop x) P :=
  between (fun _ hc => hc) hx fun _ hc => hc

theorem inFunctionIn (returnType : Option Ty) (hx : Keeps clean (Context.All S F) x P) :
    Keeps clean (Context.All S F) (inFunction returnType x) P := by
  apply get_bind
  intro c _
  exact between (fun _ hc => hc) (hx.inScopeIn .function) fun _ hc => hc

end Keeps

end Essl
