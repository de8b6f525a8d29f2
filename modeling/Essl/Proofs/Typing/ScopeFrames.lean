import Essl.Proofs.Slab
import Essl.Proofs.Typing.Declared
import Essl.Typing.ScopeArena

/-!
# Slots hold a stack

The slots of an arena in use are those of the open scopes, the scope at some depth in the slot with
that number. So an arena answers like the stack of its scopes.
-/

namespace Essl

/-! ## Scopes and their slots -/

namespace Scope

@[simp] theorem variables?_empty (kind : ScopeKind) :
    (empty kind).variables? = if kind = .struct then none else some [] := by
  cases kind <;> rfl

theorem variables?_addSymbol (scope : Scope) (name : String) (symbol : Symbol) :
    (scope.addSymbol name symbol).variables? =
      match symbol with
      | .variable v => scope.variables?.map (· ++ [v])
      | _ => scope.variables? := by
  obtain ⟨kind, symbols, functions⟩ := scope
  cases kind <;> cases symbol <;> simp [addSymbol, variables?]

end Scope

/-- Replies are the same, except that any of several functions of a name can stand for them all. -/
inductive ScopeRequest.Agrees (scope : Scope) : ScopeRequest → ScopeReply → ScopeReply → Prop where
  | same {request : ScopeRequest} {reply : ScopeReply} : Agrees scope request reply reply
  | declared {name : String} {found existing : Symbol} : found ≠ existing →
      scope.Declares name found → scope.Declares name existing →
        Agrees scope (.declared name) (.symbol (some found)) (.symbol (some existing))
  | declare {name : String} {symbol found existing : Symbol} : found ≠ existing →
      scope.Declares name found → scope.Declares name existing →
        Agrees scope (.declare name symbol) (.existing found) (.existing existing)

/-- A request that neither opens nor closes a scope. -/
def ScopeRequest.Stays : ScopeRequest → Prop
  | .push _ => False
  | .pop => False
  | _ => True

/-- Requests that close the scopes they open and no others. -/
inductive ScopeRequest.Nested : List ScopeRequest → Prop where
  | nil : Nested []
  | stays {request : ScopeRequest} {rest : List ScopeRequest} :
      request.Stays → Nested rest → Nested (request :: rest)
  | scope {kind : ScopeKind} {inner rest : List ScopeRequest} :
      Nested inner → Nested rest → Nested (.push kind :: (inner ++ .pop :: rest))

namespace ScopeSlot

/-- The slot of the innermost scope. -/
def key? : List Scope → Option Nat
  | [] => none
  | _ :: outer => some outer.length

/-- The innermost of some scopes in its slot. -/
def ofScopes (scope : Scope) (outer : List Scope) : ScopeSlot :=
  ⟨scope, key? outer, scope.variables?⟩

variable (scope : Scope) (outer : List Scope)

theorem scope_ofScopes : (ofScopes scope outer).scope = scope := rfl

theorem empty_eq_ofScopes (kind : ScopeKind) :
    empty kind (key? outer) = ofScopes (.empty kind) outer := by
  rw [ofScopes, Scope.variables?_empty]
  rfl

theorem addSymbol_ofScopes (name : String) (symbol : Symbol) :
    (ofScopes scope outer).addSymbol name symbol =
      ofScopes (scope.addSymbol name symbol) outer := by
  rw [ofScopes, ofScopes, Scope.variables?_addSymbol]
  rfl

theorem addFunction_ofScopes (f : Function) :
    (ofScopes scope outer).addFunction f = ofScopes (scope.addFunction f) outer := rfl

end ScopeSlot

namespace ScopeArena

variable {τ : Type} (S : Slab τ ScopeSlot)

/-- Scopes, from the inside out, are in slots by how deep they are. -/
def Holds (slots : τ) : List Scope → Prop
  | [] => True
  | scope :: outer => S.get? slots outer.length = some (.ofScopes scope outer) ∧ Holds slots outer

/-- The slots from some number on are vacant, and are used in their order. -/
structure VacantFrom (slots : τ) (first : Nat) : Prop where
  get?_eq_none : ∀ key, first ≤ key → S.get? slots key = none
  used_next : ∃ count, S.vacant slots = List.range' first count ∧ S.size slots = first + count

/-- The slots hold a stack of scopes and nothing else. -/
structure Mirrors (arena : ScopeArena τ) (scopes : Scopes) : Prop where
  current : arena.current = scopes.depth
  holds : Holds S arena.slots scopes.all
  vacant : VacantFrom S arena.slots (scopes.depth + 1)

variable {S} {slots slots' : τ} {scopes : List Scope}

/-- Slots of deeper scopes do not matter. -/
theorem Holds.congr (h : Holds S slots scopes)
    (hsame : ∀ key, key < scopes.length → S.get? slots' key = S.get? slots key) :
    Holds S slots' scopes := by
  induction scopes with
  | nil => trivial
  | cons scope outer ih =>
      obtain ⟨hslot, houter⟩ := h
      refine ⟨(hsame _ (Nat.lt_succ_self _)).trans hslot, ih houter fun key hkey => ?_⟩
      exact hsame key (Nat.lt_succ_of_lt hkey)

theorem Holds.isSome (h : Holds S slots scopes) {key : Nat} (hkey : key < scopes.length) :
    (S.get? slots key).isSome := by
  induction scopes with
  | nil => cases hkey
  | cons scope outer ih =>
      rcases Nat.lt_succ_iff_lt_or_eq.1 hkey with hlt | rfl
      · exact ih h.2 hlt
      · rw [h.1]
        rfl

/-- Going from slot to slot, one meets all scopes. -/
theorem Holds.scopesFrom? {scope : Scope} {outer : List Scope}
    (h : Holds S slots (scope :: outer)) {count : Nat} (hcount : outer.length < count) :
    scopesFrom? S slots count outer.length = some (scope :: outer) := by
  induction outer generalizing scope count with
  | nil =>
      obtain ⟨count, rfl⟩ := Nat.exists_eq_add_one_of_ne_zero (Nat.ne_of_gt hcount)
      rw [ScopeArena.scopesFrom?, h.1]
      rfl
  | cons next outer ih =>
      obtain ⟨count, rfl⟩ := Nat.exists_eq_add_one_of_ne_zero (Nat.ne_zero_of_lt hcount)
      have hrest := ih h.2 (Nat.lt_of_succ_lt_succ hcount)
      rw [ScopeArena.scopesFrom?, h.1]
      exact congrArg (Option.map (scope :: ·)) hrest

/-! ## Slots that are used again -/

section VacantFrom

variable {first : Nat} {slot : ScopeSlot}

theorem vacantFrom_empty (hS : S.Lawful) : VacantFrom S S.empty 0 :=
  ⟨fun key _ => hS.get?_empty key, 0, hS.vacant_empty, hS.size_empty⟩

theorem VacantFrom.key_insert (hS : S.Lawful) (h : VacantFrom S slots first) :
    (S.insert slots slot).1 = first := by
  obtain ⟨count, hvacant, hsize⟩ := h.used_next
  rw [hS.key_insert, hvacant]
  cases count with
  | zero => exact hsize
  | succ count => rfl

theorem VacantFrom.insert (hS : S.Lawful) (h : VacantFrom S slots first) :
    VacantFrom S (S.insert slots slot).2 (first + 1) := by
  refine ⟨fun key hkey => ?_, ?_⟩
  · rw [hS.get?_insert, h.key_insert hS, if_neg (by omega)]
    exact h.get?_eq_none key (by omega)
  · obtain ⟨count, hvacant, hsize⟩ := h.used_next
    refine ⟨count - 1, ?_, ?_⟩
    · rw [hS.vacant_insert, hvacant]
      cases count <;> rfl
    · rw [hS.size_insert, hvacant, hsize]
      cases count with
      | zero => rfl
      | succ count =>
          rw [List.range'_succ, if_neg (List.cons_ne_nil _ _)]
          omega

theorem VacantFrom.remove (hS : S.Lawful) (h : VacantFrom S slots (first + 1))
    (hfirst : (S.get? slots first).isSome) : VacantFrom S (S.remove slots first) first := by
  refine ⟨fun key hkey => ?_, ?_⟩
  · rw [hS.get?_remove slots first hfirst]
    split
    · rfl
    · exact h.get?_eq_none key (by omega)
  · obtain ⟨count, hvacant, hsize⟩ := h.used_next
    refine ⟨count + 1, ?_, ?_⟩
    · rw [hS.vacant_remove slots first hfirst, hvacant]
      rfl
    · rw [hS.size_remove slots first hfirst, hsize]
      omega

theorem VacantFrom.replace (hS : S.Lawful) (h : VacantFrom S slots first) {key : Nat}
    (hkey : (S.get? slots key).isSome) : VacantFrom S (S.replace slots key slot) first := by
  refine ⟨fun other hother => ?_, ?_⟩
  · have hnone := h.get?_eq_none other hother
    rw [hS.get?_replace slots key slot hkey, if_neg, hnone]
    rintro rfl
    rw [hnone] at hkey
    cases hkey
  · rw [hS.vacant_replace slots key slot hkey, hS.size_replace slots key slot hkey]
    exact h.used_next

end VacantFrom

/-! ## One request -/

section Mirrors

variable {arena : ScopeArena τ} {stack : Scopes} {order : List Function → List Function}

theorem mirrors_new (hS : S.Lawful) : (new S).Mirrors S .empty := by
  have hvacant := vacantFrom_empty hS
  have hkey : (S.insert S.empty (.empty .global none)).1 = 0 := hvacant.key_insert hS
  refine ⟨hkey, ⟨?_, trivial⟩, hvacant.insert hS⟩
  change S.get? (S.insert S.empty (.empty .global none)).2 0 = _
  rw [hS.get?_insert, hkey, if_pos rfl]
  exact congrArg some (ScopeSlot.empty_eq_ofScopes [] .global)

theorem Mirrors.here? (h : arena.Mirrors S stack) :
    arena.here? S = some (.ofScopes stack.current stack.outer) := by
  rw [ScopeArena.here?, h.current]
  exact h.holds.1

theorem Mirrors.isSome_here (h : arena.Mirrors S stack) :
    (S.get? arena.slots arena.current).isSome := by
  rw [← ScopeArena.here?, h.here?]
  rfl

theorem Mirrors.all? (h : arena.Mirrors S stack) : arena.all? S = some stack.all := by
  obtain ⟨count, -, hsize⟩ := h.vacant.used_next
  rw [ScopeArena.all?, h.current]
  exact h.holds.scopesFrom? (by rw [hsize, Scopes.depth]; omega)

theorem Mirrors.push (hS : S.Lawful) (h : arena.Mirrors S stack) (kind : ScopeKind) :
    (arena.push S kind).Mirrors S (stack.push kind) := by
  have hkey : (S.insert arena.slots (.empty kind (some arena.current))).1 = stack.depth + 1 :=
    h.vacant.key_insert hS
  refine ⟨hkey, ⟨?_, ?_⟩, h.vacant.insert hS⟩
  · change S.get? (S.insert arena.slots (.empty kind (some arena.current))).2 (stack.depth + 1) = _
    rw [hS.get?_insert, hkey, if_pos rfl, h.current]
    exact congrArg some (ScopeSlot.empty_eq_ofScopes stack.all kind)
  · refine h.holds.congr fun key hlt => ?_
    change S.get? (S.insert arena.slots (.empty kind (some arena.current))).2 key = _
    rw [hS.get?_insert, hkey]
    exact if_neg (Nat.ne_of_lt hlt)

/-- At the outermost scope both fail. -/
theorem Mirrors.pop?_eq_none (h : arena.Mirrors S stack) (hpop : stack.pop? = none) :
    arena.pop? S = none := by
  obtain ⟨current, outer⟩ := stack
  cases outer with
  | nil =>
      rw [ScopeArena.pop?, h.here?]
      rfl
  | cons scope outer => cases hpop

theorem Mirrors.pop? (hS : S.Lawful) (h : arena.Mirrors S stack) {rest : Scopes}
    (hpop : stack.pop? = some rest) :
    ∃ outer, arena.pop? S = some outer ∧ outer.Mirrors S rest := by
  obtain ⟨current, outer⟩ := stack
  cases outer with
  | nil => cases hpop
  | cons scope outer =>
      cases hpop
      refine ⟨⟨S.remove arena.slots arena.current, outer.length⟩, ?_, rfl, ?_, ?_⟩
      · rw [ScopeArena.pop?, h.here?]
        rfl
      · refine h.holds.2.congr fun key hlt => ?_
        rw [hS.get?_remove _ _ h.isSome_here, h.current]
        exact if_neg (Nat.ne_of_lt hlt)
      · have hremoved := h.vacant.remove hS (h.current ▸ h.isSome_here)
        rw [← h.current] at hremoved
        exact h.current ▸ hremoved

/-- Only the current scope is changed. -/
theorem Mirrors.replace (hS : S.Lawful) (h : arena.Mirrors S stack) (scope : Scope) :
    ScopeArena.Mirrors S
      { arena with slots := S.replace arena.slots arena.current (.ofScopes scope stack.outer) }
      { stack with current := scope } := by
  refine ⟨h.current, ⟨?_, ?_⟩, h.vacant.replace hS h.isSome_here⟩
  · rw [hS.get?_replace _ _ _ h.isSome_here, h.current]
    exact if_pos rfl
  · refine h.holds.2.congr fun key hlt => ?_
    rw [hS.get?_replace _ _ _ h.isSome_here, h.current]
    exact if_neg (Nat.ne_of_lt hlt)

theorem Mirrors.serve (hS : S.Lawful) (horder : ∀ fs, (order fs).Perm fs)
    (h : arena.Mirrors S stack) (request : ScopeRequest) :
    request.Agrees stack.current (arena.serve S order request).1 (stack.serve request).1 ∧
      (arena.serve S order request).2.Mirrors S (stack.serve request).2 := by
  have hid (fs : List Function) : (id fs).Perm fs := .refl fs
  cases request with
  | position =>
      rw [ScopeArena.serve, serve?, h.here?, h.current]
      exact ⟨.same, h⟩
  | push kind =>
      have hpushed := h.push hS kind
      rw [ScopeArena.serve, serve?]
      refine ⟨?_, hpushed⟩
      rw [Option.getD_some, hpushed.current]
      exact .same
  | pop =>
      rw [ScopeArena.serve, serve?, Scopes.serve]
      cases hpop : stack.pop? with
      | none =>
          rw [h.pop?_eq_none hpop]
          exact ⟨.same, h⟩
      | some rest =>
          obtain ⟨outer, houter, hrest⟩ := h.pop? hS hpop
          rw [houter]
          exact ⟨.same, hrest⟩
  | declare name symbol =>
      rw [ScopeArena.serve, serve?, declare?, h.here?, Scopes.serve, Scopes.declare]
      simp only [Option.bind_eq_bind, Option.bind_some, ScopeSlot.scope_ofScopes]
      rcases Scope.declared?_cases horder hid stack.current name with
        hsame | ⟨found, existing, hne, hfound, hexisting, hdeclares, hdeclares'⟩
      · rw [hsame]
        cases stack.current.declared? id name with
        | some existing => exact ⟨.same, h⟩
        | none =>
            have hreplaced := h.replace hS (stack.current.addSymbol name symbol)
            rw [← ScopeSlot.addSymbol_ofScopes] at hreplaced
            exact ⟨.same, hreplaced⟩
      · rw [hfound, hexisting]
        exact ⟨.declare hne hdeclares hdeclares', h⟩
  | declareFunction f =>
      have hreplaced := h.replace hS (stack.current.addFunction f)
      rw [← ScopeSlot.addFunction_ofScopes] at hreplaced
      rw [ScopeArena.serve, serve?, declareFunction?, h.here?]
      exact ⟨.same, hreplaced⟩
  | declared name =>
      rw [ScopeArena.serve, serve?, h.here?, Scopes.serve, Option.map_some, Option.getD_some,
        ScopeSlot.scope_ofScopes]
      refine ⟨?_, h⟩
      rcases Scope.declared?_cases horder hid stack.current name with
        hsame | ⟨found, existing, hne, hfound, hexisting, hdeclares, hdeclares'⟩
      · rw [hsame]
        exact .same
      · rw [hfound, hexisting]
        exact .declared hne hdeclares hdeclares'
  | function signature =>
      rw [ScopeArena.serve, serve?, h.here?]
      exact ⟨.same, h⟩
  | lookup name =>
      rw [ScopeArena.serve, serve?, ScopeArena.lookup?, h.all?]
      exact ⟨.same, h⟩
  | lookupFunction signature =>
      rw [ScopeArena.serve, serve?, ScopeArena.lookupFunction?, h.all?]
      exact ⟨.same, h⟩
  | variableList =>
      rw [ScopeArena.serve, serve?, h.here?]
      exact ⟨.same, h⟩

/-! ## All requests -/

theorem Mirrors.after (hS : S.Lawful) (horder : ∀ fs, (order fs).Perm fs)
    (h : arena.Mirrors S stack) (requests : List ScopeRequest) :
    (arena.after S order requests).Mirrors S (stack.after requests) := by
  induction requests generalizing arena stack with
  | nil => exact h
  | cons request requests ih => exact ih (h.serve hS horder request).2

/-- A slot is in use if a scope is that deep. -/
theorem Mirrors.isSome_iff (h : arena.Mirrors S stack) (key : Nat) :
    (S.get? arena.slots key).isSome ↔ key ≤ stack.depth := by
  constructor
  · intro hkey
    refine Classical.byContradiction fun hgt => ?_
    rw [h.vacant.get?_eq_none key (Nat.lt_of_not_le hgt)] at hkey
    cases hkey
  · exact fun hle => h.holds.isSome (Nat.lt_succ_of_le hle)

theorem Mirrors.declare_existing (horder : ∀ fs, (order fs).Perm fs) (h : arena.Mirrors S stack)
    {name : String} {declared : Symbol} (hdeclared : stack.current.Declares name declared)
    (symbol : Symbol) : ∃ existing, stack.current.Declares name existing ∧
      arena.serve S order (.declare name symbol) = (.existing existing, arena) := by
  obtain ⟨existing, hexisting⟩ := Scope.exists_declared?_of_declares horder hdeclared
  refine ⟨existing, Scope.declares_of_declared? horder hexisting, ?_⟩
  rw [ScopeArena.serve, serve?, declare?, h.here?, Option.bind_eq_bind, Option.bind_some,
    ScopeSlot.scope_ofScopes, hexisting]
  rfl

end Mirrors

end ScopeArena

/-! ## Scopes inside of scopes -/

namespace Scopes

variable {inner : List ScopeRequest}

theorem after_append (stack : Scopes) (before rest : List ScopeRequest) :
    stack.after (before ++ rest) = (stack.after before).after rest :=
  List.foldl_append

/-- Requests that neither open nor close a scope are about the current one. -/
theorem outer_serve (stack : Scopes) {request : ScopeRequest} (h : request.Stays) :
    (stack.serve request).2.outer = stack.outer := by
  cases request with
  | push kind => cases h
  | pop => cases h
  | declare name symbol =>
      rw [serve, declare]
      cases stack.current.declared? id name <;> rfl
  | _ => rfl

/-- Closing a scope brings back what was there when it was opened. -/
theorem after_scope (stack : Scopes) (kind : ScopeKind)
    (hinner : ∀ stack : Scopes, (stack.after inner).outer = stack.outer) :
    stack.after (.push kind :: (inner ++ [.pop])) = stack := by
  have hclosed : ((stack.push kind).after inner).pop? = some stack := by
    rw [pop?, hinner]
    rfl
  calc
    _ = (((stack.push kind).after inner).serve .pop).2 := after_append _ inner [.pop]
    _ = stack := by rw [serve, hclosed]

theorem outer_after (h : ScopeRequest.Nested inner) (stack : Scopes) :
    (stack.after inner).outer = stack.outer := by
  induction h generalizing stack with
  | nil => rfl
  | @stays request rest hstays _ ih => exact (ih _).trans (outer_serve stack hstays)
  | @scope kind inner rest _ _ ihInner ihRest =>
      have hsplit : .push kind :: (inner ++ .pop :: rest) =
          (.push kind :: (inner ++ [.pop])) ++ rest := by simp
      rw [hsplit, after_append, after_scope stack kind ihInner, ihRest]

end Scopes

namespace ScopeArena

variable {τ : Type} {S : Slab τ ScopeSlot} {order : List Function → List Function}

/-- Whatever an arena has been asked, its scopes are a stack. It answers like the stack, except
that the order of functions decides which of several it finds by name. Exactly the slots up to the
current one are in use. A name that is declared already is found and nothing is changed, and once
a scope is closed all is as it was before that scope. -/
theorem serves_like_stack (hS : S.Lawful) (horder : ∀ fs, (order fs).Perm fs)
    (requests : List ScopeRequest) :
    let arena := (new S).after S order requests
    let stack := Scopes.empty.after requests
    (∀ request : ScopeRequest, request.Agrees stack.current (arena.serve S order request).1
      (stack.serve request).1) ∧
    arena.current = stack.depth ∧ arena.all? S = some stack.all ∧
    (∀ key, (S.get? arena.slots key).isSome ↔ key ≤ stack.depth) ∧
    (∀ name declared symbol, stack.current.Declares name declared →
      ∃ existing, stack.current.Declares name existing ∧
        arena.serve S order (.declare name symbol) = (.existing existing, arena)) ∧
    ∀ kind inner, ScopeRequest.Nested inner →
      (arena.after S order (.push kind :: (inner ++ [.pop]))).all? S = arena.all? S := by
  intro arena stack
  have hmirrors : arena.Mirrors S stack := (mirrors_new hS).after hS horder requests
  refine ⟨fun request => (hmirrors.serve hS horder request).1, hmirrors.current, hmirrors.all?,
    hmirrors.isSome_iff, fun name declared symbol hdeclared =>
      hmirrors.declare_existing horder hdeclared symbol, fun kind inner hinner => ?_⟩
  have hclosed := hmirrors.after hS horder (.push kind :: (inner ++ [.pop]))
  rw [Scopes.after_scope stack kind (Scopes.outer_after hinner)] at hclosed
  rw [hclosed.all?, hmirrors.all?]

/-- The slot of a function is used again for a block, in which a name that the function had for a
struct is the variable again. -/
theorem serves_like_stack_shadowing :
    let S := Slots.slab ScopeSlot
    let x := Symbol.variable ⟨"x", some .float, .empty, none, false, none⟩
    let y := Symbol.struct ⟨0, some "x", [], .whole ""⟩
    let requests := [.declare "x" x, .push .function, .declare "x" y, .pop, .push .block]
    let arena := (new S).after S List.reverse requests
    S.Lawful ∧ (∀ fs : List Function, fs.reverse.Perm fs) ∧ arena.current = 1 ∧
      (arena.serve S List.reverse (.lookup "x")).1 = .symbol (some x) := by
  intro S x y requests arena
  have hS : S.Lawful := Slots.slab_lawful ScopeSlot
  have horder (fs : List Function) : fs.reverse.Perm fs := List.reverse_perm fs
  obtain ⟨hreplies, hcurrent, -⟩ := serves_like_stack hS horder requests
  have hlookup := hreplies (.lookup "x")
  refine ⟨hS, horder, hcurrent, ?_⟩
  generalize (arena.serve S List.reverse (.lookup "x")).1 = reply at hlookup ⊢
  cases hlookup
  rfl

end ScopeArena

end Essl
