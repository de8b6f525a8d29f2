import Essl.Proofs.Type.Text
import Essl.Proofs.Typing.Environment

/-!
# Typing follows a trace

The scopes of a context are an environment. Typing follows a list of events if it changes the
environment as they do, notes the problems that they call for, and finds out what is right at each
of them. The rules for this are those for sequences of actions: the events of one come after the
events of the other.
-/

namespace Essl

/-! ## Scopes as environments -/

namespace Scope

variable {scope : Scope} {name : String}

/-- What names are declared as in the scope. -/
def frame (scope : Scope) : Frame := fun name =>
  match scope.symbol? name with
  | some symbol => some (.object symbol)
  | none => if scope.functions.any (·.2.name == name) then some .function else none

/-- Variables and structs do not share names with functions, which are found under their own
signatures. -/
structure Tidy (scope : Scope) : Prop where
  symbols : ∀ name f, scope.symbol? name ≠ some (.function f)
  functions : ∀ entry ∈ scope.functions,
    entry.1 = entry.2.signature ∧ '(' ∉ entry.2.name.toList ∧ scope.symbol? entry.2.name = none

theorem tidy_empty (kind : ScopeKind) : (empty kind).Tidy :=
  ⟨nofun, fun _ h => absurd h List.not_mem_nil⟩

theorem frame_bind_object? : (scope.frame name).bind Entry.object? = scope.symbol? name := by
  unfold frame
  split
  · rename_i symbol h
    exact h.symm
  · rename_i h
    split <;> exact h.symm

theorem frame_eq_none_iff (order : FunctionOrder) :
    scope.frame name = none ↔ scope.declared? order.arrange name = none := by
  cases h : scope.symbol? name with
  | some symbol => simp [frame, declared?, h]
  | none => simpa [frame, declared?, h, (order.perm _).mem_iff] using forall_comm

/-- A name that no variable or struct has can only be that of a function. -/
theorem function_of_declared? (h : scope.symbol? name = none)
    {order : List Function → List Function} {symbol : Symbol}
    (hdeclared : scope.declared? order name = some symbol) : ∃ f, symbol = .function f := by
  rw [declared?, h] at hdeclared
  obtain ⟨entry, -, rfl⟩ := Option.map_eq_some_iff.1 hdeclared
  exact ⟨_, rfl⟩

theorem frame_eq_object_iff {symbol : Symbol} :
    scope.frame name = some (.object symbol) ↔ scope.symbol? name = some symbol := by
  cases h : scope.symbol? name with
  | some symbol => simp [frame, h]
  | none => simp [frame, h]

/-- A name that nothing declares gets what is declared as it. -/
theorem frame_symbol (h : scope.frame name = none) (symbol : Symbol) :
    (scope.addSymbol name symbol).frame =
      Function.update scope.frame name (some (.object symbol)) := by
  funext other
  rw [frame, symbol?_addSymbol]
  by_cases hother : other = name
  · subst hother
    simp
  · rw [if_neg hother, Function.update_of_ne hother]
    rfl

theorem frame_ne_none_of_mem {entry : String × Function} (h : entry ∈ scope.functions) :
    scope.frame entry.2.name ≠ none := by
  have hany : scope.functions.any (·.2.name == entry.2.name) :=
    List.any_eq_true.2 ⟨entry, h, beq_self_eq_true _⟩
  unfold frame
  split <;> simp [hany]

namespace Tidy

theorem declare (h : scope.Tidy) {symbol : Symbol} (hfree : scope.frame name = none)
    (hsymbol : ∀ f, symbol ≠ .function f) :
    (scope.addSymbol name symbol).Tidy := by
  refine ⟨?_, ?_⟩
  · intro other f
    rw [symbol?_addSymbol]
    split
    · simpa using hsymbol f
    · exact h.symbols other f
  · intro entry hentry
    obtain ⟨hkey, hname, hnone⟩ := h.functions entry hentry
    refine ⟨hkey, hname, ?_⟩
    rw [symbol?_addSymbol, hnone, if_neg]
    rintro rfl
    exact frame_ne_none_of_mem (show entry ∈ scope.functions from hentry) hfree

theorem addFunction (h : scope.Tidy) {f : Function} (hname : '(' ∉ f.name.toList)
    (hfree : scope.symbol? f.name = none) : (scope.addFunction f).Tidy :=
  ⟨h.symbols, forall_addFunction ⟨rfl, hname, hfree⟩ h.functions⟩

/-- Functions with the same signature have the same name, so that no name is lost. -/
theorem frame_addFunction (h : scope.Tidy) {f : Function} (hname : '(' ∉ f.name.toList)
    (hfree : scope.symbol? f.name = none) :
    (scope.addFunction f).frame = Function.update scope.frame f.name (some .function) := by
  funext other
  by_cases hother : other = f.name
  · subst hother
    rw [Function.update_self, frame, symbol?_addFunction, hfree]
    simp [Scope.addFunction]
  · have hkept : ∀ entry ∈ scope.functions, entry.2.name = other → entry.1 ≠ f.signature := by
      rintro entry hentry rfl hkey
      obtain ⟨hsignature, hentryName, -⟩ := h.functions entry hentry
      exact hother (name_of_signature hname hentryName (hkey.symm.trans hsignature)).symm
    have hany : (scope.addFunction f).functions.any (·.2.name == other) =
        scope.functions.any (·.2.name == other) := by
      rw [Scope.addFunction, List.any_cons, beq_false_of_ne (Ne.symm hother), Bool.false_or,
        List.any_filter, Bool.eq_iff_iff]
      simp only [List.any_eq_true, Bool.and_eq_true, bne_iff_ne, beq_iff_eq]
      constructor
      · rintro ⟨entry, hmem, -, heq⟩
        exact ⟨entry, hmem, heq⟩
      · rintro ⟨entry, hmem, heq⟩
        exact ⟨entry, hmem, hkept entry hmem heq, heq⟩
    rw [Function.update_of_ne hother, frame, symbol?_addFunction, hany]
    rfl

/-- A scope with a function of some signature declares the name as a function. -/
theorem known (h : scope.Tidy) {f old : Function} (hname : '(' ∉ f.name.toList)
    (hold : scope.function? f.signature = some old) :
    scope.symbol? f.name = none ∧ scope.frame f.name = some .function := by
  obtain ⟨before, after, hsplit, -⟩ := List.lookup_eq_some_iff.1 hold
  have hmem : (f.signature, old) ∈ scope.functions := by simp [hsplit]
  obtain ⟨hsignature, holdName, hnone⟩ := h.functions _ hmem
  have heq : f.name = old.name := name_of_signature hname holdName hsignature
  have hany : scope.functions.any (·.2.name == old.name) :=
    List.any_eq_true.2 ⟨_, hmem, beq_self_eq_true _⟩
  rw [heq]
  exact ⟨hnone, by simp [frame, hnone, hany]⟩

end Tidy

end Scope

/-! ## Contexts -/

/-- The environment that the open scopes make up. -/
def Context.env (c : Context) : Env :=
  ⟨c.scopes.current.frame, c.scopes.outer.map Scope.frame⟩

/-- All open scopes are tidy. -/
def Context.Tidy (c : Context) : Prop := ∀ scope ∈ c.scopes.all, scope.Tidy

namespace Context

variable {c : Context}

theorem lookup_env (name : String) : c.env.lookup name = c.scopes.lookup name := by
  have hall : c.env.current :: c.env.outer = c.scopes.all.map Scope.frame := rfl
  rw [Env.lookup, hall, List.findSome?_map]
  exact congrArg (List.findSome? · c.scopes.all)
    (funext fun _ => Scope.frame_bind_object?)

theorem variableNamed?_value (name : Token) :
    (c.variableNamed? name).value = c.env.variableNamed? c.stage name.text := by
  unfold variableNamed? Env.variableNamed?
  rw [lookup_env]
  cases c.scopes.lookup name.text with
  | some symbol => cases symbol <;> rfl
  | none => cases Builtin.variableNamed? name.text c.stage <;> rfl

theorem remarksIn_variableNamed? (name : Token) :
    remarksIn (c.variableNamed? name).problems = c.env.variableRemarks c.stage name := by
  unfold variableNamed? Env.variableRemarks
  rw [lookup_env]
  cases c.scopes.lookup name.text with
  | some symbol => cases symbol <;> rfl
  | none => cases Builtin.variableNamed? name.text c.stage <;> rfl

theorem remarksIn_typeNamed? (name : Token) :
    remarksIn (c.typeNamed? name).problems = c.env.typeRemarks name := by
  unfold typeNamed? Env.typeRemarks
  rw [lookup_env]
  cases c.scopes.lookup name.text with
  | some symbol => cases symbol <;> rfl
  | none => cases Primitive.ofName? name.text <;> rfl

end Context

/-! ## Remarks among problems -/

section

variable {α β : Type} {cause : SemanticCause} {location : Location}

@[simp] theorem remarksIn_nil : remarksIn [] = [] := rfl

@[simp] theorem remarksIn_append (ps qs : List SemanticError) :
    remarksIn (ps ++ qs) = remarksIn ps ++ remarksIn qs :=
  List.filterMap_append

/-- No remark is among the problems. -/
def Noted.Quiet (x : Noted α) : Prop := remarksIn x.problems = []

namespace Noted.Quiet

variable {x : Noted α} {f : α → Noted β}

theorem pure {a : α} : Quiet (pure a) := rfl

theorem report (h : cause.remark? = none) : Quiet (report cause location) := by
  simp [Quiet, remarksIn, Essl.report, h]

theorem bind (hx : x.Quiet) (hf : ∀ a, (f a).Quiet) : (x >>= f).Quiet := by
  rw [Quiet, problems_bind, remarksIn_append, hx, hf, List.append_nil]

theorem reported {a : α} (h : cause.remark? = none) :
    Quiet (do Essl.report cause location; Pure.pure a) :=
  (report h).bind fun _ => pure

end Noted.Quiet

end

/-! ## Following events -/

/-- Between two contexts typing does what the events say, in the current scope and in scopes that
it opens and closes, and notes the problems. -/
structure Follows (c : Context) (events : List ScopeEvent) (c' : Context)
    (problems : List SemanticError) : Prop where
  env : c'.env = c.env.run events
  remarks : remarksIn problems = c.env.remarks c.stage events
  right : c.env.AllRight c.stage events
  tidy : c.Tidy → c'.Tidy
  stage : c'.stage = c.stage
  outer : c'.scopes.outer = c.scopes.outer
  kind : c'.scopes.current.kind = c.scopes.current.kind

namespace Follows

variable {c c' c'' : Context} {events more : List ScopeEvent} {problems others : List SemanticError}

/-- Nothing is done as long as the scopes stay the same. -/
theorem idle (hproblems : remarksIn problems = []) (hscopes : c'.scopes = c.scopes)
    (hstage : c'.stage = c.stage) : Follows c [] c' problems where
  env := by rw [Context.env, hscopes]; rfl
  remarks := hproblems
  right := trivial
  tidy := by
    intro h
    rwa [Context.Tidy, hscopes]
  stage := hstage
  outer := by rw [hscopes]
  kind := by rw [hscopes]

theorem trans (h : Follows c events c' problems) (h' : Follows c' more c'' others) :
    Follows c (events ++ more) c'' (problems ++ others) where
  env := by rw [h'.env, h.env, Env.run_append]
  remarks := by
    rw [remarksIn_append, h.remarks, h'.remarks, Env.remarks_append, ← h.env, h.stage]
  right := by
    rw [Env.allRight_append, ← h.env, ← h.stage]
    exact ⟨h.stage ▸ h.right, h'.right⟩
  tidy := h'.tidy ∘ h.tidy
  stage := h'.stage.trans h.stage
  outer := h'.outer.trans h.outer
  kind := h'.kind.trans h.kind

/-- An event that leaves the environment as it is. -/
theorem observed {event : ScopeEvent} (hafter : event.after c.env = c.env)
    (hremarks : remarksIn problems = event.remarks c.stage c.env)
    (hright : event.Right c.stage c.env) : Follows c [event] c problems where
  env := hafter.symm
  remarks := by rw [hremarks, Env.remarks, Env.remarks, List.append_nil]
  right := ⟨hright, trivial⟩
  tidy := id
  stage := rfl
  outer := rfl
  kind := rfl

/-- An event that changes the current scope. -/
theorem changed {event : ScopeEvent} {scope : Scope}
    (hafter : event.after c.env = { c.env with current := scope.frame })
    (hremarks : remarksIn problems = event.remarks c.stage c.env)
    (hright : event.Right c.stage c.env) (htidy : c.Tidy → scope.Tidy)
    (hkind : scope.kind = c.scopes.current.kind) :
    Follows c [event] { c with scopes := { c.scopes with current := scope } } problems where
  env := hafter.symm
  remarks := by rw [hremarks, Env.remarks, Env.remarks, List.append_nil]
  right := ⟨hright, trivial⟩
  tidy := by
    intro h
    exact List.forall_mem_cons.2 ⟨htidy h, fun s hs => h s (List.mem_cons_of_mem _ hs)⟩
  stage := rfl
  outer := rfl
  kind := hkind

/-- What is done in a new scope is done between its opening and its closing. -/
theorem inScope {kind : ScopeKind}
    (h : Follows { c with scopes := c.scopes.push kind } events c' problems) :
    Follows c (.enter :: (events ++ [.leave]))
      { c' with scopes := c'.scopes.pop?.getD c'.scopes } problems := by
  have hpop : c'.scopes.pop?.getD c'.scopes = c.scopes := by
    have houter : c'.scopes.outer = c.scopes.current :: c.scopes.outer := h.outer
    rw [Scopes.pop?, houter]
    rfl
  have henv : c'.env = c.env.enter.run events := h.env
  have hleave : c'.env.leave = c.env := by
    rw [Env.leave, Context.env, h.outer]
    rfl
  rw [hpop]
  refine ⟨?_, ?_, ?_, fun hc => hc, h.stage, rfl, rfl⟩
  · rw [Env.run_cons, Env.run_append, ScopeEvent.after, ← henv]
    exact hleave.symm
  · rw [Env.remarks, Env.remarks_append]
    exact h.remarks.trans (List.append_nil _).symm
  · refine ⟨trivial, Env.allRight_append.2 ⟨h.right, trivial, trivial⟩⟩

end Follows

/-! ## Values with problems -/

section

variable {α β : Type} {c : Context}

/-- What is noted in the context follows events that belong to the value. -/
def Noted.Notes (c : Context) (x : Noted α) (Q : α → List ScopeEvent → Prop) : Prop :=
  ∃ events, Q x.value events ∧ Follows c events c x.problems

namespace Noted.Notes

variable {x : Noted α} {f : α → Noted β} {P : α → List ScopeEvent → Prop}
  {Q : β → List ScopeEvent → Prop}

theorem quiet (hx : x.Quiet) : x.Notes c fun a events => a = x.value ∧ events = [] :=
  ⟨[], ⟨rfl, rfl⟩, .idle hx rfl rfl⟩

theorem pure {a : α} (h : P a []) : Notes c (pure a) P := ⟨[], h, .idle rfl rfl rfl⟩

theorem bind (hx : x.Notes c P)
    (hf : ∀ a events, P a events → (f a).Notes c fun b more => Q b (events ++ more)) :
    (x >>= f).Notes c Q := by
  obtain ⟨events, hP, hfirst⟩ := hx
  obtain ⟨more, hQ, hsecond⟩ := hf _ events hP
  exact ⟨events ++ more, hQ, hfirst.trans hsecond⟩

/-- Nothing is done before the second value. -/
theorem skip (hx : x.Quiet) (hf : ∀ a, (f a).Notes c Q) : (x >>= f).Notes c Q :=
  (quiet hx).bind fun a _ h => by
    rw [h.2]
    exact hf a

theorem mono {R : α → List ScopeEvent → Prop} (hx : x.Notes c P)
    (h : ∀ a events, P a events → R a events) : x.Notes c R := by
  obtain ⟨events, hP, hfollows⟩ := hx
  exact ⟨events, h _ events hP, hfollows⟩

/-- A single event, with the value. -/
theorem event {event : ScopeEvent} (h : P x.value [event]) (hafter : event.after c.env = c.env)
    (hremarks : remarksIn x.problems = event.remarks c.stage c.env)
    (hright : event.Right c.stage c.env) : x.Notes c P :=
  ⟨[event], h, .observed hafter hremarks hright⟩

end Noted.Notes

/-! ## Actions -/

/-- Taken in the context, the action follows events that belong to what it gives. -/
def Performs (c : Context) (x : Check α) (Q : α → List ScopeEvent → Prop) : Prop :=
  c.Tidy → ∃ events, Q (x c).value.1 events ∧ Follows c events (x c).value.2 (x c).problems

namespace Performs

variable {x : Check α} {f : α → Check β} {P : α → List ScopeEvent → Prop}
  {Q : β → List ScopeEvent → Prop}

theorem pure {a : α} (h : P a []) : Performs c (pure a) P := fun _ => ⟨[], h, .idle rfl rfl rfl⟩

/-- The second action is taken in a scope of the same kind. -/
theorem bind (hx : Performs c x P)
    (hf : ∀ a events c', P a events → c'.scopes.isGlobal = c.scopes.isGlobal →
      Performs c' (f a) fun b more => Q b (events ++ more)) : Performs c (x >>= f) Q := by
  intro hc
  obtain ⟨events, hP, hfirst⟩ := hx hc
  have hlevel : (x c).value.2.scopes.isGlobal = c.scopes.isGlobal := by
    rw [Scopes.isGlobal, hfirst.kind]
    rfl
  obtain ⟨more, hQ, hsecond⟩ := hf _ events _ hP hlevel (hfirst.tidy hc)
  exact ⟨events ++ more, hQ, hfirst.trans hsecond⟩

theorem mono {R : α → List ScopeEvent → Prop} (hx : Performs c x P)
    (h : ∀ a events, P a events → R a events) : Performs c x R := by
  intro hc
  obtain ⟨events, hP, hfollows⟩ := hx hc
  exact ⟨events, h _ events hP, hfollows⟩

theorem lift {x : Noted α} (hx : x.Notes c P) : Performs c (liftM x : Check α) P := by
  obtain ⟨events, hP, hfollows⟩ := hx
  intro _
  refine ⟨events, hP, ?_⟩
  have hproblems : ((liftM x : Check α) c).problems = x.problems ++ [] := rfl
  rw [hproblems, List.append_nil]
  exact hfollows

/-- Nothing is noted and no scope is changed. -/
theorem idle (hproblems : remarksIn (x c).problems = [])
    (hscopes : (x c).value.2.scopes = c.scopes) (hstage : (x c).value.2.stage = c.stage) :
    Performs c x fun _ events => events = [] :=
  fun _ => ⟨[], rfl, .idle hproblems hscopes hstage⟩

theorem get_bind {f : Context → Check β} (hf : Performs c (f c) Q) :
    Performs c (get >>= f) Q := hf

/-- The scopes can be taken to be tidy. -/
theorem of_tidy (h : c.Tidy → Performs c x P) : Performs c x P := fun hc => h hc hc

theorem lift_bind {x : Noted α} (hx : x.Notes c P)
    (hf : ∀ a events, P a events → Performs c (f a) fun b more => Q b (events ++ more)) :
    Performs c ((liftM x : Check α) >>= f) Q := by
  obtain ⟨events, hP, hfirst⟩ := hx
  intro hc
  obtain ⟨more, hQ, hsecond⟩ := hf _ events hP hc
  refine ⟨events ++ more, hQ, ?_⟩
  have hproblems : (((liftM x : Check α) >>= f) c).problems =
      (x.problems ++ []) ++ (f x.value c).problems := rfl
  rw [hproblems, List.append_nil]
  exact hfirst.trans hsecond

/-- Nothing is done before the second action. -/
theorem skip {x : Noted α} (hx : x.Quiet) (hf : ∀ a, Performs c (f a) Q) :
    Performs c ((liftM x : Check α) >>= f) Q :=
  lift_bind (.quiet hx) fun a _ h => by
    rw [h.2]
    exact hf a

/-- There may be a reason for what is noted before the second action. -/
theorem lift_if_bind {p : Prop} [Decidable p] {x : Noted Unit} {f : Unit → Check β}
    {P : List ScopeEvent → Prop}
    (hx : (if p then x else Pure.pure ()).Notes c fun _ events => P events)
    (hf : ∀ u events, P events → Performs c (f u) fun b more => Q b (events ++ more)) :
    Performs c (if p then (liftM x : Check Unit) >>= f else f ()) Q := by
  have hfirst := lift_bind hx fun u events h => hf u events h
  split
  · rename_i hp
    rwa [if_pos hp] at hfirst
  · rename_i hp
    rwa [if_neg hp] at hfirst

/-- Nothing is done before the second action, whether or not there is a reason for the first. -/
theorem skip_if {p : Prop} [Decidable p] {x : Noted Unit} {f : Unit → Check β} (hx : x.Quiet)
    (hf : ∀ u, Performs c (f u) Q) :
    Performs c (if p then (liftM x : Check Unit) >>= f else f ()) Q := by
  split
  · exact skip hx hf
  · exact hf ()

theorem inScope {kind : ScopeKind}
    (hx : Performs { c with scopes := c.scopes.push kind } x
      fun a events => P a (.enter :: (events ++ [.leave]))) :
    Performs c (inScope kind x) P := by
  intro hc
  have hinner : Context.Tidy { c with scopes := c.scopes.push kind } :=
    List.forall_mem_cons.2 ⟨Scope.tidy_empty kind, hc⟩
  obtain ⟨events, hP, hfollows⟩ := hx hinner
  refine ⟨_, hP, ?_⟩
  have hproblems : (Essl.inScope kind x c).problems =
      (x { c with scopes := c.scopes.push kind }).problems ++ [] := rfl
  rw [hproblems, List.append_nil]
  exact hfollows.inScope

theorem inLoop (hx : Performs { c with loopDepth := c.loopDepth + 1 } x P) :
    Performs c (inLoop x) P := by
  intro hc
  obtain ⟨events, hP, hfollows⟩ := hx hc
  refine ⟨events, hP, ?_⟩
  have hproblems : (Essl.inLoop x c).problems =
      (x { c with loopDepth := c.loopDepth + 1 }).problems ++ [] := rfl
  rw [hproblems, List.append_nil]
  exact ⟨hfollows.env, hfollows.remarks, hfollows.right, hfollows.tidy, hfollows.stage,
    hfollows.outer, hfollows.kind⟩

theorem inFunction {returnType : Option Ty}
    (hx : Performs { c with returnType, scopes := c.scopes.push .function } x
      fun a events => P a (.enter :: (events ++ [.leave]))) :
    Performs c (inFunction returnType x) P := by
  intro hc
  have hscoped : Performs { c with returnType } (Essl.inScope .function x) P := inScope hx
  obtain ⟨events, hP, hfollows⟩ := hscoped hc
  refine ⟨events, hP, ?_⟩
  have hproblems : (Essl.inFunction returnType x c).problems =
      (Essl.inScope .function x { c with returnType }).problems ++ [] := rfl
  rw [hproblems, List.append_nil]
  exact ⟨hfollows.env, hfollows.remarks, hfollows.right, hfollows.tidy, hfollows.stage,
    hfollows.outer, hfollows.kind⟩

/-- A variable or struct is declared, unless its scope declares the name already. -/
theorem declare {name : Token} {symbol : Symbol} (event : ScopeEvent)
    (hafter : event.after c.env = c.env.declare name.text (.object symbol))
    (hremarks : event.remarks c.stage c.env = c.env.redeclaration name)
    (hright : event.Right c.stage c.env) (hsymbol : ∀ f, symbol ≠ .function f) :
    Performs c (declare name symbol) fun _ events => events = [event] := by
  apply get_bind
  unfold Scopes.declare
  cases hdeclared : c.scopes.current.declared? c.order.arrange name.text with
  | none =>
      have hfree : c.env.current name.text = none :=
        (Scope.frame_eq_none_iff c.order).2 hdeclared
      intro hc
      refine ⟨[event], rfl, .changed ?_ ?_ hright ?_ rfl⟩
      · rw [hafter, Env.declare, hfree, Scope.frame_symbol hfree]
        rfl
      · rw [hremarks, Env.redeclaration, hfree]
        rfl
      · exact fun _ => (hc _ List.mem_cons_self).declare hfree hsymbol
  | some existing =>
      have htaken : (c.env.current name.text).isSome := by
        rw [Option.isSome_iff_ne_none]
        intro hfree
        rw [(Scope.frame_eq_none_iff c.order).1 hfree] at hdeclared
        cases hdeclared
      obtain ⟨entry, hentry⟩ := Option.isSome_iff_exists.1 htaken
      refine lift (.event rfl ?_ ?_ hright)
      · rw [hafter, Env.declare, hentry]
      · rw [hremarks, Env.redeclaration, if_pos htaken]
        rfl

end Performs

end

end Essl
