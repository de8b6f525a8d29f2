import Mathlib.Data.List.Forall2
import Mathlib.Data.List.Nodup
import Essl.Proofs.Typing.Guarantees
import Essl.Proofs.Typing.Reanalysis
import Essl.Proofs.Typing.Restoring

/-!
# Orders of functions

Where the name of several overloads is declared as something else, the first of them in some order
is said to be declared already. Nothing specifies the order, and it may be another one in the next
analysis. Two orders lead to the same typed shader and to the same problems at the same places, but
for which of the overloads such a problem is about.
-/

namespace Essl

/-! ## Problems and functions -/

/-- The function that a typed declaration declares. -/
def Declaration.function? : Declaration → Option Function
  | .prototype header _ | .function header _ => header.symbol
  | _ => none

/-- The functions that a typed shader declares. -/
def Shader.functions (shader : Shader) : List Function :=
  shader.declarations.filterMap Declaration.function?

/-- The name that is declared again. -/
def SemanticCause.redeclared? : SemanticCause → Option String
  | .redeclaration name _ _ => some name
  | _ => none

/-- The name of several of the functions is declared again. -/
def SemanticError.MeetsOverloads (functions : List Function) (e : SemanticError) : Prop :=
  ∃ f ∈ functions, ∃ g ∈ functions, f.name = g.name ∧ f.signature ≠ g.signature ∧
    e.cause.redeclared? = some f.name

instance (functions : List Function) (e : SemanticError) :
    Decidable (e.MeetsOverloads functions) :=
  inferInstanceAs (Decidable (∃ f ∈ functions, ∃ g ∈ functions, f.name = g.name ∧
    f.signature ≠ g.signature ∧ e.cause.redeclared? = some f.name))

/-- The problems are the same, but for the one of several overloads that is found by a name. -/
inductive SemanticError.Agrees (functions : List Function) : SemanticError → SemanticError → Prop
  | same (e : SemanticError) : Agrees functions e e
  | overload {f g : Function} {location : Location} : f ∈ functions → g ∈ functions →
      f.name = g.name → f.signature ≠ g.signature →
        Agrees functions ⟨.redeclaration f.name (Symbol.function f).kind f.declaredAt, location⟩
          ⟨.redeclaration g.name (Symbol.function g).kind g.declaredAt, location⟩

namespace SemanticError

variable {functions : List Function}

theorem agrees_refl (problems : List SemanticError) :
    List.Forall₂ (Agrees functions) problems problems :=
  List.forall₂_same.2 fun e _ => .same e

theorem Agrees.eq {e e' : SemanticError} (h : Agrees functions e e')
    (he : ¬ e.MeetsOverloads functions) : e' = e := by
  cases h with
  | same => rfl
  | @overload f g location hf hg hname hne => exact absurd ⟨f, hf, g, hg, hname, hne, rfl⟩ he

theorem eq_of_agrees {problems problems' : List SemanticError}
    (h : List.Forall₂ (Agrees functions) problems problems')
    (hsingle : ∀ e ∈ problems, ¬ e.MeetsOverloads functions) : problems' = problems := by
  induction h with
  | nil => rfl
  | cons he _ ih =>
      obtain ⟨hfirst, hrest⟩ := List.forall_mem_cons.1 hsingle
      rw [he.eq hfirst, ih hrest]

end SemanticError

/-! ## Overloads -/

/-- The functions of the scope are among some functions, each under its own signature alone. -/
structure Scope.Overloads (functions : List Function) (scope : Scope) : Prop where
  subset : scope.functions.map Prod.snd ⊆ functions
  signature : ∀ entry ∈ scope.functions, entry.1 = entry.2.signature
  distinct : (scope.functions.map Prod.fst).Nodup

namespace Scope.Overloads

variable {functions : List Function} {scope : Scope}

theorem empty (kind : ScopeKind) : (Scope.empty kind).Overloads functions :=
  ⟨List.nil_subset _, fun _ h => absurd h List.not_mem_nil, List.nodup_nil⟩

theorem addFunction (h : scope.Overloads functions) {f : Function} (hf : f ∈ functions) :
    (scope.addFunction f).Overloads functions := by
  refine ⟨?_, Scope.forall_addFunction rfl h.signature, ?_⟩
  · have hmem : ∀ entry ∈ scope.functions, entry.2 ∈ functions :=
      fun entry hentry => h.subset (List.mem_map_of_mem hentry)
    intro g hg
    obtain ⟨entry, hentry, rfl⟩ := List.mem_map.1 hg
    exact Scope.forall_addFunction (P := fun entry => entry.2 ∈ functions) hf hmem entry hentry
  · refine List.nodup_cons.2 ⟨?_, h.distinct.sublist (List.filter_sublist.map _)⟩
    intro hmem
    obtain ⟨entry, hentry, hkey⟩ := List.mem_map.1 hmem
    simp [hkey] at hentry

/-- Functions are told apart by their signatures. -/
theorem signature_ne (h : scope.Overloads functions) {f g : Function}
    (hf : f ∈ scope.functions.map Prod.snd) (hg : g ∈ scope.functions.map Prod.snd)
    (hne : f ≠ g) : f.signature ≠ g.signature := by
  obtain ⟨entry, hentry, rfl⟩ := List.mem_map.1 hf
  obtain ⟨other, hother, rfl⟩ := List.mem_map.1 hg
  rw [← h.signature entry hentry, ← h.signature other hother]
  intro hkey
  exact hne (congrArg Prod.snd (List.inj_on_of_nodup_map h.distinct hentry hother hkey))

/-- A name that stands for two things is that of several overloads. -/
theorem exists_of_ne (h : scope.Overloads functions) {name : String} {found existing : Symbol}
    (hne : found ≠ existing) (hfound : scope.Declares name found)
    (hexisting : scope.Declares name existing) :
    ∃ f ∈ functions, ∃ g ∈ functions, found = .function f ∧ existing = .function g ∧
      f.name = name ∧ g.name = name ∧ f.signature ≠ g.signature := by
  cases hfound with
  | symbol hs =>
      cases hexisting with
      | symbol hs' => exact absurd (Option.some.inj (hs.symm.trans hs')) hne
      | function hnone => cases hs.symm.trans hnone
  | @function f hnone hf hname =>
      cases hexisting with
      | symbol hs' => cases hs'.symm.trans hnone
      | @function g _ hg hname' =>
          have hsignature := h.signature_ne hf hg fun heq => hne (congrArg Symbol.function heq)
          exact ⟨f, h.subset hf, g, h.subset hg, rfl, rfl, hname, hname', hsignature⟩

end Scope.Overloads

/-! ## Two runs -/

namespace Context

/-- The context in which functions come in another order. -/
def reorder (c : Context) (order : FunctionOrder) : Context := { c with order }

theorem scopes_reorder (c : Context) (order : FunctionOrder) :
    (c.reorder order).scopes = c.scopes := rfl

theorem order_reorder (c : Context) (order : FunctionOrder) : (c.reorder order).order = order :=
  rfl

end Context

/-- A run in another order has been like the first one. Of the scopes in which the first one was,
only the current one may have changed. -/
structure Parallel (functions : List Function) (order : FunctionOrder) (before : Context)
    {α : Type} (first second : Noted (α × Context)) : Prop where
  value : second.value = (first.value.1, first.value.2.reorder order)
  problems : List.Forall₂ (SemanticError.Agrees functions) first.problems second.problems
  outer : first.value.2.scopes.outer = before.scopes.outer
  kind : first.value.2.scopes.current.kind = before.scopes.current.kind
  overloads : first.value.2.scopes.current.Overloads functions

variable {functions : List Function} {order : FunctionOrder} {g : Bool} {α β : Type}

theorem Parallel.lift {c : Context} (hc : c.scopes.current.Overloads functions) (x : Noted α) :
    Parallel functions order c ((x : Check α) c) ((x : Check α) (c.reorder order)) :=
  ⟨rfl, SemanticError.agrees_refl _, rfl, rfl, hc⟩

theorem run_bind (x : Check α) (f : α → Check β) (c : Context) :
    (x >>= f) c = ⟨(f (x c).value.1 (x c).value.2).value,
      (x c).problems ++ (f (x c).value.1 (x c).value.2).problems⟩ := rfl

theorem Parallel.bind {c : Context} {x : Check α} {f f' : α → Check β}
    (hx : Parallel functions order c (x c) (x (c.reorder order)))
    (hf : Parallel functions order (x c).value.2 (f (x c).value.1 (x c).value.2)
      (f' (x c).value.1 ((x c).value.2.reorder order))) :
    Parallel functions order c ((x >>= f) c) ((x >>= f') (c.reorder order)) := by
  rw [run_bind, run_bind, hx.value]
  exact ⟨hf.value, List.rel_append hx.problems hf.problems, hf.outer.trans hx.outer,
    hf.kind.trans hx.kind, hf.overloads⟩

/-- In each context that is at file scope, or in each that is not, a run in another order is like
the first one. All functions that the result declares are among the functions that count. -/
def RunsAlike (functions : List Function) (order : FunctionOrder) (atFileScope : Bool)
    (declared : α → List Function) (x : Check α) : Prop :=
  ∀ c : Context, c.scopes.isGlobal = atFileScope → c.scopes.current.Overloads functions →
    declared (x c).value.1 ⊆ functions → Parallel functions order c (x c) (x (c.reorder order))

namespace RunsAlike

variable {declared : α → List Function} {declared' : β → List Function} {x : Check α}
  {f : α → Check β}

theorem pure {a : α} : RunsAlike functions order g declared (pure a) :=
  fun _ _ hc _ => ⟨rfl, .nil, rfl, rfl, hc⟩

/-- The functions that the first action declares are among those of the result. -/
theorem bindOf (hx : RunsAlike functions order g declared x)
    (hf : ∀ a, RunsAlike functions order g declared' (f a))
    (hdeclared : ∀ a c, declared a ⊆ declared' (f a c).value.1) :
    RunsAlike functions order g declared' (x >>= f) := by
  intro c hg hc hall
  have hfirst := hx c hg hc (List.Subset.trans (hdeclared _ _) hall)
  have hlevel : (x c).value.2.scopes.isGlobal = g := by
    rw [Scopes.isGlobal, hfirst.kind]
    exact hg
  exact hfirst.bind (hf _ _ hlevel hfirst.overloads hall)

/-- The first action declares no function. -/
theorem bind (hx : RunsAlike functions order g (fun _ => []) x)
    (hf : ∀ a, RunsAlike functions order g declared' (f a)) :
    RunsAlike functions order g declared' (x >>= f) :=
  bindOf hx hf fun _ _ => List.nil_subset _

theorem lift {x : Noted α} : RunsAlike functions order g declared (liftM x : Check α) :=
  fun _ _ hc _ => Parallel.lift hc x

/-- Only an action that does not depend on the order may follow. -/
theorem get_bind {f : Context → Check β} (horder : ∀ c, f (c.reorder order) = f c)
    (hf : ∀ c, c.scopes.isGlobal = g → RunsAlike functions order g declared' (f c)) :
    RunsAlike functions order g declared' (get >>= f) := by
  intro c hg hc hall
  rw [run_get_bind, run_get_bind, horder]
  exact hf c hg c hg hc hall

theorem first_if {p : Prop} [Decidable p] {x : Check Unit} {f : Unit → Check β}
    (hx : p → RunsAlike functions order g (fun _ => []) x)
    (hf : ∀ u, RunsAlike functions order g declared' (f u)) :
    RunsAlike functions order g declared' (if p then x >>= f else f ()) := by
  split
  · rename_i hp
    exact (hx hp).bind hf
  · exact hf ()

/-- A change of the context that has nothing to do with scopes and orders. -/
theorem change {h : Context → Context} (horder : ∀ c, h (c.reorder order) = (h c).reorder order)
    (hscopes : ∀ c, (h c).scopes = c.scopes) {declared : Unit → List Function} :
    RunsAlike functions order g declared (modify h) := by
  intro c _ hc _
  refine ⟨congrArg (Prod.mk ()) (horder c), .nil, ?_, ?_, ?_⟩
  · exact congrArg (·.outer) (hscopes c)
  · exact congrArg (·.current.kind) (hscopes c)
  · exact (hscopes c).symm ▸ hc

theorem optional {check : α → Check α}
    (h : ∀ a, RunsAlike functions order g (fun _ => []) (check a)) {o : Option α}
    {declared : Option α → List Function} :
    RunsAlike functions order g declared (checkOptional check o) := by
  cases o with
  | none => exact pure
  | some a => exact (h a).bind fun _ => pure

end RunsAlike

/-! ## Scopes, loops and functions -/

section

variable {declared : α → List Function} {x : Check α}

/-- Between two changes of the context the action is like itself in another order. -/
theorem Parallel.between {enter leave : Context → Context} {c : Context}
    (henter : ∀ c, enter (c.reorder order) = (enter c).reorder order)
    (hleave : ∀ c, leave (c.reorder order) = (leave c).reorder order)
    (hx : Parallel functions order (enter c) (x (enter c)) (x ((enter c).reorder order)))
    (hafter : (leave (x (enter c)).value.2).scopes.outer = c.scopes.outer ∧
      (leave (x (enter c)).value.2).scopes.current.kind = c.scopes.current.kind ∧
      (leave (x (enter c)).value.2).scopes.current.Overloads functions) :
    Parallel functions order c
      ((do modify enter; let a ← x; modify leave; Pure.pure a : Check α) c)
      ((do modify enter; let a ← x; modify leave; Pure.pure a : Check α) (c.reorder order)) := by
  have hrun : ∀ c, (do modify enter; let a ← x; modify leave; Pure.pure a : Check α) c =
      ⟨((x (enter c)).value.1, leave (x (enter c)).value.2), (x (enter c)).problems⟩ := by
    intro c
    exact congrArg (Noted.mk _) (List.append_nil _)
  rw [hrun, hrun, henter, hx.value, hleave]
  exact ⟨rfl, hx.problems, hafter.1, hafter.2.1, hafter.2.2⟩

namespace RunsAlike

/-- What is declared in a scope that an action is run in is gone afterwards. -/
theorem inScope {kind : ScopeKind} (hkind : kind ≠ .global)
    (hx : RunsAlike functions order false (fun _ => []) x) :
    RunsAlike functions order g declared (inScope kind x) := by
  intro c _ hc _
  have hinside := hx { c with scopes := c.scopes.push kind } (beq_eq_false_iff_ne.2 hkind)
    (Scope.Overloads.empty kind) (List.nil_subset _)
  have houter : (x { c with scopes := c.scopes.push kind }).value.2.scopes.pop? =
      some c.scopes := by
    rw [Scopes.pop?, hinside.outer]
    rfl
  refine Parallel.between (fun _ => rfl) (fun _ => rfl) hinside ?_
  dsimp only
  rw [houter]
  exact ⟨rfl, rfl, hc⟩

theorem inLoop (hx : RunsAlike functions order g declared x) :
    RunsAlike functions order g declared (inLoop x) := by
  intro c hg hc hall
  have hinside := hx { c with loopDepth := c.loopDepth + 1 } hg hc hall
  exact Parallel.between (fun _ => rfl) (fun _ => rfl) hinside
    ⟨hinside.outer, hinside.kind, hinside.overloads⟩

theorem inFunction (returnType : Option Ty)
    (hx : RunsAlike functions order false (fun _ => []) x) :
    RunsAlike functions order g declared (inFunction returnType x) := by
  refine get_bind (fun _ => rfl) fun outer _ c hg hc hall => ?_
  have hscoped : RunsAlike functions order g declared (Essl.inScope .function x) :=
    inScope nofun hx
  have hinside := hscoped { c with returnType } hg hc hall
  exact Parallel.between (fun _ => rfl) (fun _ => rfl) hinside
    ⟨hinside.outer, hinside.kind, hinside.overloads⟩

end RunsAlike

end

/-! ## Expressions -/

theorem typeCall_reorder (c : Context) : typeCall (c.reorder order) = typeCall c := rfl

theorem typeArrayConstructor_reorder (c : Context) :
    typeArrayConstructor (c.reorder order) = typeArrayConstructor c := rfl

namespace Expr

mutual

theorem check_reorder (c : Context) : ∀ e : Expr, e.check (c.reorder order) = e.check c
  | .assignment _ left op right => by
      rw [check, check, check_reorder c left, check_reorder c right]
  | .ternary _ condition question whenTrue colon whenFalse => by
      rw [check, check, check_reorder c condition, check_reorder c whenTrue,
        check_reorder c whenFalse]
  | .binary _ left op right => by
      rw [check, check, check_reorder c left, check_reorder c right]
  | .unary _ op operand => by rw [check, check, check_reorder c operand]
  | .step _ operand op => by rw [check, check, check_reorder c operand]
  | .literal _ token => rfl
  | .group _ opening inner closing => by rw [check, check, check_reorder c inner]
  | .variable _ name => rfl
  | .call _ callee opening void arguments closing => by
      rw [check, check, checkAll_reorder c arguments, typeCall_reorder]
  | .arrayCall _ callee bracket size bracketEnd opening void arguments closing => by
      rw [check, check, check_reorder c size, checkAll_reorder c arguments,
        typeArrayConstructor_reorder]
  | .field _ operand dot selector => by rw [check, check, check_reorder c operand]
  | .index _ operand opening position closing => by
      rw [check, check, check_reorder c operand, check_reorder c position]
  | .list _ exprs => by rw [check, check, checkAll_reorder c exprs]

theorem checkAll_reorder (c : Context) :
    ∀ es : List Expr, checkAll (c.reorder order) es = checkAll c es
  | [] => rfl
  | e :: es => by rw [checkAll, checkAll, check_reorder c e, checkAll_reorder c es]

end

end Expr

/-! ## What declarations are made of -/

section

variable (c : Context) (base : Option Ty)

theorem declaredType_reorder (size : Option ArraySize) :
    declaredType (c.reorder order) base size = declaredType c base size := by
  cases size with
  | none => rfl
  | some size =>
      rw [declaredType, declaredType, ArraySize.check, ArraySize.check, Expr.check_reorder]

theorem checkInitializer_reorder (initializer : Option Expr) :
    checkInitializer (c.reorder order) base initializer = checkInitializer c base initializer := by
  cases initializer with
  | none => rfl
  | some e => rw [checkInitializer, checkInitializer, Expr.check_reorder]

theorem checkFieldNames_reorder : ∀ (fields : List Field) (ds : List Declarator),
    checkFieldNames (c.reorder order) base fields ds = checkFieldNames c base fields ds
  | _, [] => rfl
  | fields, d :: ds => by
      have hrest := fun fields => checkFieldNames_reorder fields ds
      simp only [checkFieldNames, declaredType_reorder, hrest]

theorem requireStorages_reorder : ∀ words : List Token,
    requireStorages (c.reorder order) words = requireStorages c words
  | [] => rfl
  | word :: words => by
      have hword : requireStorage (c.reorder order) word = requireStorage c word := rfl
      rw [requireStorages, requireStorages, hword, requireStorages_reorder words]

theorem checkInvariants_reorder : ∀ names : List InvariantName,
    checkInvariants (c.reorder order) names = checkInvariants c names
  | [] => rfl
  | n :: ns => by
      have hn : (c.reorder order).variableNamed? n.name = c.variableNamed? n.name := rfl
      rw [checkInvariants, checkInvariants, hn, checkInvariants_reorder ns]

end

/-! ## Declaring names -/

theorem declare_runsAlike (name : Token) (symbol : Symbol) {declared : Unit → List Function} :
    RunsAlike functions order g declared (declare name symbol) := by
  intro c _ hc _
  rw [declare, run_get_bind, run_get_bind, Scopes.declare, Scopes.declare, Context.scopes_reorder,
    Context.order_reorder]
  rcases Scope.declared?_cases c.order.perm order.perm c.scopes.current name.text with
    hsame | ⟨found, existing, hne, hfound, hexisting, hdeclares, hdeclares'⟩
  · rw [hsame]
    cases c.scopes.current.declared? order.arrange name.text with
    | none => exact ⟨rfl, .nil, rfl, rfl, hc.subset, hc.signature, hc.distinct⟩
    | some existing => exact Parallel.lift hc _
  · obtain ⟨f, hf, g, hg, rfl, rfl, hname, hname', hsignature⟩ :=
      hc.exists_of_ne hne hdeclares hdeclares'
    have hagrees : SemanticError.Agrees functions ⟨.redeclaration f.name _ _, name.location⟩
        ⟨.redeclaration g.name _ _, name.location⟩ :=
      .overload hf hg (hname.trans hname'.symm) hsignature
    rw [hname, hname'] at hagrees
    -- Each run has a problem with the overload that it has found.
    rw [hfound, hexisting]
    exact ⟨rfl, .cons hagrees .nil, rfl, rfl, hc⟩

theorem defineStruct_runsAlike (keyword : Token) (name : Option Token) (fields : List Field)
    {declared : StructDef → List Function} :
    RunsAlike functions order g declared (defineStruct keyword name fields) :=
  fun _ _ hc _ => ⟨rfl, .nil, rfl, rfl, hc⟩

theorem declareFunction_runsAlike (name : Token) (returnLocation : Location) (f : Function) :
    RunsAlike functions order g (fun _ => [f]) (declareFunction name returnLocation f) := by
  intro c _ hc hf
  rw [declareFunction, run_get_bind, run_get_bind, Context.scopes_reorder, Context.order_reorder]
  have haccept : Parallel functions order c
      ((set { c with scopes := c.scopes.declareFunction f } : Check Unit) c)
      ((set { c.reorder order with scopes := c.scopes.declareFunction f } : Check Unit)
        (c.reorder order)) :=
    ⟨rfl, .nil, rfl, rfl, hc.addFunction (hf List.mem_cons_self)⟩
  cases c.scopes.current.function? f.signature with
  | some old =>
      dsimp only
      cases old.kind <;> cases f.kind
      case definition.prototype | definition.definition | definition.builtin => exact .lift hc _
      case prototype.prototype | builtin.prototype =>
        exact Parallel.bind (.lift hc _) ⟨rfl, .nil, rfl, rfl, hc⟩
      all_goals exact Parallel.bind (.lift hc _) haccept
  | none =>
      dsimp only
      rcases Scope.declared?_cases c.order.perm order.perm c.scopes.current name.text with
        hsame | ⟨found, existing, hne, hfound, hexisting, hdeclares, hdeclares'⟩
      · rw [hsame]
        cases c.scopes.current.declared? order.arrange name.text with
        | none => exact haccept
        | some existing =>
            cases existing with
            | function _ => exact haccept
            | «variable» _ | struct _ => exact .lift hc _
      · obtain ⟨_, _, _, _, rfl, rfl, -⟩ := hc.exists_of_ne hne hdeclares hdeclares'
        -- Whichever overload a run has found, one more can be declared beside it.
        rw [hfound, hexisting]
        exact haccept

/-! ## Types and variables -/

mutual

theorem TypeSpec.check_runsAlike : ∀ (s : TypeSpec) {g : Bool}
    {declared : TypeSpec → List Function}, RunsAlike functions order g declared s.check
  | .named q name type, _, _ =>
      RunsAlike.get_bind (fun _ => rfl) fun _ _ => .bind .lift fun _ => .pure
  | .struct q keyword name opening fields closing defined type, _, _ => by
      refine RunsAlike.bind (.inScope nofun (checkFields_runsAlike fields)) fun checked => ?_
      refine RunsAlike.bind (defineStruct_runsAlike keyword name checked.2) fun s => ?_
      split
      · exact RunsAlike.bind (declare_runsAlike _ _) fun _ => .pure
      · exact .pure

theorem checkFields_runsAlike : ∀ (fields : List FieldSpec) {members : List Field} {g : Bool}
    {declared : List FieldSpec × List Field → List Function},
    RunsAlike functions order g declared (checkFields members fields)
  | [], _, _, _ => .pure
  | ⟨type, names, semicolon⟩ :: rest, members, _, _ => by
      refine RunsAlike.bind (TypeSpec.check_runsAlike type) fun type => ?_
      refine RunsAlike.get_bind (fun c => by rw [checkFieldNames_reorder]) fun c _ => ?_
      exact RunsAlike.bind .lift fun _ => .bind (checkFields_runsAlike rest) fun _ => .pure

end

theorem Declarator.check_runsAlike (base : Option Ty) (qualifiers : QualifierSet) (d : Declarator)
    {declared : Declarator → List Function} :
    RunsAlike functions order g declared (d.check base qualifiers) := by
  refine RunsAlike.get_bind (fun c => ?_) fun c _ => ?_
  · simp only [declaredType_reorder, checkInitializer_reorder]
  · refine RunsAlike.bind .lift fun checked => .bind .lift fun _ => .bind .lift fun _ => ?_
    exact RunsAlike.first_if (fun _ => .lift) fun _ => .bind (declare_runsAlike _ _) fun _ => .pure

theorem checkDeclarators_runsAlike (base : Option Ty) (qualifiers : QualifierSet) :
    ∀ (ds : List Declarator) {declared : List Declarator → List Function},
      RunsAlike functions order g declared (checkDeclarators base qualifiers ds)
  | [], _ => .pure
  | d :: ds, _ =>
      .bind (d.check_runsAlike base qualifiers) fun _ =>
        .bind (checkDeclarators_runsAlike base qualifiers ds) fun _ => .pure

/-! ## Function headers -/

theorem checkParameters_runsAlike : ∀ (ps : List ParameterSpec)
    {declared : List ParameterSpec → List Function},
      RunsAlike functions order g declared (checkParameters ps)
  | [], _ => .pure
  | p :: ps, _ => by
      refine RunsAlike.bind p.typeSpec.check_runsAlike fun typeSpec => ?_
      refine RunsAlike.get_bind (fun c => by rw [declaredType_reorder]) fun c _ => ?_
      exact RunsAlike.bind .lift fun _ => .bind (checkParameters_runsAlike ps) fun _ => .pure

theorem declareParameters_runsAlike : ∀ (ps : List ParameterSpec)
    {declared : List ParameterSpec → List Function},
      RunsAlike functions order g declared (declareParameters ps)
  | [], _ => .pure
  | p :: ps, declared => by
      have hrest : ∀ q, RunsAlike functions order g declared (do
          let ps ← declareParameters ps
          pure (q :: ps)) :=
        fun _ => .bind (declareParameters_runsAlike ps) fun _ => .pure
      rw [declareParameters]
      split
      · exact hrest p
      · exact RunsAlike.bind (declare_runsAlike _ _) fun _ => hrest _

/-- A header at file scope declares its function. -/
theorem FunctionHeader.check_runsAlike (kind : FunctionKind) (h : FunctionHeader) :
    RunsAlike functions order g (fun h' => bif g then h'.symbol.toList else []) (h.check kind) := by
  refine RunsAlike.get_bind (fun _ => rfl) fun c hc => ?_
  extract_lets nested typed
  refine RunsAlike.first_if (fun _ => .lift) fun _ => ?_
  refine RunsAlike.bind h.returnType.check_runsAlike fun s => ?_
  refine RunsAlike.bind (checkParameters_runsAlike h.parameters) fun ps => ?_
  extract_lets resolved typed finish
  refine RunsAlike.bind .lift fun _ => ?_
  split
  · extract_lets f finish
    split
    · rename_i hglobal
      have hg : g = true := by simpa [nested, hc] using hglobal
      subst hg
      exact RunsAlike.bindOf (declareFunction_runsAlike _ _ f) (fun _ => .pure)
        fun _ _ => List.Subset.refl _
    · exact .pure
  · refine RunsAlike.first_if (fun _ => .change ?_ ?_) fun _ => .pure
    · exact fun _ => rfl
    · exact fun _ => rfl

/-! ## Conditions -/

theorem Condition.check_runsAlike (condition : Condition) {declared : Condition → List Function} :
    RunsAlike functions order g declared condition.check := by
  unfold check
  extract_lets finish
  have hfinish : ∀ checked, RunsAlike functions order g declared (finish checked) :=
    fun _ => .bind .lift fun _ => .pure
  cases condition with
  | expression e =>
      refine RunsAlike.get_bind (fun c => by rw [Expr.check_reorder]) fun c _ => ?_
      exact RunsAlike.bind .lift fun _ => .bind .pure hfinish
  | declaration typeSpec d =>
      refine RunsAlike.bind typeSpec.check_runsAlike fun typeSpec => ?_
      exact RunsAlike.bind (d.check_runsAlike _ _) fun _ => .bind .pure hfinish

theorem checkCondition_runsAlike (e : Expr) {declared : Expr → List Function} :
    RunsAlike functions order g declared (checkCondition e) := by
  refine RunsAlike.get_bind (fun c => by rw [Expr.check_reorder]) fun c _ => ?_
  exact RunsAlike.bind .lift fun _ => .bind .lift fun _ => .pure

/-! ## Declarations and statements -/

mutual

theorem Declaration.check_runsAlike : ∀ (d : Declaration) {g : Bool},
    RunsAlike functions order g (fun d' => bif g then d'.function?.toList else []) d.check
  | .declarators s ds semicolon, _ => by
      refine RunsAlike.get_bind (fun c => by rw [requireStorages_reorder]) fun c _ => ?_
      refine RunsAlike.bind .lift fun _ => .bind s.check_runsAlike fun s => ?_
      exact RunsAlike.bind (checkDeclarators_runsAlike _ _ ds) fun _ => .pure
  | .type s semicolon, _ => by
      refine RunsAlike.get_bind (fun c => by rw [requireStorages_reorder]) fun c _ => ?_
      exact RunsAlike.bind .lift fun _ => .bind s.check_runsAlike fun _ => .pure
  | .precision keyword precision s semicolon, _ => by
      refine RunsAlike.bind s.check_runsAlike fun s => ?_
      split
      · exact RunsAlike.first_if (fun _ => .lift) fun _ => .pure
      · exact .pure
  | .invariants keyword ns semicolon, _ => by
      refine RunsAlike.get_bind (fun c => ?_) fun c _ => ?_
      · rw [checkInvariants_reorder, Context.scopes_reorder]
      · exact RunsAlike.first_if (fun _ => .lift) fun _ => .bind .lift fun _ => .pure
  | .prototype header semicolon, _ =>
      .bindOf (header.check_runsAlike .prototype) (fun _ => .pure) fun _ _ => List.Subset.refl _
  | .function header body, _ => by
      refine RunsAlike.bindOf (header.check_runsAlike .definition) (fun header => ?_)
        fun _ _ => List.Subset.refl _
      refine RunsAlike.bind (.inFunction header.returnType.type ?_) fun _ => .pure
      exact RunsAlike.bind (declareParameters_runsAlike header.parameters) fun _ =>
        .bind (Block.checkInside_runsAlike body) fun _ => .pure

/-- The statements of a function share a scope with its parameters. -/
theorem Block.checkInside_runsAlike : ∀ b : Block,
    RunsAlike functions order false (fun _ => []) b.checkInside
  | ⟨_, statements, _, _⟩ => .bind (checkStatements_runsAlike statements) fun _ => .pure

theorem Block.check_runsAlike : ∀ b : Block,
    RunsAlike functions order false (fun _ => []) b.check
  | ⟨_, statements, _, newScope⟩ => by
      unfold Block.check
      extract_lets finish
      split
      · exact RunsAlike.bind (.inScope nofun (checkStatements_runsAlike statements)) fun _ => .pure
      · exact RunsAlike.bind (checkStatements_runsAlike statements) fun _ => .pure

theorem Statement.check_runsAlike : ∀ s : Statement,
    RunsAlike functions order false (fun _ => []) s.check
  | .declaration d => .bind (Declaration.check_runsAlike d) fun _ => .pure
  | .block b => .bind (Block.check_runsAlike b) fun _ => .pure
  | .expression e semicolon => by
      refine RunsAlike.get_bind (fun c => by rw [Expr.check_reorder]) fun c _ => ?_
      exact RunsAlike.bind .lift fun _ => .pure
  | .empty semicolon => .pure
  | .ifThen keyword opening condition closing whenTrue =>
      .bind (checkCondition_runsAlike condition) fun _ =>
        .bind (Statement.check_runsAlike whenTrue) fun _ => .pure
  | .ifElse keyword opening condition closing whenTrue otherwise whenFalse =>
      .bind (checkCondition_runsAlike condition) fun _ =>
        .bind (Statement.check_runsAlike whenTrue) fun _ =>
          .bind (Statement.check_runsAlike whenFalse) fun _ => .pure
  | .whileLoop keyword opening condition closing body => by
      refine RunsAlike.inScope nofun (.bind condition.check_runsAlike fun _ => ?_)
      exact RunsAlike.bind (.inLoop (Statement.check_runsAlike body)) fun _ => .pure
  | .doLoop keyword body whileWord opening condition closing semicolon =>
      .bind (.inLoop (Statement.check_runsAlike body)) fun _ =>
        .bind (checkCondition_runsAlike condition) fun _ => .pure
  | .forLoop keyword opening init condition semicolon increment closing body => by
      refine RunsAlike.inScope nofun (.bind (Statement.check_runsAlike init) fun _ => ?_)
      refine RunsAlike.bind (.optional fun c => c.check_runsAlike) fun _ => ?_
      refine RunsAlike.get_bind (fun c => by simp only [Expr.check_reorder]) fun c _ => ?_
      refine RunsAlike.bind (.optional fun _ => .lift) fun _ => ?_
      exact RunsAlike.bind (.inLoop (Statement.check_runsAlike body)) fun _ => .pure
  | .jump keyword semicolon =>
      RunsAlike.get_bind (fun _ => rfl) fun _ _ => .bind .lift fun _ => .pure
  | .return keyword value semicolon => by
      refine RunsAlike.get_bind (fun c => ?_) fun c _ => ?_
      · have hreturn : requireReturn (c.reorder order) = requireReturn c := rfl
        simp only [Expr.check_reorder, hreturn]
      · exact RunsAlike.bind (.optional fun _ => .lift) fun _ => .bind .lift fun _ => .pure

theorem checkStatements_runsAlike : ∀ ss : List Statement,
    RunsAlike functions order false (fun _ => []) (checkStatements ss)
  | [] => .pure
  | s :: ss =>
      .bind (Statement.check_runsAlike s) fun _ =>
        .bind (checkStatements_runsAlike ss) fun _ => .pure

end

/-! ## Shaders -/

theorem checkDeclarations_runsAlike : ∀ ds : List Declaration,
    RunsAlike functions order true (·.filterMap Declaration.function?) (checkDeclarations ds)
  | [] => .pure
  | d :: ds => by
      refine RunsAlike.bindOf d.check_runsAlike (fun d' => ?_) fun d' c => ?_
      · refine RunsAlike.bindOf (checkDeclarations_runsAlike ds) (fun _ => .pure) fun ds' c => ?_
        exact ((List.sublist_cons_self d' ds').filterMap Declaration.function?).subset
      · intro f hf
        exact List.mem_filterMap.2 ⟨d', List.mem_cons_self, Option.mem_toList.1 hf⟩

namespace Shader

/-- Another order leads to the same typed shader, and to problems that differ at most in what a
name of several overloads is said to be declared as. -/
theorem analyze_reorder (shader : Shader) (stage : Stage) (order other : FunctionOrder) :
    (shader.analyze stage other).value = (shader.analyze stage order).value ∧
      List.Forall₂ (SemanticError.Agrees (shader.analyze stage order).value.functions)
        (shader.analyze stage order).problems (shader.analyze stage other).problems := by
  have hparallel : Parallel (shader.analyze stage order).value.functions other
      (.empty stage order) (checkDeclarations shader.declarations (.empty stage order))
      (checkDeclarations shader.declarations (.empty stage other)) :=
    checkDeclarations_runsAlike _ _ rfl (Scope.Overloads.empty .global) (List.Subset.refl _)
  have hproblems : ∀ order, (shader.analyze stage order).problems =
      (checkDeclarations shader.declarations (.empty stage order)).problems :=
    fun _ => List.append_nil _
  rw [hproblems, hproblems]
  exact ⟨congrArg (fun result => Shader.mk result.1) hparallel.value, hparallel.problems⟩

variable {shader : Shader}

end Shader

end Essl
