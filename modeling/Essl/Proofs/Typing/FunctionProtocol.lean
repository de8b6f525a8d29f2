import Essl.Proofs.Typing.DeclaratorTrace
import Essl.Proofs.Typing.Guarantees
import Essl.Proofs.Typing.Reanalysis
import Essl.Proofs.Typing.Restoring
import Essl.Proofs.Typing.Simulation

/-!
# Prototypes and definitions

A function may be declared any number of times, as long as the declarations agree and none comes
after a definition. What is said about one of them depends on those before it with the same
signature, and on nothing else.
-/

namespace Essl

/-! ## Declarations of functions -/

/-- A declaration of a function, with the place of its return type. -/
structure FunctionDeclaration where
  name : Token
  returnLocation : Location
  returnType : Ty
  parameters : List Parameter
  isDefinition : Bool

/-- The function that is declared. -/
def FunctionDeclaration.function (f : FunctionDeclaration) : Function where
  name := f.name.text
  returnType := f.returnType
  parameters := f.parameters
  kind := if f.isDefinition then .definition else .prototype
  declaredAt := some f.name.location
  evaluate := none

/-- What a typed header declares, if all its types are known. -/
def FunctionHeader.declared? (isDefinition : Bool) (h : FunctionHeader) :
    Option FunctionDeclaration :=
  match h.returnType.type, parameters? h.parameters with
  | some returnType, some parameters =>
    some ⟨h.name, h.returnType.location, returnType, parameters, isDefinition⟩
  | _, _ => none

/-- What a typed declaration declares as a function. -/
def Declaration.declaredFunction? : Declaration → Option FunctionDeclaration
  | .prototype h _ => h.declared? false
  | .function h _ => h.declared? true
  | _ => none

namespace FunctionDeclaration

/-- Of the declarations of one function, in their order, the one that counts: the first definition,
or else the first of all. -/
def counting? (declarations : List FunctionDeclaration) : Option FunctionDeclaration :=
  (declarations.find? isDefinition).or declarations.head?

/-- What is wrong with another declaration after a definition. -/
def lateness (f definition : FunctionDeclaration) : SemanticError :=
  let previous := some definition.name.location
  ⟨if f.isDefinition then .functionRedefinition f.name.text previous
    else .prototypeAfterDefinition f.name.text previous, f.name.location⟩

/-- Where parameters have other qualifiers than those of the first declaration. Their positions
count from 1. -/
def mismatches (f first : FunctionDeclaration) : List SemanticError :=
  let positions := ((first.parameters.zip f.parameters).zipIdx 1).filter fun ((old, new), _) =>
    old.qualifiers ≠ new.qualifiers
  positions.map fun (_, position) =>
    ⟨.parameterQualifierMismatch position (some first.name.location), f.name.location⟩

/-- What another declaration has wrong that the first one has right. -/
def contradictions (f first : FunctionDeclaration) : List SemanticError :=
  (if first.returnType = f.returnType then []
    else [⟨.returnTypeMismatch first.returnType f.returnType (some first.name.location),
      f.returnLocation⟩]) ++ f.mismatches first

/-- The disputes that a declaration gives reason for after others of the same function. -/
def disputes (f : FunctionDeclaration) (earlier : List FunctionDeclaration) :
    List SemanticError :=
  match earlier.find? isDefinition, earlier.head? with
  | some definition, _ => [f.lateness definition]
  | none, some first => f.contradictions first
  | none, none => []

end FunctionDeclaration

/-- The disputes among problems. -/
def disputesIn (problems : List SemanticError) : List SemanticError :=
  problems.filter (·.cause.isDispute)

/-! ## Comparing with the first declaration -/

theorem disputesIn_eq_nil {problems : List SemanticError}
    (h : ∀ e ∈ problems, e.cause.isDispute = false) : disputesIn problems = [] := by
  refine List.filter_eq_nil_iff.2 fun e he => ?_
  rw [h e he]
  decide

theorem disputesIn_append (ps qs : List SemanticError) :
    disputesIn (ps ++ qs) = disputesIn ps ++ disputesIn qs := List.filter_append ..

theorem requireQualifiers_problems (previous : Option Location) (location : Location) :
    ∀ (position : Nat) (olds news : List Parameter),
      (requireQualifiers previous location position olds news).problems =
        (((olds.zip news).zipIdx position).filter fun ((old, new), _) =>
          old.qualifiers ≠ new.qualifiers).map fun (_, position) =>
            ⟨.parameterQualifierMismatch position previous, location⟩
  | position, old :: olds, new :: news => by
      have hrest := requireQualifiers_problems previous location (position + 1) olds news
      rw [requireQualifiers, List.zip_cons_cons, List.zipIdx_cons]
      by_cases h : old.qualifiers = new.qualifiers
      · simp [h, hrest]
      · simp [h, hrest, report]
  | _, [], _ | _, _ :: _, [] => rfl

theorem requireAgreement_problems (f first : FunctionDeclaration) :
    (requireAgreement f.name f.returnLocation first.function f.function).problems =
      f.contradictions first := by
  have hparameters : (requireQualifiers (some first.name.location) f.name.location 1
      first.parameters f.parameters).problems = f.mismatches first :=
    requireQualifiers_problems _ _ 1 first.parameters f.parameters
  unfold requireAgreement FunctionDeclaration.contradictions
  by_cases h : first.returnType = f.returnType
  · simp [h, FunctionDeclaration.function, hparameters]
  · simp [h, FunctionDeclaration.function, hparameters, report]

/-- All that is said about a contradiction is a dispute. -/
theorem disputesIn_contradictions (f first : FunctionDeclaration) :
    disputesIn (f.contradictions first) = f.contradictions first := by
  refine List.filter_eq_self.2 fun e he => ?_
  rcases List.mem_append.1 he with he | he
  · split at he
    · cases he
    · rw [List.mem_singleton.1 he]
      rfl
  · obtain ⟨_, -, rfl⟩ := List.mem_map.1 he
    rfl

theorem disputesIn_lateness (f definition : FunctionDeclaration) :
    disputesIn [f.lateness definition] = [f.lateness definition] := by
  refine List.filter_eq_self.2 fun e he => ?_
  rw [List.mem_singleton.1 he, FunctionDeclaration.lateness]
  cases f.isDefinition <;> rfl

/-! ## One declaration after others -/

namespace FunctionDeclaration

variable {f : FunctionDeclaration} {earlier : List FunctionDeclaration}

@[simp] theorem counting?_singleton : counting? [f] = some f := by
  cases h : f.isDefinition <;> simp [counting?, h]

theorem counting?_append_of_definition {definition : FunctionDeclaration}
    (h : earlier.find? isDefinition = some definition) :
    counting? (earlier ++ [f]) = some definition := by
  rw [counting?, List.find?_append, h]
  rfl

theorem counting?_append_of_prototypes {first : FunctionDeclaration}
    (h : earlier.find? isDefinition = none) (hfirst : earlier.head? = some first) :
    counting? (earlier ++ [f]) = some (if f.isDefinition then f else first) := by
  cases hf : f.isDefinition <;> simp [counting?, List.find?_append, h, hfirst, hf]

end FunctionDeclaration

open FunctionDeclaration

variable {c : Context} {f : FunctionDeclaration} {earlier : List FunctionDeclaration} {σ : String}

/-- Nothing comes after a definition. -/
theorem declareFunction_late {definition : FunctionDeclaration}
    (hknown : c.scopes.current.function? f.function.signature = some definition.function)
    (hdefinition : definition.isDefinition = true) :
    declareFunction f.name f.returnLocation f.function c = ⟨((), c), [f.lateness definition]⟩ := by
  have hkind : definition.function.kind = .definition := if_pos hdefinition
  rw [declareFunction, run_get_bind, hknown]
  dsimp only
  rw [hkind]
  cases hf : f.isDefinition with
  | true =>
      rw [show f.function.kind = .definition from if_pos hf, lateness, hf]
      rfl
  | false =>
      rw [show f.function.kind = .prototype from if_neg (Bool.eq_false_iff.1 hf), lateness, hf]
      rfl

theorem declareFunction_again {first : FunctionDeclaration}
    (hknown : c.scopes.current.function? f.function.signature = some first.function)
    (hfirst : first.isDefinition = false) :
    declareFunction f.name f.returnLocation f.function c =
      ⟨((), if f.isDefinition then { c with scopes := c.scopes.declareFunction f.function } else c),
        f.contradictions first⟩ := by
  have hkind : first.function.kind = .prototype := if_neg (Bool.eq_false_iff.1 hfirst)
  have hproblems : ((requireAgreement f.name f.returnLocation first.function f.function).problems ++
      []) ++ [] = f.contradictions first := by
    rw [List.append_nil, List.append_nil, requireAgreement_problems]
  rw [declareFunction, run_get_bind, hknown]
  dsimp only
  rw [hkind]
  cases hf : f.isDefinition with
  | true =>
      rw [show f.function.kind = .definition from if_pos hf]
      exact congrArg (Noted.mk _) hproblems
  | false =>
      rw [show f.function.kind = .prototype from if_neg (Bool.eq_false_iff.1 hf)]
      exact congrArg (Noted.mk _) hproblems

theorem declareFunction_first (hfree : c.scopes.current.symbol? f.name.text = none)
    (hunknown : c.scopes.current.function? f.function.signature = none) :
    declareFunction f.name f.returnLocation f.function c =
      ⟨((), { c with scopes := c.scopes.declareFunction f.function }), []⟩ := by
  rw [declareFunction, run_get_bind, hunknown]
  dsimp only
  cases hdeclared : c.scopes.current.declared? c.order.arrange f.name.text with
  | none => rfl
  | some existing =>
      obtain ⟨g, rfl⟩ := Scope.function_of_declared? hfree hdeclared
      rfl

/-- The earlier declarations are known by the one that counts. -/
theorem declareFunction_disputes (hfree : c.scopes.current.symbol? f.name.text = none)
    (hknown : c.scopes.current.function? f.function.signature =
      (counting? earlier).map FunctionDeclaration.function) :
    let result := declareFunction f.name f.returnLocation f.function c
    disputesIn result.problems = f.disputes earlier ∧
      result.value.2.scopes.current.function? f.function.signature =
        (counting? (earlier ++ [f])).map FunctionDeclaration.function := by
  intro result
  cases hdefinition : earlier.find? isDefinition with
  | some definition =>
      have hcounting : counting? earlier = some definition := by
        rw [counting?, hdefinition, Option.some_or]
      rw [hcounting] at hknown
      have hresult : result = _ := declareFunction_late hknown (List.find?_some hdefinition)
      rw [counting?_append_of_definition hdefinition, disputes, hdefinition, hresult]
      exact ⟨disputesIn_lateness f definition, hknown⟩
  | none =>
      have hcounting : counting? earlier = earlier.head? := by
        rw [counting?, hdefinition, Option.none_or]
      rw [hcounting] at hknown
      cases hfirst : earlier.head? with
      | none =>
          rw [hfirst] at hknown
          have hresult : result = _ := declareFunction_first hfree hknown
          rw [List.head?_eq_none_iff.1 hfirst, List.nil_append, counting?_singleton, hresult]
          exact ⟨rfl, Scope.function?_addFunction_self _ _⟩
      | some first =>
          rw [hfirst] at hknown
          have hprototype : first.isDefinition = false := by
            simpa using List.find?_eq_none.1 hdefinition first (List.mem_of_mem_head? hfirst)
          have hresult : result = _ := declareFunction_again hknown hprototype
          rw [counting?_append_of_prototypes hdefinition hfirst, disputes, hdefinition, hfirst,
            hresult]
          refine ⟨disputesIn_contradictions f first, ?_⟩
          cases f.isDefinition with
          | true => exact Scope.function?_addFunction_self _ _
          | false => exact hknown

/-! ## Where a declaration declares its function -/

variable {α β : Type}

/-- If a function is declared on the way to the result, then between typing that declares none and
notes no disputes. -/
def Declares (f? : Option FunctionDeclaration) (c : Context) (result : Noted (α × Context)) :
    Prop :=
  match f? with
  | none => Restoration True c result
  | some f => ∃ before : Context, c.Restored before ∧
      before.scopes.current.functions = c.scopes.current.functions ∧
      let declared := declareFunction f.name f.returnLocation f.function before
      declared.value.2.Restored result.value.2 ∧
      result.value.2.scopes.current.functions = declared.value.2.scopes.current.functions ∧
      disputesIn result.problems = disputesIn declared.problems

namespace Declares

variable {f? : Option FunctionDeclaration} {x : Check α} {g : α → Check β}

theorem before (hx : Restoration True c (x c))
    (hg : Declares f? (x c).value.2 (g (x c).value.1 (x c).value.2)) :
    Declares f? c ((x >>= g) c) := by
  cases f? with
  | none => exact hx.bind hg
  | some f =>
      obtain ⟨before, hbefore, hfunctions, hafter, hsame, hdisputes⟩ := hg
      refine ⟨before, hx.toRestored.trans hbefore, ?_, hafter, hsame, ?_⟩
      · rw [hfunctions, hx.functions trivial]
      · refine (disputesIn_append _ _).trans ?_
        rw [disputesIn_eq_nil (hx.undisputed trivial), List.nil_append, hdisputes]

theorem after (hx : Declares f? c (x c))
    (hg : Restoration True (x c).value.2 (g (x c).value.1 (x c).value.2)) :
    Declares f? c ((x >>= g) c) := by
  cases f? with
  | none => exact Restoration.bind hx hg
  | some f =>
      obtain ⟨before, hbefore, hfunctions, hafter, hsame, hdisputes⟩ := hx
      refine ⟨before, hbefore, hfunctions, hafter.trans hg.toRestored, ?_, ?_⟩
      · exact (hg.functions trivial).trans hsame
      · refine (disputesIn_append _ _).trans ?_
        rw [disputesIn_eq_nil (hg.undisputed trivial), List.append_nil, hdisputes]

end Declares

/-- The action declares the function that its value says. -/
def DeclaresBy (declared? : α → Option FunctionDeclaration) (c : Context) (x : Check α) : Prop :=
  Declares (declared? (x c).value.1) c (x c)

theorem DeclaresBy.before {declared? : β → Option FunctionDeclaration} {x : Check α}
    {g : α → Check β} (hx : Restores True true x) (hc : c.scopes.isGlobal = true)
    (hg : ∀ a after, after.scopes.isGlobal = true → DeclaresBy declared? after (g a)) :
    DeclaresBy declared? c (x >>= g) :=
  Declares.before (hx c hc) (hg _ _ ((hx c hc).isGlobal.trans hc))

theorem DeclaresBy.get_bind {declared? : α → Option FunctionDeclaration} {g : Context → Check α}
    (h : DeclaresBy declared? c (g c)) : DeclaresBy declared? c (get >>= g) := h

/-- The last step of a header whose types are known. -/
theorem declareFunction_declares (f : FunctionDeclaration) {a : α}
    {declared? : α → Option FunctionDeclaration} (ha : declared? a = some f) :
    DeclaresBy declared? c (do
      declareFunction f.name f.returnLocation f.function
      pure a) := by
  unfold DeclaresBy
  have hvalue : ((do
      declareFunction f.name f.returnLocation f.function
      pure a : Check α) c).value.1 = a := rfl
  rw [hvalue, ha]
  refine ⟨c, .refl c, rfl, .refl _, rfl, ?_⟩
  exact congrArg disputesIn (List.append_nil _)

theorem DeclaresBy.of_none {x : Check α} {declared? : α → Option FunctionDeclaration}
    (hx : Restoration True c (x c)) (hnone : declared? (x c).value.1 = none) :
    DeclaresBy declared? c x := by
  rw [DeclaresBy, hnone]
  exact hx

namespace FunctionHeader

variable {isDefinition : Bool} {h : FunctionHeader}

theorem declared?_eq_some {returnType : Ty} {parameters : List Parameter}
    (htype : h.returnType.type = some returnType)
    (hparameters : parameters? h.parameters = some parameters) :
    h.declared? isDefinition =
      some ⟨h.name, h.returnType.location, returnType, parameters, isDefinition⟩ := by
  rw [declared?, htype, hparameters]

theorem declared?_eq_none (hunknown : ∀ returnType parameters,
    h.returnType.type = some returnType → parameters? h.parameters = some parameters → False) :
    h.declared? isDefinition = none := by
  unfold declared?
  split
  · rename_i htype hparameters
    exact (hunknown _ _ htype hparameters).elim
  · rfl

theorem check_declares {kind : FunctionKind}
    (hkind : kind = if isDefinition then .definition else .prototype) (h : FunctionHeader)
    (hc : c.scopes.isGlobal = true) :
    DeclaresBy (declared? isDefinition) c (h.check kind) := by
  apply DeclaresBy.get_bind
  extract_lets nested finish
  have hnested : nested = false := by simp [nested, hc]
  rw [hnested, if_neg Bool.false_ne_true]
  refine DeclaresBy.before h.returnType.check_restores hc fun s cs hcs => ?_
  refine DeclaresBy.before (checkParameters_restores h.parameters) hcs fun ps cps hcps => ?_
  extract_lets resolved typed finish
  refine DeclaresBy.before (.lift (requireNoVoid_undisputed _)) hcps fun _ c hc => ?_
  split
  · rename_i type parameters htype hresolved
    extract_lets f finish
    rw [hnested, Bool.not_false, if_pos rfl]
    have hf : f = FunctionDeclaration.function
        ⟨h.name, s.location, type, parameters, isDefinition⟩ := by
      simp [f, typed, FunctionDeclaration.function, hkind]
    clear_value f
    subst hf
    exact declareFunction_declares _ (declared?_eq_some htype hresolved)
  · rename_i hunknown
    rw [hnested, Bool.not_false, if_pos rfl]
    have hpoison : Restores True true (do
        modify fun c => { c with unresolved := typed.name.text :: c.unresolved }
        pure typed) :=
      .bind (.change (fun c => ⟨rfl, rfl, rfl, rfl, rfl, fun _ _ h => h⟩) fun _ => rfl)
        fun _ => .pure
    exact .of_none (hpoison c hc) (declared?_eq_none hunknown)

end FunctionHeader

/-- Quiet typing may follow. -/
theorem DeclaresBy.after {declared? : α → Option FunctionDeclaration}
    {declared?' : β → Option FunctionDeclaration} {x : Check α} {g : α → Check β}
    (hx : DeclaresBy declared? c x) (hg : ∀ a, Restores True true (g a))
    (hglobal : (x c).value.2.scopes.isGlobal = true)
    (hvalue : ∀ a after, declared?' (g a after).value.1 = declared? a) :
    DeclaresBy declared?' c (x >>= g) := by
  have hafter : Declares (declared? (x c).value.1) c ((x >>= g) c) :=
    Declares.after hx (hg _ _ hglobal)
  rw [← hvalue _ (x c).value.2] at hafter
  exact hafter

/-- The variables in the body do not matter to the function. -/
theorem map_parameter?_declareParameters : ∀ (ps : List ParameterSpec) (c : Context),
    (declareParameters ps c).value.1.map ParameterSpec.parameter? =
      ps.map ParameterSpec.parameter?
  | [], _ => rfl
  | ⟨_, _, none, _, _, _⟩ :: ps, c =>
      congrArg (_ :: ·) (map_parameter?_declareParameters ps c)
  | ⟨_, _, some _, _, _, _⟩ :: ps, _ =>
      congrArg (_ :: ·) (map_parameter?_declareParameters ps _)

theorem parameters?_congr {ps qs : List ParameterSpec}
    (h : ps.map ParameterSpec.parameter? = qs.map ParameterSpec.parameter?) :
    parameters? ps = parameters? qs := by
  have hmapM : ∀ specs : List ParameterSpec,
      specs.mapM ParameterSpec.parameter? = (specs.map ParameterSpec.parameter?).mapM id :=
    fun specs => by rw [List.mapM_map]; rfl
  rw [parameters?, parameters?, hmapM, hmapM, h]

theorem FunctionHeader.declared?_declareParameters (isDefinition : Bool) (h : FunctionHeader)
    (c : Context) :
    declared? isDefinition { h with parameters := (declareParameters h.parameters c).value.1 } =
      h.declared? isDefinition := by
  rw [declared?, parameters?_congr (map_parameter?_declareParameters h.parameters c), declared?]

namespace Declaration

/-- Typing makes no function of what is none. -/
theorem isFunction_check (d : Declaration) (c : Context) :
    (d.check c).value.1.isFunction = d.isFunction := by
  have herase : ∀ d : Declaration, d.erase.isFunction = d.isFunction := fun d => by
    cases d <;> rfl
  rw [← herase, d.erase_check c, herase]

theorem declaredFunction?_of_not_isFunction {d : Declaration} (h : d.isFunction = false) :
    d.declaredFunction? = none := by
  cases d with
  | prototype | function => cases h
  | _ => rfl

/-- A declaration of a function declares it between the types in front and the body. -/
theorem check_declares (d : Declaration) (hc : c.scopes.isGlobal = true) :
    DeclaresBy declaredFunction? c d.check := by
  have hother : d.isFunction = false → DeclaresBy declaredFunction? c d.check := fun h =>
    .of_none (d.check_restores (fun _ => .inr h) c hc)
      (declaredFunction?_of_not_isFunction ((d.isFunction_check c).trans h))
  cases d with
  | declarators | type | precision | invariants => exact hother rfl
  | prototype h semicolon =>
      have hheader : DeclaresBy (FunctionHeader.declared? false) c (h.check .prototype) :=
        FunctionHeader.check_declares rfl h hc
      have hrestores : Restores False true (h.check .prototype) :=
        h.check_restores False.elim .prototype
      exact hheader.after (fun _ => .pure) ((hrestores c hc).isGlobal.trans hc) fun _ _ => rfl
  | function h body =>
      have hheader : DeclaresBy (FunctionHeader.declared? true) c (h.check .definition) :=
        FunctionHeader.check_declares rfl h hc
      have hrestores : Restores False true (h.check .definition) :=
        h.check_restores False.elim .definition
      rw [check]
      refine hheader.after (fun h => ?_) ((hrestores c hc).isGlobal.trans hc) fun h after => ?_
      · have hbody := functionBody_inside h.parameters (body.checkInside_restores fun _ => rfl)
        exact Restores.bind (.inFunction h.returnType.type hbody) fun _ => .pure
      · exact FunctionHeader.declared?_declareParameters true h _

end Declaration

/-! ## Declarations in turn -/

/-- What typing gives for each of some declarations, one after the other. -/
def checkInTurn : List Declaration → Context → List (Noted Declaration)
  | [], _ => []
  | d :: ds, c =>
    ⟨(d.check c).value.1, (d.check c).problems⟩ :: checkInTurn ds (d.check c).value.2

/-- The declarations of the function with a signature, in their order. -/
def declarationsOf (σ : String) (checked : List (Noted Declaration)) :
    List FunctionDeclaration :=
  (checked.filterMap (·.value.declaredFunction?)).filter (·.function.signature = σ)

theorem checkDeclarations_value : ∀ (ds : List Declaration) (c : Context),
    (checkDeclarations ds c).value.1 = (checkInTurn ds c).map Noted.value
  | [], _ => rfl
  | _ :: ds, _ => congrArg (_ :: ·) (checkDeclarations_value ds _)

theorem checkDeclarations_problems : ∀ (ds : List Declaration) (c : Context),
    (checkDeclarations ds c).problems = (checkInTurn ds c).flatMap Noted.problems
  | [], _ => rfl
  | d :: ds, c => by
      have hrest := checkDeclarations_problems ds (d.check c).value.2
      have heq : (checkDeclarations (d :: ds) c).problems = (d.check c).problems ++
          ((checkDeclarations ds (d.check c).value.2).problems ++ []) := rfl
      rw [heq, List.append_nil, hrest, checkInTurn, List.flatMap_cons]

theorem declarationsOf_cons (x : Noted Declaration) (checked : List (Noted Declaration)) :
    declarationsOf σ (x :: checked) = declarationsOf σ [x] ++ declarationsOf σ checked := by
  simp only [declarationsOf, ← List.filter_append, ← List.filterMap_append, List.singleton_append]

theorem declarationsOf_singleton_eq_nil {x : Noted Declaration}
    (h : ∀ f, x.value.declaredFunction? = some f → f.function.signature ≠ σ) :
    declarationsOf σ [x] = [] := by
  cases hf : x.value.declaredFunction? with
  | none => simp [declarationsOf, hf]
  | some f => simp [declarationsOf, hf, h f hf]

theorem declarationsOf_singleton {x : Noted Declaration}
    (hf : x.value.declaredFunction? = some f) (hσ : f.function.signature = σ) :
    declarationsOf σ [x] = [f] := by
  simp [declarationsOf, hf, hσ]

/-- One more declaration. -/
theorem Declares.follows {result : Noted (Declaration × Context)}
    (hdeclares : Declares result.value.1.declaredFunction? c result)
    (hknown : c.scopes.current.function? σ =
      (counting? earlier).map FunctionDeclaration.function)
    (hfree : ∀ f, result.value.1.declaredFunction? = some f → f.function.signature = σ →
      result.value.2.scopes.current.symbol? f.name.text = none) :
    (∀ f, result.value.1.declaredFunction? = some f → f.function.signature = σ →
      disputesIn result.problems = f.disputes earlier) ∧
    result.value.2.scopes.current.function? σ =
      (counting? (earlier ++ declarationsOf σ [⟨result.value.1, result.problems⟩])).map
        FunctionDeclaration.function := by
  cases hf : result.value.1.declaredFunction? with
  | none =>
      rw [hf] at hdeclares
      have hsame := hdeclares.functions trivial
      rw [declarationsOf_singleton_eq_nil (by simp [hf]), List.append_nil, Scope.function?, hsame]
      refine ⟨?_, hknown⟩
      rintro _ ⟨⟩
  | some f =>
      rw [hf] at hdeclares
      obtain ⟨before, hbefore, hfunctions, hafter, hsame, hdisputes⟩ := hdeclares
      rw [Scope.function?, ← hfunctions, ← Scope.function?] at hknown
      rw [Scope.function?, hsame, ← Scope.function?]
      by_cases hσ : f.function.signature = σ
      · have hsymbol := (((declareFunction_restores f.name f.returnLocation f.function) before
          rfl).trans hafter).symbol?_eq_none (hfree f hf hσ)
        subst hσ
        rw [declarationsOf_singleton hf rfl]
        obtain ⟨hproblems, hcounting⟩ := declareFunction_disputes hsymbol hknown
        refine ⟨?_, hcounting⟩
        rintro _ ⟨⟩ -
        exact hdisputes.trans hproblems
      · have hother : ∀ g, some f = some g → g.function.signature ≠ σ := by
          rintro _ ⟨⟩
          exact hσ
        rw [declarationsOf_singleton_eq_nil (by rw [hf]; exact hother), List.append_nil]
        refine ⟨fun g hg hgσ => absurd hgσ (hother g hg), ?_⟩
        rcases declareFunction_context f.name f.returnLocation f.function before with heq | heq
        · rw [heq, hknown]
        · rw [heq, ← hknown]
          exact Scope.function?_addFunction_of_ne _ (Ne.symm hσ)

/-- More declarations after earlier ones. -/
theorem checkInTurn_follows : ∀ (ds : List Declaration) {c : Context}
    {earlier : List FunctionDeclaration}, c.scopes.isGlobal = true →
    c.scopes.current.function? σ = (counting? earlier).map FunctionDeclaration.function →
    (∀ f ∈ declarationsOf σ (checkInTurn ds c),
      (checkDeclarations ds c).value.2.scopes.current.symbol? f.name.text = none) →
    (∀ before x after, checkInTurn ds c = before ++ x :: after →
      ∀ f, x.value.declaredFunction? = some f → f.function.signature = σ →
        disputesIn x.problems = f.disputes (earlier ++ declarationsOf σ before)) ∧
    (checkDeclarations ds c).value.2.scopes.current.function? σ =
      (counting? (earlier ++ declarationsOf σ (checkInTurn ds c))).map
        FunctionDeclaration.function
  | [], c, earlier, _, hknown, _ => by
      refine ⟨fun before x after hsplit => ?_, ?_⟩
      · cases before <;> cases hsplit
      · rw [checkInTurn, declarationsOf, List.filterMap_nil, List.filter_nil, List.append_nil]
        exact hknown
  | d :: ds, c, earlier, hc, hknown, hfree => by
      have hrest : (d.check c).value.2.Restored
          (checkDeclarations ds (d.check c).value.2).value.2 :=
        (checkDeclarations_restores ds _ rfl).toRestored
      have hfinal : (checkDeclarations (d :: ds) c).value.2 =
          (checkDeclarations ds (d.check c).value.2).value.2 := rfl
      have hglobal : (d.check c).value.2.scopes.isGlobal = true :=
        (c.balanced.declaration d).isGlobal.trans hc
      rw [hfinal, checkInTurn, declarationsOf_cons] at hfree ⊢
      obtain ⟨hfirst, hknown⟩ := (d.check_declares hc).follows hknown fun f hf hσ =>
        hrest.symbol?_eq_none (hfree f (List.mem_append_left _
          (by rw [declarationsOf_singleton hf hσ]; exact List.mem_singleton_self f)))
      obtain ⟨hothers, hlast⟩ := checkInTurn_follows ds hglobal hknown fun f hf =>
        hfree f (List.mem_append_right _ hf)
      rw [List.append_assoc] at hlast
      refine ⟨fun before x after hsplit f hf hσ => ?_, hlast⟩
      cases before with
      | nil =>
          obtain ⟨rfl, -⟩ := List.cons_eq_cons.1 hsplit
          rw [declarationsOf, List.filterMap_nil, List.filter_nil, List.append_nil]
          exact hfirst f hf hσ
      | cons y before =>
          obtain ⟨rfl, htail⟩ := List.cons_eq_cons.1 hsplit
          rw [declarationsOf_cons, ← List.append_assoc]
          exact hothers before x after htail f hf hσ

/-! ## Qualifiers of parameters -/

namespace ParameterSpec

/-- A word in front of the parameter is the qualifier. -/
def Writes (p : ParameterSpec) (q : Qualifier) : Prop :=
  ∃ word ∈ p.qualifiers, word.qualifier? = some q

/-- A parameter has the qualifiers that are written, and is an input if no direction is. -/
def Has (p : ParameterSpec) (q : Qualifier) : Prop :=
  p.Writes q ∨ q = .input ∧ ∀ direction, direction.isDirection → ¬ p.Writes direction

theorem contains_iff_has (p : ParameterSpec) (q : Qualifier) :
    p.qualifierSet.contains q = true ↔ p.Has q := by
  have hwritten : ∀ q, (Essl.qualifierSet p.qualifiers).contains q = true ↔ p.Writes q :=
    contains_qualifierSet p.qualifiers
  have hdirection : (Essl.qualifierSet p.qualifiers).members.any Qualifier.isDirection = true ↔
      ∃ direction, direction.isDirection = true ∧ p.Writes direction := by
    simp only [List.any_eq_true, ← hwritten, QualifierSet.contains, List.contains_iff_mem, and_comm]
  unfold qualifierSet Has
  extract_lets set
  split
  · rename_i hany
    obtain ⟨direction, hisDirection, hwrites⟩ := hdirection.1 hany
    rw [hwritten]
    refine ⟨.inl, fun h => h.resolve_right ?_⟩
    rintro ⟨-, hnone⟩
    exact hnone direction hisDirection hwrites
  · rename_i hnot
    have hnone : ∀ direction, direction.isDirection = true → ¬ p.Writes direction :=
      fun direction hisDirection hwrites => hnot (hdirection.2 ⟨direction, hisDirection, hwrites⟩)
    have hset : set.members.contains q = true ↔ p.Writes q := hwritten q
    rw [QualifierSet.insert, QualifierSet.contains_ofList, List.contains_cons, Bool.or_eq_true,
      beq_iff_eq, hset]
    constructor
    · rintro (hinput | hwrites)
      · exact .inr ⟨hinput, hnone⟩
      · exact .inl hwrites
    · rintro (hwrites | ⟨hinput, -⟩)
      · exact .inr hwrites
      · exact .inl hinput

/-- Parameters agree in their sets if they agree in each qualifier. -/
theorem qualifierSet_eq_iff {p p' : ParameterSpec} :
    p.qualifierSet = p'.qualifierSet ↔ ∀ q, p.Has q ↔ p'.Has q := by
  have hlisted : ∀ p : ParameterSpec, ∃ qualifiers, p.qualifierSet = .ofList qualifiers := by
    intro p
    unfold qualifierSet
    extract_lets set
    split
    · exact ⟨_, rfl⟩
    · exact ⟨_, rfl⟩
  simp only [← contains_iff_has]
  obtain ⟨qs, hqs⟩ := hlisted p
  obtain ⟨qs', hqs'⟩ := hlisted p'
  rw [hqs, hqs']
  constructor
  · intro heq q
    rw [heq]
  · intro h
    have hcontains : ∀ q, qs.contains q = qs'.contains q := fun q => by
      simpa only [QualifierSet.contains_ofList, ← Bool.eq_iff_iff] using h q
    simp only [QualifierSet.ofList, hcontains]

end ParameterSpec

/-! ## Shaders -/

/-- The declarations of one function, in the order in which a shader has them among others. -/
structure FunctionProtocol (σ : String) (checked : List (Noted Declaration)) (final : Context) :
    Prop where
  /-- What is said about a declaration as one of the function depends on those before it. -/
  disputes : ∀ before x after, checked = before ++ x :: after →
    ∀ f, x.value.declaredFunction? = some f → f.function.signature = σ →
      disputesIn x.problems = f.disputes (declarationsOf σ before)
  /-- In the end the function is known by the declaration that counts. -/
  known : final.scopes.current.function? σ =
    (counting? (declarationsOf σ checked)).map FunctionDeclaration.function

namespace Shader

/-- A function follows the protocol if its name is not that of a variable or struct as well. -/
theorem analyze_functionProtocol (shader : Shader) (stage : Stage) (order : FunctionOrder)
    (σ : String)
    (h : ∀ f ∈ declarationsOf σ (checkInTurn shader.declarations (.empty stage order)),
      (checkDeclarations shader.declarations (.empty stage order)).value.2.scopes.current.symbol?
        f.name.text = none) :
    let checked := checkInTurn shader.declarations (.empty stage order)
    let final := (checkDeclarations shader.declarations (.empty stage order)).value.2
    (shader.analyze stage order).value.declarations = checked.map Noted.value ∧
      (shader.analyze stage order).problems = checked.flatMap Noted.problems ∧
      FunctionProtocol σ checked final ∧
      ∀ p p' : ParameterSpec, p.qualifierSet = p'.qualifierSet ↔ ∀ q, p.Has q ↔ p'.Has q := by
  intro checked final
  refine ⟨checkDeclarations_value _ _, ?_, ?_, fun _ _ => ParameterSpec.qualifierSet_eq_iff⟩
  · refine (List.append_nil _).trans ?_
    exact checkDeclarations_problems _ _
  · have hnone : (Context.empty stage order).scopes.current.function? σ =
        (counting? []).map FunctionDeclaration.function := rfl
    obtain ⟨hdisputes, hknown⟩ := checkInTurn_follows shader.declarations rfl hnone h
    exact ⟨hdisputes, hknown⟩

/-- The second prototype contradicts the first one in two ways, and after the definition come a
prototype and another definition. The overload for `int` in between does not matter. -/
theorem analyze_functionProtocol_overloads :
    let shader := ofText ("float f(float a); int f(out float a); float f(int a); " ++
      "float f(float a) { return a; } float f(in float a); float f(float a) { return a; }")
    let checked := checkInTurn shader.declarations (.empty .vertex .oldestFirst)
    checked.map (·.problems.map fun e => e.cause.previous.map (·.start)) =
        [[], [some 6, some 6], [], [], [some 60], [some 60]] ∧
      FunctionProtocol "f(float)" checked
        (checkDeclarations shader.declarations (.empty .vertex .oldestFirst)).value.2 := by
  intro shader checked
  have hprotocol := analyze_functionProtocol shader .vertex .oldestFirst "f(float)"
    (by decide +kernel)
  exact ⟨by decide +kernel, hprotocol.2.2.1⟩

end Shader

end Essl
