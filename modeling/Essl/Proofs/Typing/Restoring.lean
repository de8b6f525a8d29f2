import Essl.Proofs.Typing.Disputes

/-!
# What typing leaves as it was

Statements and declarations may add names to the current scope. They close the scopes that they
open, and no others, and leave the loops and the function that they are in. Functions are declared
at file scope alone; everything else also leaves the functions of the current scope alone, and
notes no disputes about any.
-/

namespace Essl

/-! ## Contexts before and after -/

/-- The same scopes are open, around the same loops and in the same function. Only the current
scope may have changed, and what a name stands for in it as a variable or struct has not. -/
structure Context.Restored (before after : Context) : Prop where
  stage : after.stage = before.stage
  loopDepth : after.loopDepth = before.loopDepth
  returnType : after.returnType = before.returnType
  /-- The scopes around the current one, with all that is declared in them. -/
  outer : after.scopes.outer = before.scopes.outer
  kind : after.scopes.current.kind = before.scopes.current.kind
  symbols : ∀ name symbol, before.scopes.current.symbol? name = some symbol →
    after.scopes.current.symbol? name = some symbol

namespace Context.Restored

variable {a b c : Context}

theorem refl (c : Context) : c.Restored c := ⟨rfl, rfl, rfl, rfl, rfl, fun _ _ h => h⟩

theorem trans (hab : a.Restored b) (hbc : b.Restored c) : a.Restored c where
  stage := hbc.stage.trans hab.stage
  loopDepth := hbc.loopDepth.trans hab.loopDepth
  returnType := hbc.returnType.trans hab.returnType
  outer := hbc.outer.trans hab.outer
  kind := hbc.kind.trans hab.kind
  symbols name symbol h := hbc.symbols name symbol (hab.symbols name symbol h)

theorem isGlobal (h : a.Restored b) : b.scopes.isGlobal = a.scopes.isGlobal := by
  rw [Scopes.isGlobal, h.kind, Scopes.isGlobal]

/-- A name that stands for nothing has done so all along. -/
theorem symbol?_eq_none (h : a.Restored b) {name : String}
    (hname : b.scopes.current.symbol? name = none) : a.scopes.current.symbol? name = none := by
  cases hbefore : a.scopes.current.symbol? name with
  | none => rfl
  | some symbol => cases hname.symm.trans (h.symbols name symbol hbefore)

/-- The scope that was opened last can be closed, and those around it are what they were. -/
theorem pop?_of_push {kind : ScopeKind} {after : Context}
    (h : Restored { c with scopes := c.scopes.push kind } after) :
    after.scopes.pop? = some c.scopes := by
  have houter : after.scopes.outer = c.scopes.current :: c.scopes.outer := h.outer
  rw [Scopes.pop?, houter]

end Context.Restored

/-! ## Actions -/

/-- The context is restored. If `quiet` holds, the functions of the current scope have stayed the
same too, and none of the problems is a dispute. -/
structure Restoration (quiet : Prop) (before : Context) {α : Type} (result : Noted (α × Context)) :
    Prop extends before.Restored result.value.2 where
  functions : quiet → result.value.2.scopes.current.functions = before.scopes.current.functions
  undisputed : quiet → ∀ e ∈ result.problems, e.cause.isDispute = false

theorem Restoration.bind {quiet : Prop} {c : Context} {α β : Type} {x : Check α}
    {f : α → Check β} (hx : Restoration quiet c (x c))
    (hf : Restoration quiet (x c).value.2 (f (x c).value.1 (x c).value.2)) :
    Restoration quiet c ((x >>= f) c) where
  toRestored := hx.toRestored.trans hf.toRestored
  functions h := (hf.functions h).trans (hx.functions h)
  undisputed h := List.forall_mem_append.2 ⟨hx.undisputed h, hf.undisputed h⟩

/-- The action restores each context that is at file scope, or each that is not. -/
def Restores (quiet : Prop) (atFileScope : Bool) {α : Type} (x : Check α) : Prop :=
  ∀ c : Context, c.scopes.isGlobal = atFileScope → Restoration quiet c (x c)

namespace Restores

variable {α β : Type} {quiet : Prop} {g : Bool} {x : Check α} {f : α → Check β}

theorem pure {a : α} : Restores quiet g (pure a) :=
  fun c _ => ⟨.refl c, fun _ => rfl, fun _ _ he => absurd he List.not_mem_nil⟩

theorem bind (hx : Restores quiet g x) (hf : ∀ a, Restores quiet g (f a)) :
    Restores quiet g (x >>= f) := by
  intro c hc
  have hfirst := hx c hc
  exact hfirst.bind (hf _ _ (hfirst.isGlobal.trans hc))

theorem lift {x : Noted α} (hx : x.Undisputed) : Restores quiet g (liftM x : Check α) := by
  intro c _
  have heq : ((liftM x : Check α) c).problems = x.problems ++ [] := rfl
  refine ⟨.refl c, fun _ => rfl, fun _ => ?_⟩
  rw [heq, List.append_nil]
  exact hx.1

/-- The context that is looked at is at file scope or not. -/
theorem get_bind {f : Context → Check β}
    (hf : ∀ c, c.scopes.isGlobal = g → Restores quiet g (f c)) :
    Restores quiet g (get >>= f) :=
  fun c hc => hf c hc c hc

theorem first_if {p : Prop} [Decidable p] {x : Check Unit} {f : Unit → Check β}
    (hx : p → Restores quiet g x) (hf : ∀ u, Restores quiet g (f u)) :
    Restores quiet g (if p then x >>= f else f ()) := by
  split
  · rename_i hp
    exact (hx hp).bind fun u => hf u
  · exact hf ()

theorem mono {keep : Prop} (hx : Restores keep g x) (h : quiet → keep) : Restores quiet g x :=
  fun c hc => ⟨(hx c hc).toRestored, (hx c hc).functions ∘ h, (hx c hc).undisputed ∘ h⟩

/-- A change of the context that has nothing to do with scopes, loops and functions. -/
theorem change {h : Context → Context} (hrestored : ∀ c : Context, c.Restored (h c))
    (hscopes : ∀ c, (h c).scopes = c.scopes) : Restores quiet g (modify h : Check Unit) := by
  refine fun c _ => ⟨hrestored c, fun _ => ?_, fun _ _ he => absurd he List.not_mem_nil⟩
  exact congrArg (·.current.functions) (hscopes c)

theorem optional {check : α → Check α} (h : ∀ a, Restores quiet g (check a)) {o : Option α} :
    Restores quiet g (checkOptional check o) := by
  cases o with
  | none => exact pure
  | some a => exact (h a).bind fun _ => pure

end Restores

/-! ## Scopes, loops and functions -/

section

variable {α : Type} {quiet : Prop} {g : Bool} {x : Check α} {kind : ScopeKind}

/-- What is declared in a scope that an action is run in is gone afterwards. -/
theorem inScope_scopes (hkind : kind ≠ .global) (hx : Restores True false x) (c : Context) :
    (inScope kind x c).value.2.scopes = c.scopes := by
  have hinside := hx { c with scopes := c.scopes.push kind } (beq_eq_false_iff_ne.2 hkind)
  have heq : (inScope kind x c).value.2.scopes =
      (x { c with scopes := c.scopes.push kind }).value.2.scopes.pop?.getD
        (x { c with scopes := c.scopes.push kind }).value.2.scopes := rfl
  rw [heq, hinside.pop?_of_push, Option.getD_some]

namespace Restores

theorem inScope (hkind : kind ≠ .global) (hx : Restores True false x) :
    Restores quiet g (inScope kind x) := by
  intro c _
  have hinside := hx { c with scopes := c.scopes.push kind } (beq_eq_false_iff_ne.2 hkind)
  have hscopes := inScope_scopes hkind hx c
  have hproblems : (Essl.inScope kind x c).problems =
      (x { c with scopes := c.scopes.push kind }).problems ++ [] := rfl
  refine ⟨⟨hinside.stage, hinside.loopDepth, hinside.returnType, ?_, ?_, ?_⟩, fun _ => ?_,
    fun _ => ?_⟩
  · rw [hscopes]
  · rw [hscopes]
  · rw [hscopes]
    exact fun _ _ h => h
  · rw [hscopes]
  · rw [hproblems, List.append_nil]
    exact hinside.undisputed trivial

theorem inLoop (hx : Restores quiet g x) : Restores quiet g (inLoop x) := by
  intro c hc
  have hinside := hx { c with loopDepth := c.loopDepth + 1 } hc
  have hproblems : (Essl.inLoop x c).problems =
      (x { c with loopDepth := c.loopDepth + 1 }).problems ++ [] := rfl
  refine ⟨⟨hinside.stage, ?_, hinside.returnType, hinside.outer, hinside.kind, hinside.symbols⟩,
    hinside.functions, fun hquiet => ?_⟩
  · exact congrArg (· - 1) hinside.loopDepth
  · rw [hproblems, List.append_nil]
    exact hinside.undisputed hquiet

theorem inFunction (returnType : Option Ty) (hx : Restores True false x) :
    Restores quiet g (inFunction returnType x) := by
  intro c hc
  have hscoped : Restores quiet g (Essl.inScope .function x) := Restores.inScope nofun hx
  have hinside := hscoped { c with returnType } hc
  have hproblems : (Essl.inFunction returnType x c).problems =
      (Essl.inScope .function x { c with returnType }).problems ++ [] := rfl
  refine ⟨⟨hinside.stage, hinside.loopDepth, rfl, hinside.outer, hinside.kind, hinside.symbols⟩,
    hinside.functions, fun hquiet => ?_⟩
  rw [hproblems, List.append_nil]
  exact hinside.undisputed hquiet

end Restores

end

variable {quiet : Prop} {g : Bool} {c : Context} {location : Location}

/-! ## Declaring names -/

theorem run_get_bind {α : Type} (f : Context → Check α) : (get >>= f) c = f c c := rfl

/-- A name that nothing is declared as is not that of a variable or struct. -/
theorem Scope.symbol?_of_declared? {scope : Scope} {order : List Function → List Function}
    {name : String} (h : scope.declared? order name = none) : scope.symbol? name = none := by
  unfold declared? at h
  split at h
  · cases h
  · assumption

theorem Restores.declare (name : Token) (symbol : Symbol) :
    Restores quiet g (declare name symbol) := by
  intro c hc
  rw [Essl.declare, run_get_bind, Scopes.declare]
  cases hdeclared : c.scopes.current.declared? c.order.arrange name.text with
  | none =>
      refine ⟨⟨rfl, rfl, rfl, rfl, rfl, fun other found hfound => ?_⟩, fun _ => rfl,
        fun _ _ he => absurd he List.not_mem_nil⟩
      have hne : other ≠ name.text := by
        rintro rfl
        cases hfound.symm.trans (Scope.symbol?_of_declared? hdeclared)
      have hlookup : ((name.text, symbol) :: c.scopes.current.symbols).lookup other =
          c.scopes.current.symbols.lookup other := by
        rw [List.lookup_cons, beq_false_of_ne hne]
      exact hlookup.trans hfound
  | some existing =>
      have hreport : (report (.redeclaration name.text existing.kind existing.declaredAt)
          name.location).Undisputed := .report rfl
      exact Restores.lift hreport c hc

/-! ## Types and variables -/

theorem defineStruct_restores (keyword : Token) (name : Option Token) (fields : List Field) :
    Restores quiet g (defineStruct keyword name fields) :=
  fun _ _ => ⟨⟨rfl, rfl, rfl, rfl, rfl, fun _ _ h => h⟩, fun _ => rfl,
    fun _ _ he => absurd he List.not_mem_nil⟩

mutual

theorem TypeSpec.check_restores : ∀ (s : TypeSpec) {quiet : Prop} {g : Bool},
    Restores quiet g s.check
  | .named q name type, _, _ => by
      apply Restores.get_bind
      intro c _
      exact Restores.bind (.lift Context.typeNamed?_undisputed) fun _ => .pure
  | .struct q keyword name opening fields closing defined type, _, _ => by
      refine Restores.bind (.inScope nofun (checkFields_restores fields)) fun checked => ?_
      refine Restores.bind (defineStruct_restores keyword name checked.2) fun s => ?_
      split
      · exact Restores.bind (.declare _ _) fun _ => .pure
      · exact .pure

theorem checkFields_restores : ∀ (fields : List FieldSpec) {members : List Field} {quiet : Prop}
    {g : Bool}, Restores quiet g (checkFields members fields)
  | [], _, _, _ => .pure
  | ⟨type, names, semicolon⟩ :: rest, members, _, _ => by
      refine Restores.bind (TypeSpec.check_restores type) fun type => ?_
      apply Restores.get_bind
      intro c _
      refine Restores.bind (.lift (checkFieldNames_undisputed names)) fun checked => ?_
      exact Restores.bind (checkFields_restores rest) fun _ => .pure

end

theorem Declarator.check_restores (base : Option Ty) (qualifiers : QualifierSet)
    (d : Declarator) : Restores quiet g (d.check base qualifiers) := by
  apply Restores.get_bind
  intro c _
  refine Restores.bind (.lift (declaredType_undisputed d.size)) fun checked => ?_
  refine Restores.bind (.lift requireNotVoid_undisputed) fun _ => ?_
  refine Restores.bind (.lift (checkInitializer_undisputed d.initializer)) fun initializer => ?_
  exact Restores.first_if (fun _ => .lift requireConstant_undisputed)
    fun _ => .bind (.declare _ _) fun _ => .pure

theorem checkDeclarators_restores (base : Option Ty) (qualifiers : QualifierSet) :
    ∀ ds : List Declarator, Restores quiet g (checkDeclarators base qualifiers ds)
  | [] => .pure
  | d :: ds =>
      .bind (d.check_restores base qualifiers) fun _ =>
        .bind (checkDeclarators_restores base qualifiers ds) fun _ => .pure

/-! ## Function headers -/

theorem checkParameters_restores : ∀ ps : List ParameterSpec,
    Restores quiet g (checkParameters ps)
  | [] => .pure
  | p :: ps => by
      refine Restores.bind (p.typeSpec.check_restores) fun typeSpec => ?_
      apply Restores.get_bind
      intro c _
      refine Restores.bind (.lift (declaredType_undisputed p.size)) fun checked => ?_
      exact Restores.bind (checkParameters_restores ps) fun _ => .pure

/-- A declared function may be added to the current scope, and nothing else changes. -/
theorem declareFunction_context (name : Token) (returnLocation : Location) (f : Function)
    (c : Context) : (declareFunction name returnLocation f c).value.2 = c ∨
      (declareFunction name returnLocation f c).value.2 =
        { c with scopes := c.scopes.declareFunction f } := by
  rw [declareFunction, run_get_bind]
  cases hold : c.scopes.current.function? f.signature with
  | some old =>
      dsimp only
      cases old.kind <;> cases f.kind
      case definition.prototype | definition.definition | definition.builtin => exact .inl rfl
      case prototype.prototype | builtin.prototype => exact .inl rfl
      all_goals exact .inr rfl
  | none =>
      dsimp only
      cases c.scopes.current.declared? c.order.arrange name.text with
      | none => exact .inr rfl
      | some existing =>
          cases existing with
          | function _ => exact .inr rfl
          | «variable» _ | struct _ => exact .inl rfl

theorem declareFunction_restores (name : Token) (returnLocation : Location) (f : Function) :
    Restores False g (declareFunction name returnLocation f) := by
  intro c _
  have hrestored : c.Restored (declareFunction name returnLocation f c).value.2 := by
    rcases declareFunction_context name returnLocation f c with heq | heq
    · rw [heq]
      exact .refl c
    · rw [heq]
      exact ⟨rfl, rfl, rfl, rfl, rfl, fun _ _ h => h⟩
  exact ⟨hrestored, False.elim, False.elim⟩

theorem FunctionHeader.check_restores (hquiet : quiet → g = false) (kind : FunctionKind)
    (h : FunctionHeader) : Restores quiet g (h.check kind) := by
  apply Restores.get_bind
  intro c hc
  extract_lets nested typed
  have hglobal : (!nested) = true → quiet → False := by
    intro hnot h
    simp [nested, hc, hquiet h] at hnot
  refine Restores.first_if (fun _ => .lift (.report rfl)) fun _ => ?_
  refine Restores.bind h.returnType.check_restores fun s => ?_
  refine Restores.bind (checkParameters_restores h.parameters) fun ps => ?_
  extract_lets resolved typed finish
  refine Restores.bind (.lift (requireNoVoid_undisputed _)) fun _ => ?_
  split
  · extract_lets f finish
    exact Restores.first_if (fun h => (declareFunction_restores _ _ f).mono (hglobal h))
      fun _ => .pure
  · exact Restores.first_if (fun _ => .change (fun c => ⟨rfl, rfl, rfl, rfl, rfl, fun _ _ h => h⟩)
      fun _ => rfl) fun _ => .pure

theorem declareParameters_restores : ∀ ps : List ParameterSpec,
    Restores quiet g (declareParameters ps)
  | [] => .pure
  | p :: ps => by
      have hrest : ∀ q, Restores quiet g (do
          let ps ← declareParameters ps
          pure (q :: ps)) :=
        fun _ => .bind (declareParameters_restores ps) fun _ => .pure
      rw [declareParameters]
      split
      · exact hrest p
      · exact Restores.bind (.declare _ _) fun _ => hrest _

/-! ## Conditions -/

theorem Condition.check_restores (condition : Condition) :
    Restores quiet g condition.check := by
  unfold check
  extract_lets finish
  have hfinish : ∀ checked, Restores quiet g (finish checked) :=
    fun _ => .bind (.lift requireBool_undisputed) fun _ => .pure
  cases condition with
  | expression e =>
      apply Restores.get_bind
      intro c _
      exact Restores.bind (.lift (Expr.check_undisputed e)) fun _ => .bind .pure hfinish
  | declaration typeSpec d =>
      refine Restores.bind typeSpec.check_restores fun typeSpec => ?_
      exact Restores.bind (d.check_restores _ _) fun _ => .bind .pure hfinish

theorem checkCondition_restores (e : Expr) : Restores quiet g (checkCondition e) := by
  apply Restores.get_bind
  intro c _
  refine Restores.bind (.lift (Expr.check_undisputed e)) fun _ => ?_
  exact Restores.bind (.lift requireBool_undisputed) fun _ => .pure

/-! ## Loops and bodies -/

/-- The statements of a function share a scope with its parameters. -/
theorem functionBody_inside (parameters : List ParameterSpec) {body : Block}
    (hbody : Restores True false body.checkInside) : Restores True false (do
      let parameters ← declareParameters parameters
      let body ← body.checkInside
      pure (parameters, body)) :=
  .bind (declareParameters_restores parameters) fun _ => .bind hbody fun _ => .pure

/-- The parts of a `while` loop are typed in a scope of their own. -/
theorem whileLoop_inside (keyword opening : Token) (condition : Condition) (closing : Token)
    {body : Statement} (hbody : Restores True false body.check) : ∃ inside,
      (Statement.whileLoop keyword opening condition closing body).check =
        inScope .block inside ∧ Restores True false inside := by
  refine ⟨_, by rw [Statement.check], ?_⟩
  refine Restores.bind condition.check_restores fun _ => ?_
  exact Restores.bind (.inLoop hbody) fun _ => .pure

/-- So are those of a `for` loop, the first of which may declare a variable for the others. -/
theorem forLoop_inside (keyword opening : Token) (condition : Option Condition) (semicolon : Token)
    (increment : Option Expr) (closing : Token) {init body : Statement}
    (hinit : Restores True false init.check) (hbody : Restores True false body.check) : ∃ inside,
      (Statement.forLoop keyword opening init condition semicolon increment closing body).check =
        inScope .block inside ∧ Restores True false inside := by
  refine ⟨_, by rw [Statement.check], ?_⟩
  refine Restores.bind hinit fun _ => ?_
  refine Restores.bind (.optional Condition.check_restores) fun _ => ?_
  apply Restores.get_bind
  intro c _
  refine Restores.bind (.optional fun e => .lift (Expr.check_undisputed e)) fun _ => ?_
  exact Restores.bind (.inLoop hbody) fun _ => .pure

/-! ## Declarations and statements -/

/-- Prototypes and definitions of functions. -/
def Declaration.isFunction : Declaration → Bool
  | .prototype .. | .function .. => true
  | _ => false

mutual

theorem Declaration.check_restores : ∀ (d : Declaration) {quiet : Prop} {g : Bool},
    (quiet → g = false ∨ d.isFunction = false) → Restores quiet g d.check
  | .declarators s ds semicolon, _, _, _ => by
      apply Restores.get_bind
      intro c _
      refine Restores.bind (.lift (requireStorages_undisputed _)) fun _ => ?_
      refine Restores.bind s.check_restores fun s => ?_
      exact Restores.bind (checkDeclarators_restores _ _ ds) fun _ => .pure
  | .type s semicolon, _, _, _ => by
      apply Restores.get_bind
      intro c _
      refine Restores.bind (.lift (requireStorages_undisputed _)) fun _ => ?_
      exact Restores.bind s.check_restores fun _ => .pure
  | .precision keyword precision s semicolon, _, _, _ => by
      refine Restores.bind s.check_restores fun s => ?_
      split
      · exact Restores.first_if (fun _ => .lift (.report rfl)) fun _ => .pure
      · exact .pure
  | .invariants keyword ns semicolon, _, _, _ => by
      apply Restores.get_bind
      intro c _
      refine Restores.first_if (fun _ => .lift (.report rfl)) fun _ => ?_
      exact Restores.bind (.lift (checkInvariants_undisputed ns)) fun _ => .pure
  | .prototype header semicolon, _, _, hquiet => by
      have hnested := fun h => (hquiet h).resolve_right nofun
      exact Restores.bind (header.check_restores hnested .prototype) fun _ => .pure
  | .function header body, _, _, hquiet => by
      have hnested := fun h => (hquiet h).resolve_right nofun
      refine Restores.bind (header.check_restores hnested .definition) fun header => ?_
      have hbody := functionBody_inside header.parameters
        (Block.checkInside_restores body fun _ => rfl)
      exact Restores.bind (.inFunction header.returnType.type hbody) fun _ => .pure

theorem Block.checkInside_restores : ∀ (b : Block) {quiet : Prop} {g : Bool},
    (quiet → g = false) → Restores quiet g b.checkInside
  | ⟨_, statements, _, _⟩, _, _, hquiet =>
      .bind (checkStatements_restores statements hquiet) fun _ => .pure

theorem Block.check_restores : ∀ (b : Block) {quiet : Prop} {g : Bool},
    (quiet → g = false) → Restores quiet g b.check
  | ⟨_, statements, _, newScope⟩, _, _, hquiet => by
      unfold Block.check
      extract_lets finish
      split
      · have hinside : Restores True false (checkStatements statements) :=
          checkStatements_restores statements fun _ => rfl
        exact Restores.bind (.inScope nofun hinside) fun _ => .pure
      · exact Restores.bind (checkStatements_restores statements hquiet) fun _ => .pure

theorem Statement.check_restores : ∀ (s : Statement) {quiet : Prop} {g : Bool},
    (quiet → g = false) → Restores quiet g s.check
  | .declaration d, _, _, hquiet =>
      .bind (Declaration.check_restores d fun h => .inl (hquiet h)) fun _ => .pure
  | .block b, _, _, hquiet => .bind (Block.check_restores b hquiet) fun _ => .pure
  | .expression e semicolon, _, _, _ => by
      apply Restores.get_bind
      intro c _
      exact Restores.bind (.lift (Expr.check_undisputed e)) fun _ => .pure
  | .empty semicolon, _, _, _ => .pure
  | .ifThen keyword opening condition closing whenTrue, _, _, hquiet => by
      refine Restores.bind (checkCondition_restores condition) fun _ => ?_
      exact Restores.bind (Statement.check_restores whenTrue hquiet) fun _ => .pure
  | .ifElse keyword opening condition closing whenTrue otherwise whenFalse, _, _, hquiet => by
      refine Restores.bind (checkCondition_restores condition) fun _ => ?_
      refine Restores.bind (Statement.check_restores whenTrue hquiet) fun _ => ?_
      exact Restores.bind (Statement.check_restores whenFalse hquiet) fun _ => .pure
  | .whileLoop keyword opening condition closing body, _, _, _ => by
      have hbody : Restores True false body.check := Statement.check_restores body fun _ => rfl
      obtain ⟨inside, heq, hinside⟩ := whileLoop_inside keyword opening condition closing hbody
      rw [heq]
      exact .inScope nofun hinside
  | .doLoop keyword body whileWord opening condition closing semicolon, _, _, hquiet => by
      refine Restores.bind (.inLoop (Statement.check_restores body hquiet)) fun _ => ?_
      exact Restores.bind (checkCondition_restores condition) fun _ => .pure
  | .forLoop keyword opening init condition semicolon increment closing body, _, _, _ => by
      have hinit : Restores True false init.check := Statement.check_restores init fun _ => rfl
      have hbody : Restores True false body.check := Statement.check_restores body fun _ => rfl
      obtain ⟨inside, heq, hinside⟩ :=
        forLoop_inside keyword opening condition semicolon increment closing hinit hbody
      rw [heq]
      exact .inScope nofun hinside
  | .jump keyword semicolon, _, _, _ => by
      apply Restores.get_bind
      intro c _
      exact Restores.bind (.lift requireLoop_undisputed) fun _ => .pure
  | .return keyword value semicolon, _, _, _ => by
      apply Restores.get_bind
      intro c _
      refine Restores.bind (.optional fun e => .lift (Expr.check_undisputed e)) fun value => ?_
      exact Restores.bind (.lift requireReturn_undisputed) fun _ => .pure

theorem checkStatements_restores : ∀ (ss : List Statement) {quiet : Prop} {g : Bool},
    (quiet → g = false) → Restores quiet g (checkStatements ss)
  | [], _, _, _ => .pure
  | s :: ss, _, _, hquiet =>
      .bind (Statement.check_restores s hquiet) fun _ =>
        .bind (checkStatements_restores ss hquiet) fun _ => .pure

end

theorem checkDeclarations_restores : ∀ ds : List Declaration,
    Restores False g (checkDeclarations ds)
  | [] => .pure
  | d :: ds =>
      .bind (d.check_restores False.elim) fun _ =>
        .bind (checkDeclarations_restores ds) fun _ => .pure

/-! ## Balance -/

/-- After the action is done in a new scope, this is the innermost one again, and around it is what
was there before. -/
def Context.Closes (c : Context) (kind : ScopeKind) {α : Type} (x : Check α) : Prop :=
  (x { c with scopes := c.scopes.push kind }).value.2.scopes.pop? = some c.scopes

theorem Restores.closes {α : Type} {kind : ScopeKind} {x : Check α} (hkind : kind ≠ .global)
    (hx : Restores True false x) (c : Context) : c.Closes kind x := by
  have hinside := hx { c with scopes := c.scopes.push kind } (beq_eq_false_iff_ne.2 hkind)
  exact hinside.pop?_of_push

/-- Typing opens and closes scopes in pairs, so that the one of the file is never closed. -/
structure Context.Balanced (c : Context) : Prop where
  expression : ∀ e semicolon, ((Statement.expression e semicolon).check c).value.2 = c
  condition : ∀ e, (checkCondition e c).value.2 = c
  returned : ∀ keyword value semicolon,
    ((Statement.return keyword value semicolon).check c).value.2 = c
  statement : ∀ s : Statement, c.Restored (s.check c).value.2
  declaration : ∀ d : Declaration, c.Restored (d.check c).value.2
  declarations : ∀ ds : List Declaration, c.Restored (checkDeclarations ds c).value.2
  /-- What is declared in a block with a scope of its own is gone after the block. -/
  block : ∀ opening statements closing,
    (Block.check ⟨opening, statements, closing, true⟩ c).value.2.scopes = c.scopes
  whileLoop : ∀ keyword opening condition closing body,
    ((Statement.whileLoop keyword opening condition closing body).check c).value.2.scopes =
      c.scopes
  forLoop : ∀ keyword opening init condition semicolon increment closing body,
    ((Statement.forLoop keyword opening init condition semicolon increment closing body).check
      c).value.2.scopes = c.scopes
  /-- A struct has a scope for its fields. -/
  fieldsClosed : ∀ fields, c.Closes .struct (checkFields [] fields)
  blockClosed : ∀ statements, c.Closes .block (checkStatements statements)
  whileClosed : ∀ keyword opening condition closing body, ∃ inside,
    (Statement.whileLoop keyword opening condition closing body).check =
      inScope .block inside ∧ c.Closes .block inside
  forClosed : ∀ keyword opening init condition semicolon increment closing body, ∃ inside,
    (Statement.forLoop keyword opening init condition semicolon increment closing body).check =
      inScope .block inside ∧ c.Closes .block inside
  /-- A function has one for its parameters and the statements of its body. -/
  functionClosed : ∀ (parameters : List ParameterSpec) (body : Block), c.Closes .function do
    let parameters ← declareParameters parameters
    let body ← body.checkInside
    pure (parameters, body)

/-- This holds in any context and for all trees, not only for those of shaders. -/
theorem Context.balanced (c : Context) : c.Balanced := by
  have hwhile := fun keyword opening condition closing (body : Statement) =>
    whileLoop_inside keyword opening condition closing (body.check_restores fun _ => rfl)
  have hfor := fun keyword opening (init : Statement) condition semicolon increment closing
      (body : Statement) =>
    forLoop_inside keyword opening condition semicolon increment closing
      (init.check_restores fun _ => rfl) (body.check_restores fun _ => rfl)
  have hstatements : ∀ ss, Restores True false (checkStatements ss) :=
    fun ss => checkStatements_restores ss fun _ => rfl
  constructor
  case expression => exact fun _ _ => rfl
  case condition => exact fun _ => rfl
  case returned =>
    intro keyword value semicolon
    cases value <;> rfl
  case statement => exact fun s => (s.check_restores False.elim c rfl).toRestored
  case declaration => exact fun d => (d.check_restores False.elim c rfl).toRestored
  case declarations => exact fun ds => (checkDeclarations_restores ds c rfl).toRestored
  case block =>
    exact fun _ statements _ => inScope_scopes (by decide) (hstatements statements) c
  case whileLoop =>
    intro keyword opening condition closing body
    obtain ⟨inside, heq, hinside⟩ := hwhile keyword opening condition closing body
    rw [heq]
    exact inScope_scopes (by decide) hinside c
  case forLoop =>
    intro keyword opening init condition semicolon increment closing body
    obtain ⟨inside, heq, hinside⟩ :=
      hfor keyword opening init condition semicolon increment closing body
    rw [heq]
    exact inScope_scopes (by decide) hinside c
  case fieldsClosed =>
    exact fun fields => (checkFields_restores fields).closes (by decide) c
  case blockClosed => exact fun statements => (hstatements statements).closes (by decide) c
  case whileClosed =>
    intro keyword opening condition closing body
    obtain ⟨inside, heq, hinside⟩ := hwhile keyword opening condition closing body
    exact ⟨inside, heq, hinside.closes (by decide) c⟩
  case forClosed =>
    intro keyword opening init condition semicolon increment closing body
    obtain ⟨inside, heq, hinside⟩ :=
      hfor keyword opening init condition semicolon increment closing body
    exact ⟨inside, heq, hinside.closes (by decide) c⟩
  case functionClosed =>
    exact fun parameters body =>
      (functionBody_inside parameters (body.checkInside_restores fun _ => rfl)).closes (by decide) c

end Essl
