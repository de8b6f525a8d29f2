import Essl.Proofs.Grammar.ShaderParsing
import Essl.Proofs.Typing.ExprReanalysis
import Essl.Typing.Shader

/-!
# Typing shaders again

Typing a shader looks at its words and never at what typing it before has left. So it can be typed
any number of times, for any stages, and every time is like the first one if functions come in the
same order.
-/

namespace Essl

/-! ## What actions give -/

/-- Wherever the action is taken, what it gives has a property. -/
def Yields {α : Type} (action : Check α) (P : α → Prop) : Prop := ∀ c, P (action c).value.1

namespace Yields

variable {α β : Type} {P : α → Prop} {Q : β → Prop} {x : Check α} {f : α → Check β}

theorem pure {a : α} (h : P a) : Yields (pure a) P := fun _ => h

theorem bind (hx : Yields x P) (hf : ∀ a, P a → Yields (f a) Q) : Yields (x >>= f) Q :=
  fun c => hf _ (hx c) _

/-- Of the first action nothing is known. -/
theorem andThen (hf : ∀ a, Yields (f a) Q) : Yields (x >>= f) Q := fun _ => hf _ _

theorem lift {x : Noted α} (h : P x.value) : Yields (liftM x : Check α) P := fun _ => h

theorem inScope (kind : ScopeKind) (hx : Yields x P) : Yields (inScope kind x) P :=
  andThen fun _ => hx.bind fun _ ha => andThen fun _ => pure ha

theorem inLoop (hx : Yields x P) : Yields (inLoop x) P :=
  andThen fun _ => hx.bind fun _ ha => andThen fun _ => pure ha

theorem inFunction (returnType : Option Ty) (hx : Yields x P) :
    Yields (inFunction returnType x) P :=
  andThen fun _ => andThen fun _ => (hx.inScope .function).bind fun _ ha =>
    andThen fun _ => pure ha

end Yields

/-! ## Declarators -/

section

variable (c : Context) (base : Option Ty)

theorem declaredType_erase (size : Option ArraySize) :
    declaredType c base (size.map ArraySize.erase) = declaredType c base size := by
  cases size with
  | none => rfl
  | some size =>
      rw [Option.map_some, declaredType, declaredType, ArraySize.check, ArraySize.check,
        ArraySize.erase, Expr.check_erase]

theorem erase_declaredType (size : Option ArraySize) :
    (declaredType c base size).value.1.map ArraySize.erase = size.map ArraySize.erase := by
  cases size with
  | none => rfl
  | some size => simp [declaredType, ArraySize.check, ArraySize.erase, Expr.erase_check]

/-- Only of names without initial values: those of fields are left as they are. -/
theorem checkFieldNames_erase : ∀ (fields : List Field) (ds : List Declarator),
    (∀ d ∈ ds.map Declarator.erase, d.initializer = none) →
      checkFieldNames c base fields (ds.map Declarator.erase) = checkFieldNames c base fields ds
  | _, [], _ => rfl
  | fields, d :: ds, h => by
      have hd : d.initializer = none := by
        simpa [Declarator.erase] using h d.erase (List.mem_cons_self)
      have hrest : ∀ fields, checkFieldNames c base fields (ds.map Declarator.erase) =
          checkFieldNames c base fields ds :=
        fun fields => checkFieldNames_erase fields ds fun e he => h e (List.mem_cons_of_mem _ he)
      simp only [List.map_cons, checkFieldNames, Declarator.erase, declaredType_erase, hrest, hd,
        Option.map_none]

theorem erase_checkFieldNames : ∀ (fields : List Field) (ds : List Declarator),
    (checkFieldNames c base fields ds).value.1.map Declarator.erase = ds.map Declarator.erase
  | _, [] => rfl
  | fields, d :: ds => by
      rw [checkFieldNames]
      simp only [Noted.value_bind]
      split
      · simp [Declarator.erase, erase_declaredType, erase_checkFieldNames _ ds]
      · simp [Declarator.erase, erase_declaredType, erase_checkFieldNames _ ds]

theorem checkInitializer_erase (initializer : Option Expr) :
    checkInitializer c base (initializer.map Expr.erase) = checkInitializer c base initializer := by
  cases initializer with
  | none => rfl
  | some e => rw [Option.map_some, checkInitializer, checkInitializer, Expr.check_erase]

theorem erase_checkInitializer (initializer : Option Expr) :
    (checkInitializer c base initializer).value.map Expr.erase = initializer.map Expr.erase := by
  cases initializer with
  | none => rfl
  | some e => simp [checkInitializer, Expr.erase_check]

end

section

variable (base : Option Ty) (qualifiers : QualifierSet)

theorem Declarator.check_erase (d : Declarator) :
    d.erase.check base qualifiers = d.check base qualifiers := by
  simp only [check, erase, declaredType_erase, checkInitializer_erase, requireConstant]

theorem Declarator.erase_check (d : Declarator) :
    Yields (d.check base qualifiers) fun d' => d'.erase = d.erase := by
  have hsize : ∀ c, Yields (declaredType c base d.size : Check _) fun sized =>
      sized.1.map ArraySize.erase = d.size.map ArraySize.erase :=
    fun c => Yields.lift (erase_declaredType c base d.size)
  have hinitializer : ∀ c type, Yields (checkInitializer c type d.initializer : Check _) fun e =>
      e.map Expr.erase = d.initializer.map Expr.erase :=
    fun c type => Yields.lift (erase_checkInitializer c type d.initializer)
  refine Yields.andThen fun c => (hsize c).bind fun sized hsized => Yields.andThen fun _ => ?_
  refine (hinitializer c sized.2).bind fun e he => ?_
  have herase : ∀ (type : Option Ty) (symbol : Option Variable),
      erase ⟨d.name, sized.1, e, type, symbol⟩ = d.erase := by
    simp [erase, hsized, he]
  split
  · exact Yields.andThen fun _ => Yields.andThen fun _ => Yields.pure (herase ..)
  · exact Yields.andThen fun _ => Yields.pure (herase ..)

theorem checkDeclarators_erase : ∀ ds : List Declarator,
    checkDeclarators base qualifiers (ds.map Declarator.erase) =
      checkDeclarators base qualifiers ds
  | [] => rfl
  | d :: ds => by
      simp only [List.map_cons, checkDeclarators, Declarator.check_erase,
        checkDeclarators_erase ds]

theorem erase_checkDeclarators : ∀ ds : List Declarator,
    Yields (checkDeclarators base qualifiers ds) fun ds' =>
      ds'.map Declarator.erase = ds.map Declarator.erase
  | [] => Yields.pure rfl
  | d :: ds => (d.erase_check base qualifiers).bind fun _ hd =>
      (erase_checkDeclarators ds).bind fun _ hds => Yields.pure (by simp [hd, hds])

end

/-! ## Types -/

mutual

/-- No field of a struct in the type has an initial value. -/
def TypeSpec.FieldsBare : TypeSpec → Prop
  | .named .. => True
  | .struct _ _ _ _ fields _ _ _ => FieldSpec.AllBare fields

/-- No field of the declarations has an initial value. -/
def FieldSpec.AllBare : List FieldSpec → Prop
  | [] => True
  | ⟨type, names, _⟩ :: rest =>
    type.FieldsBare ∧ (∀ d ∈ names, d.initializer = none) ∧ FieldSpec.AllBare rest

end

mutual

theorem TypeSpec.check_erase : ∀ s : TypeSpec, s.erase.FieldsBare → s.erase.check = s.check
  | .named .., _ => rfl
  | .struct q keyword name opening fields closing _ _, h => by
      rw [TypeSpec.erase, TypeSpec.check, TypeSpec.check, checkFields_eraseAll fields h]

theorem checkFields_eraseAll : ∀ (fields : List FieldSpec),
    FieldSpec.AllBare (FieldSpec.eraseAll fields) → ∀ members : List Field,
      checkFields members (FieldSpec.eraseAll fields) = checkFields members fields
  | [], _, _ => rfl
  | ⟨type, names, semicolon⟩ :: rest, h, members => by
      have hnames := fun c base members => checkFieldNames_erase c base members names h.2.1
      simp only [FieldSpec.eraseAll, checkFields, TypeSpec.check_erase type h.1, hnames,
        checkFields_eraseAll rest h.2.2]

end

mutual

theorem TypeSpec.erase_check : ∀ s : TypeSpec, Yields s.check fun s' => s'.erase = s.erase
  | .named .. => Yields.andThen fun _ => Yields.andThen fun _ => Yields.pure rfl
  | .struct q keyword name opening fields closing _ _ => by
      refine ((eraseAll_checkFields fields []).inScope .struct).bind fun checked hfields => ?_
      refine Yields.andThen fun _ => ?_
      have herase : ∀ (defined : Option StructDef) (type : Option Ty), TypeSpec.erase
          (.struct q keyword name opening checked.1 closing defined type) =
          .struct q keyword name opening (FieldSpec.eraseAll fields) closing none none := by
        simp [TypeSpec.erase, hfields]
      split
      · exact Yields.andThen fun _ => Yields.pure (herase ..)
      · exact Yields.pure (herase ..)

theorem eraseAll_checkFields : ∀ (fields : List FieldSpec) (members : List Field),
    Yields (checkFields members fields) fun r =>
      FieldSpec.eraseAll r.1 = FieldSpec.eraseAll fields
  | [], _ => Yields.pure rfl
  | ⟨type, names, semicolon⟩ :: rest, members => by
      have hnames : ∀ c base, Yields (checkFieldNames c base members names : Check _) fun named =>
          named.1.map Declarator.erase = names.map Declarator.erase :=
        fun c base => Yields.lift (erase_checkFieldNames c base members names)
      refine (TypeSpec.erase_check type).bind fun s hs => Yields.andThen fun c => ?_
      refine (hnames c s.type).bind fun named hnamed => ?_
      refine (eraseAll_checkFields rest named.2).bind fun others hrest => Yields.pure ?_
      simp [FieldSpec.eraseAll, hs, hnamed, hrest]

end

/-! ## Function headers -/

theorem checkParameters_erase : ∀ ps : List ParameterSpec,
    (∀ p ∈ ps, p.typeSpec.erase.FieldsBare) →
      checkParameters (ps.map ParameterSpec.erase) = checkParameters ps
  | [], _ => rfl
  | p :: ps, h => by
      have hp := h p List.mem_cons_self
      have hps := checkParameters_erase ps fun q hq => h q (List.mem_cons_of_mem p hq)
      simp only [List.map_cons, checkParameters, ParameterSpec.erase, TypeSpec.check_erase _ hp,
        declaredType_erase, hps]

theorem erase_checkParameters : ∀ ps : List ParameterSpec,
    Yields (checkParameters ps) fun ps' =>
      ps'.map ParameterSpec.erase = ps.map ParameterSpec.erase
  | [] => Yields.pure rfl
  | p :: ps => by
      have hsize : ∀ c base, Yields (declaredType c base p.size : Check _) fun sized =>
          sized.1.map ArraySize.erase = p.size.map ArraySize.erase :=
        fun c base => Yields.lift (erase_declaredType c base p.size)
      refine (p.typeSpec.erase_check).bind fun s hs => Yields.andThen fun c => ?_
      refine (hsize c s.type).bind fun sized hsized => ?_
      refine (erase_checkParameters ps).bind fun ps' hps => Yields.pure ?_
      simp [ParameterSpec.erase, hs, hsized, hps]

theorem erase_declareParameters : ∀ ps : List ParameterSpec,
    Yields (declareParameters ps) fun ps' =>
      ps'.map ParameterSpec.erase = ps.map ParameterSpec.erase
  | [] => Yields.pure rfl
  | p :: ps => by
      have hps := erase_declareParameters ps
      rw [declareParameters]
      split
      · exact hps.bind fun _ h => Yields.pure (by simp [h])
      · exact Yields.andThen fun _ => hps.bind fun _ h => Yields.pure
          (by simp [ParameterSpec.erase, h])

namespace FunctionHeader

/-- No field of a struct in the types of the header has an initial value. -/
def FieldsBare (h : FunctionHeader) : Prop :=
  h.returnType.FieldsBare ∧ ∀ p ∈ h.parameters, p.typeSpec.FieldsBare

variable (kind : FunctionKind) (h : FunctionHeader)

theorem check_erase (hbare : h.erase.FieldsBare) : h.erase.check kind = h.check kind := by
  have hparameters : ∀ p ∈ h.parameters, p.typeSpec.erase.FieldsBare :=
    fun p hp => hbare.2 p.erase (List.mem_map_of_mem hp)
  simp only [check, erase, TypeSpec.check_erase _ hbare.1, checkParameters_erase _ hparameters]

theorem erase_check : Yields (h.check kind) fun h' => h'.erase = h.erase := by
  refine Yields.andThen fun c => ?_
  extract_lets nested typed
  have htyped : ∀ u, Yields (typed u) fun h' => h'.erase = h.erase := by
    intro u
    refine (h.returnType.erase_check).bind fun s hs => ?_
    refine (erase_checkParameters h.parameters).bind fun ps hps => Yields.andThen fun _ => ?_
    have herase : ∀ symbol : Option Function,
        erase ⟨s, h.name, h.opening, ps, h.closing, symbol⟩ = h.erase := by
      simp [erase, hs, hps]
    split
    · split
      · exact Yields.andThen fun _ => Yields.pure (herase _)
      · exact Yields.pure (herase _)
    · split
      · exact Yields.andThen fun _ => Yields.pure (herase _)
      · exact Yields.pure (herase _)
  split
  · exact Yields.andThen htyped
  · exact htyped ()

end FunctionHeader

/-! ## Conditions -/

section

variable {α : Type} {check : α → Check α} {erase : α → α}

theorem checkOptional_map {o : Option α} (h : ∀ a ∈ o, check (erase a) = check a) :
    checkOptional check (o.map erase) = checkOptional check o := by
  cases o with
  | none => rfl
  | some a => rw [Option.map_some, checkOptional, checkOptional, h a rfl]

theorem map_checkOptional {o : Option α}
    (h : ∀ a ∈ o, Yields (check a) fun a' => erase a' = erase a) :
    Yields (checkOptional check o) fun o' => o'.map erase = o.map erase := by
  cases o with
  | none => exact Yields.pure rfl
  | some a => exact (h a rfl).bind fun _ ha => Yields.pure (by simp [ha])

end

theorem Expr.yields_check (c : Context) (e : Expr) :
    Yields (e.check c : Check Expr) fun e' => e'.erase = e.erase := Yields.lift (e.erase_check c)

theorem checkOptional_erase (c : Context) (e : Option Expr) :
    checkOptional (fun e => (e.check c : Noted Expr)) (e.map Expr.erase) =
      checkOptional (fun e => (e.check c : Noted Expr)) e :=
  checkOptional_map fun e _ => by rw [e.check_erase]

theorem erase_checkOptional (c : Context) (e : Option Expr) :
    Yields (checkOptional (fun e => (e.check c : Noted Expr)) e) fun e' =>
      e'.map Expr.erase = e.map Expr.erase :=
  map_checkOptional fun e _ => e.yields_check c

theorem checkCondition_erase (e : Expr) : checkCondition e.erase = checkCondition e := by
  simp only [checkCondition, Expr.check_erase]

theorem erase_checkCondition (e : Expr) :
    Yields (checkCondition e) fun e' => e'.erase = e.erase :=
  Yields.andThen fun c => (e.yields_check c).bind fun _ he => Yields.andThen fun _ => Yields.pure he

namespace Condition

/-- No field of a struct in the condition has an initial value. -/
def FieldsBare : Condition → Prop
  | .expression _ => True
  | .declaration typeSpec _ => typeSpec.FieldsBare

theorem check_erase (condition : Condition) (h : condition.erase.FieldsBare) :
    condition.erase.check = condition.check := by
  cases condition with
  | expression e => simp only [check, erase, Expr.check_erase]
  | declaration s d => simp only [check, erase, TypeSpec.check_erase s h, Declarator.check_erase]

theorem erase_check (condition : Condition) :
    Yields condition.check fun condition' => condition'.erase = condition.erase := by
  have hcondition : ∀ {pair : Condition × Option Ty}, pair.1.erase = condition.erase →
      Yields (Pure.pure pair) fun pair => pair.1.erase = condition.erase := Yields.pure
  cases condition with
  | expression e =>
      refine Yields.andThen fun c => (e.yields_check c).bind fun e' he => ?_
      exact (hcondition (by rw [erase, erase, he])).bind fun _ h =>
        Yields.andThen fun _ => Yields.pure h
  | declaration s d =>
      refine (s.erase_check).bind fun s' hs => (d.erase_check _ _).bind fun d' hd => ?_
      exact (hcondition (by rw [erase, erase, hs, hd])).bind fun _ h =>
        Yields.andThen fun _ => Yields.pure h

end Condition

/-! ## Declarations and statements -/

theorem checkInvariants_erase (c : Context) : ∀ names : List InvariantName,
    checkInvariants c (names.map InvariantName.erase) = checkInvariants c names
  | [] => rfl
  | n :: ns => by
      rw [List.map_cons, checkInvariants, checkInvariants, checkInvariants_erase c ns,
        InvariantName.erase]

theorem erase_checkInvariants (c : Context) : ∀ names : List InvariantName,
    (checkInvariants c names).value.map InvariantName.erase = names.map InvariantName.erase
  | [] => rfl
  | n :: ns => by simp [checkInvariants, InvariantName.erase, erase_checkInvariants c ns]

mutual

/-- No field of a struct in the declaration has an initial value. -/
def Declaration.FieldsBare : Declaration → Prop
  | .declarators typeSpec _ _ | .type typeSpec _ | .precision _ _ typeSpec _ =>
    typeSpec.FieldsBare
  | .invariants .. => True
  | .prototype header _ => header.FieldsBare
  | .function header body => header.FieldsBare ∧ body.FieldsBare

/-- No field of a struct in the block has an initial value. -/
def Block.FieldsBare : Block → Prop
  | ⟨_, statements, _, _⟩ => Statement.AllBare statements

/-- No field of a struct in the statement has an initial value. -/
def Statement.FieldsBare : Statement → Prop
  | .declaration d => d.FieldsBare
  | .block b => b.FieldsBare
  | .ifThen _ _ _ _ whenTrue => whenTrue.FieldsBare
  | .ifElse _ _ _ _ whenTrue _ whenFalse => whenTrue.FieldsBare ∧ whenFalse.FieldsBare
  | .whileLoop _ _ condition _ body => condition.FieldsBare ∧ body.FieldsBare
  | .doLoop _ body _ _ _ _ _ => body.FieldsBare
  | .forLoop _ _ init condition _ _ _ body =>
    init.FieldsBare ∧ (∀ c ∈ condition, c.FieldsBare) ∧ body.FieldsBare
  | .expression .. | .empty _ | .jump .. | .return .. => True

/-- No field of a struct in the statements has an initial value. -/
def Statement.AllBare : List Statement → Prop
  | [] => True
  | s :: ss => s.FieldsBare ∧ Statement.AllBare ss

end

mutual

theorem Declaration.check_erase : ∀ d : Declaration, d.erase.FieldsBare →
    d.erase.check = d.check
  | .declarators s ds semicolon, h => by
      have hs : s.erase.qualifiers = s.qualifiers := by cases s <;> rfl
      simp only [Declaration.erase, Declaration.check, TypeSpec.check_erase s h, hs,
        checkDeclarators_erase]
  | .type s semicolon, h => by
      have hs : s.erase.qualifiers = s.qualifiers := by cases s <;> rfl
      simp only [Declaration.erase, Declaration.check, TypeSpec.check_erase s h, hs]
  | .precision keyword precision s semicolon, h => by
      simp only [Declaration.erase, Declaration.check, TypeSpec.check_erase s h]
  | .invariants keyword names semicolon, _ => by
      simp only [Declaration.erase, Declaration.check, checkInvariants_erase]
  | .prototype header semicolon, h => by
      simp only [Declaration.erase, Declaration.check, FunctionHeader.check_erase _ header h]
  | .function header body, h => by
      simp only [Declaration.erase, Declaration.check, FunctionHeader.check_erase _ header h.1,
        Block.checkInside_erase body h.2]

theorem Block.checkInside_erase : ∀ b : Block, b.erase.FieldsBare →
    b.erase.checkInside = b.checkInside
  | ⟨opening, statements, closing, newScope⟩, h => by
      simp only [Block.erase, Block.checkInside, checkStatements_eraseAll statements h]

theorem Block.check_erase : ∀ b : Block, b.erase.FieldsBare → b.erase.check = b.check
  | ⟨opening, statements, closing, newScope⟩, h => by
      simp only [Block.erase, Block.check, checkStatements_eraseAll statements h]

theorem Statement.check_erase : ∀ s : Statement, s.erase.FieldsBare → s.erase.check = s.check
  | .declaration d, h => by
      simp only [Statement.erase, Statement.check, Declaration.check_erase d h]
  | .block b, h => by simp only [Statement.erase, Statement.check, Block.check_erase b h]
  | .expression e semicolon, _ => by
      simp only [Statement.erase, Statement.check, Expr.check_erase]
  | .empty semicolon, _ => rfl
  | .ifThen keyword opening condition closing whenTrue, h => by
      simp only [Statement.erase, Statement.check, checkCondition_erase,
        Statement.check_erase whenTrue h]
  | .ifElse keyword opening condition closing whenTrue otherwise whenFalse, h => by
      simp only [Statement.erase, Statement.check, checkCondition_erase,
        Statement.check_erase whenTrue h.1, Statement.check_erase whenFalse h.2]
  | .whileLoop keyword opening condition closing body, h => by
      simp only [Statement.erase, Statement.check, Condition.check_erase condition h.1,
        Statement.check_erase body h.2]
  | .doLoop keyword body whileWord opening condition closing semicolon, h => by
      simp only [Statement.erase, Statement.check, checkCondition_erase,
        Statement.check_erase body h]
  | .forLoop keyword opening init condition semicolon increment closing body, h => by
      have hcondition : ∀ c ∈ condition, c.erase.check = c.check :=
        fun c hc => c.check_erase (h.2.1 c.erase (by simpa using ⟨c, hc, rfl⟩))
      simp only [Statement.erase, Statement.check, Statement.check_erase init h.1,
        checkOptional_map hcondition, checkOptional_erase, Statement.check_erase body h.2.2]
  | .jump keyword semicolon, _ => rfl
  | .return keyword value semicolon, _ => by
      simp only [Statement.erase, Statement.check, checkOptional_erase]

theorem checkStatements_eraseAll : ∀ ss : List Statement,
    Statement.AllBare (Statement.eraseAll ss) →
      checkStatements (Statement.eraseAll ss) = checkStatements ss
  | [], _ => rfl
  | s :: ss, h => by
      simp only [Statement.eraseAll, checkStatements, Statement.check_erase s h.1,
        checkStatements_eraseAll ss h.2]

end

mutual

theorem Declaration.erase_check : ∀ d : Declaration, Yields d.check fun d' => d'.erase = d.erase
  | .declarators s ds semicolon => by
      refine Yields.andThen fun _ => Yields.andThen fun _ => (s.erase_check).bind fun s' hs => ?_
      refine (erase_checkDeclarators s'.type s'.qualifiers.set ds).bind fun ds' hds => ?_
      exact Yields.pure (by simp [Declaration.erase, hs, hds])
  | .type s semicolon => by
      refine Yields.andThen fun _ => Yields.andThen fun _ => (s.erase_check).bind fun s' hs => ?_
      exact Yields.pure (by simp [Declaration.erase, hs])
  | .precision keyword precision s semicolon => by
      refine (s.erase_check).bind fun s' hs => ?_
      have herase : (Declaration.precision keyword precision s' semicolon).erase =
          (Declaration.precision keyword precision s semicolon).erase := by
        simp [Declaration.erase, hs]
      split
      · split
        · exact Yields.andThen fun _ => Yields.pure herase
        · exact Yields.pure herase
      · exact Yields.pure herase
  | .invariants keyword names semicolon => by
      have hnames : ∀ c, Yields (checkInvariants c names : Check _) fun names' =>
          names'.map InvariantName.erase = names.map InvariantName.erase :=
        fun c => Yields.lift (erase_checkInvariants c names)
      refine Yields.andThen fun c => ?_
      extract_lets resolved
      have hresolved : ∀ u, Yields (resolved u) fun d =>
          d.erase = (Declaration.invariants keyword names semicolon).erase :=
        fun _ => (hnames c).bind fun _ h => Yields.pure (by simp [Declaration.erase, h])
      split
      · exact Yields.andThen hresolved
      · exact hresolved ()
  | .prototype header semicolon => by
      refine (header.erase_check .prototype).bind fun header' hheader => ?_
      exact Yields.pure (by simp [Declaration.erase, hheader])
  | .function header body => by
      refine (header.erase_check .definition).bind fun header' hheader => ?_
      have hinside : Yields (do
          let parameters ← declareParameters header'.parameters
          let body ← body.checkInside
          pure (parameters, body)) fun inside =>
            inside.1.map ParameterSpec.erase = header'.parameters.map ParameterSpec.erase ∧
              inside.2.erase = body.erase := by
        refine (erase_declareParameters header'.parameters).bind fun _ hparameters => ?_
        refine (Block.erase_checkInside body).bind fun _ hbody => Yields.pure ?_
        exact ⟨hparameters, hbody⟩
      refine (hinside.inFunction _).bind fun inside ⟨hparameters, hbody⟩ => Yields.pure ?_
      rw [Declaration.erase, Declaration.erase, hbody, ← hheader]
      simp [FunctionHeader.erase, hparameters]

theorem Block.erase_checkInside : ∀ b : Block, Yields b.checkInside fun b' => b'.erase = b.erase
  | ⟨opening, statements, closing, newScope⟩ => by
      refine (eraseAll_checkStatements statements).bind fun statements' h => ?_
      exact Yields.pure (by simp [Block.erase, h])

theorem Block.erase_check : ∀ b : Block, Yields b.check fun b' => b'.erase = b.erase
  | ⟨opening, statements, closing, true⟩ => by
      refine ((eraseAll_checkStatements statements).inScope .block).bind fun statements' h => ?_
      exact Yields.pure (by simp [Block.erase, h])
  | ⟨opening, statements, closing, false⟩ => by
      refine (eraseAll_checkStatements statements).bind fun statements' h => ?_
      exact Yields.pure (by simp [Block.erase, h])

theorem Statement.erase_check : ∀ s : Statement, Yields s.check fun s' => s'.erase = s.erase
  | .declaration d => by
      refine (Declaration.erase_check d).bind fun d' hd => ?_
      exact Yields.pure (by simp [Statement.erase, hd])
  | .block b => by
      refine (Block.erase_check b).bind fun b' hb => ?_
      exact Yields.pure (by simp [Statement.erase, hb])
  | .expression e semicolon => by
      refine Yields.andThen fun c => (e.yields_check c).bind fun e' he => ?_
      exact Yields.pure (by simp [Statement.erase, he])
  | .empty semicolon => Yields.pure rfl
  | .ifThen keyword opening condition closing whenTrue => by
      refine (erase_checkCondition condition).bind fun condition' hcondition => ?_
      refine (Statement.erase_check whenTrue).bind fun whenTrue' htrue => ?_
      exact Yields.pure (by simp [Statement.erase, hcondition, htrue])
  | .ifElse keyword opening condition closing whenTrue otherwise whenFalse => by
      refine (erase_checkCondition condition).bind fun condition' hcondition => ?_
      refine (Statement.erase_check whenTrue).bind fun whenTrue' htrue => ?_
      refine (Statement.erase_check whenFalse).bind fun whenFalse' hfalse => ?_
      exact Yields.pure (by simp [Statement.erase, hcondition, htrue, hfalse])
  | .whileLoop keyword opening condition closing body => by
      refine Yields.inScope .block (condition.erase_check.bind fun condition' hcondition => ?_)
      refine (Statement.erase_check body).inLoop.bind fun body' hbody => ?_
      exact Yields.pure (by simp [Statement.erase, hcondition, hbody])
  | .doLoop keyword body whileWord opening condition closing semicolon => by
      refine (Statement.erase_check body).inLoop.bind fun body' hbody => ?_
      refine (erase_checkCondition condition).bind fun condition' hcondition => ?_
      exact Yields.pure (by simp [Statement.erase, hcondition, hbody])
  | .forLoop keyword opening init condition semicolon increment closing body => by
      have hconditions := map_checkOptional (o := condition) fun c _ => c.erase_check
      refine Yields.inScope .block ((Statement.erase_check init).bind fun init' hinit => ?_)
      refine hconditions.bind fun condition' hcondition => Yields.andThen fun c => ?_
      refine (erase_checkOptional c increment).bind fun increment' hincrement => ?_
      refine (Statement.erase_check body).inLoop.bind fun body' hbody => ?_
      exact Yields.pure (by simp [Statement.erase, hinit, hcondition, hincrement, hbody])
  | .jump keyword semicolon => Yields.andThen fun _ => Yields.andThen fun _ => Yields.pure rfl
  | .return keyword value semicolon => by
      refine Yields.andThen fun c => (erase_checkOptional c value).bind fun value' hvalue => ?_
      exact Yields.andThen fun _ => Yields.pure (by simp [Statement.erase, hvalue])

theorem eraseAll_checkStatements : ∀ ss : List Statement,
    Yields (checkStatements ss) fun ss' => Statement.eraseAll ss' = Statement.eraseAll ss
  | [] => Yields.pure rfl
  | s :: ss => by
      refine (Statement.erase_check s).bind fun s' hs => ?_
      refine (eraseAll_checkStatements ss).bind fun ss' hss => ?_
      exact Yields.pure (by simp [Statement.eraseAll, hs, hss])

end

/-! ## Fields of parsed shaders -/

mutual

theorem TypeSpec.CoreFormed.fieldsBare : ∀ {s : TypeSpec}, s.CoreFormed → s.erase.FieldsBare
  | .named .., _ => trivial
  | .struct .., h => FieldSpec.AllFormed.allBare h.2.2.2.2.1

theorem FieldSpec.AllFormed.allBare : ∀ {fields : List FieldSpec}, FieldSpec.AllFormed fields →
    FieldSpec.AllBare (FieldSpec.eraseAll fields)
  | [], _ => trivial
  | ⟨type, names, semicolon⟩ :: rest, ⟨_, hcore, _, hnames, _, hrest⟩ => by
      have hbare : ∀ d ∈ names.map Declarator.erase, d.initializer = none := by
        intro erased herased
        obtain ⟨d, hd, rfl⟩ := List.mem_map.1 herased
        rw [Declarator.erase, (hnames d hd).2]
        rfl
      exact ⟨TypeSpec.CoreFormed.fieldsBare hcore, hbare, FieldSpec.AllFormed.allBare hrest⟩

end

theorem FunctionHeader.WellFormed.fieldsBare {h : FunctionHeader} (hh : h.WellFormed) :
    h.erase.FieldsBare := by
  refine ⟨hh.1.2.fieldsBare, ?_⟩
  intro erased herased
  obtain ⟨p, hp, rfl⟩ := List.mem_map.1 herased
  exact (hh.2.2.2.1 p hp).2.1.2.fieldsBare

theorem Condition.WellFormed.fieldsBare {c : Condition} (h : c.WellFormed) :
    c.erase.FieldsBare := by
  cases c with
  | expression e => trivial
  | declaration s d => exact h.1.2.fieldsBare

mutual

theorem Declaration.WellFormed.fieldsBare : ∀ {d : Declaration}, d.WellFormed →
    d.erase.FieldsBare
  | .declarators .., h => h.1.2.fieldsBare
  | .type .., h => h.1.2.fieldsBare
  | .precision .., h => h.2.2.1.2.fieldsBare
  | .invariants .., _ => trivial
  | .prototype .., h => h.1.fieldsBare
  | .function .., h => ⟨FunctionHeader.WellFormed.fieldsBare h.1, Block.WellFormed.fieldsBare h.2⟩

theorem Block.WellFormed.fieldsBare : ∀ {b : Block} {ownScope : Bool}, b.WellFormed ownScope →
    b.erase.FieldsBare
  | ⟨_, _, _, _⟩, _, h => Statement.AllFormed.allBare h.2.1

theorem Statement.WellFormed.fieldsBare : ∀ {s : Statement} {ownScope : Bool},
    s.WellFormed ownScope → s.erase.FieldsBare
  | .declaration _, _, h => Declaration.WellFormed.fieldsBare h.1
  | .block _, _, h => Block.WellFormed.fieldsBare h
  | .expression .., _, _ => trivial
  | .empty _, _, _ => trivial
  | .ifThen _ _ _ _ whenTrue, _, h =>
      Statement.WellFormed.fieldsBare (s := whenTrue) h.2.2.2.2
  | .ifElse .., _, ⟨_, _, _, _, htrue, _, _, hfalse⟩ =>
      ⟨Statement.WellFormed.fieldsBare htrue, Statement.WellFormed.fieldsBare hfalse⟩
  | .whileLoop .., _, ⟨_, _, hcondition, _, hbody⟩ =>
      ⟨hcondition.fieldsBare, Statement.WellFormed.fieldsBare hbody⟩
  | .doLoop _ body .., _, h => Statement.WellFormed.fieldsBare (s := body) h.2.1
  | .forLoop .., _, ⟨_, _, hinit, _, hcondition, _, _, _, hbody⟩ => by
      refine ⟨Statement.WellFormed.fieldsBare hinit, ?_, Statement.WellFormed.fieldsBare hbody⟩
      intro erased herased
      obtain ⟨c, hc, rfl⟩ := Option.map_eq_some_iff.1 herased
      exact (hcondition c hc).fieldsBare
  | .jump .., _, _ => trivial
  | .return .., _, _ => trivial

theorem Statement.AllFormed.allBare : ∀ {ss : List Statement}, Statement.AllFormed ss →
    Statement.AllBare (Statement.eraseAll ss)
  | [], _ => trivial
  | _ :: _, h => ⟨Statement.WellFormed.fieldsBare h.1, Statement.AllFormed.allBare h.2⟩

end

/-! ## Shaders -/

theorem checkDeclarations_erase : ∀ ds : List Declaration,
    (∀ d ∈ ds.map Declaration.erase, d.FieldsBare) →
      checkDeclarations (ds.map Declaration.erase) = checkDeclarations ds
  | [], _ => rfl
  | d :: ds, h => by
      have hd := d.check_erase (h d.erase List.mem_cons_self)
      have hds := checkDeclarations_erase ds fun e he => h e (List.mem_cons_of_mem _ he)
      simp only [List.map_cons, checkDeclarations, hd, hds]

theorem erase_checkDeclarations : ∀ ds : List Declaration,
    Yields (checkDeclarations ds) fun ds' => ds'.map Declaration.erase = ds.map Declaration.erase
  | [] => Yields.pure rfl
  | d :: ds => (d.erase_check).bind fun _ hd =>
      (erase_checkDeclarations ds).bind fun _ hds => Yields.pure (by simp [hd, hds])

namespace Shader

/-- No field of a struct has an initial value, which typing would leave as it is. -/
def FieldsBare (shader : Shader) : Prop := ∀ d ∈ shader.erase.declarations, d.FieldsBare

theorem parsed_fieldsBare (tokens : List Token) :
    (Grammar.parseShader tokens).shader.FieldsBare := by
  intro erased herased
  obtain ⟨d, hd, rfl⟩ := List.mem_map.1 herased
  exact (Grammar.parseShader_wellFormed tokens d hd).fieldsBare

variable {shader : Shader}

theorem analyze_erase (h : shader.FieldsBare) (stage : Stage) (order : FunctionOrder) :
    shader.erase.analyze stage order = shader.analyze stage order := by
  rw [analyze, analyze, erase, checkDeclarations_erase _ h]

theorem erase_analyze (shader : Shader) (stage : Stage) (order : FunctionOrder) :
    (shader.analyze stage order).value.erase = shader.erase :=
  congrArg Shader.mk (erase_checkDeclarations shader.declarations (.empty stage order))

/-- Analyses of a shader, one after the other, for a stage and in an order each. -/
def analyzeAll (shader : Shader) (passes : List (Stage × FunctionOrder)) : Shader :=
  passes.foldl (fun shader pass => (shader.analyze pass.1 pass.2).value) shader

theorem erase_analyzeAll (shader : Shader) (passes : List (Stage × FunctionOrder)) :
    (shader.analyzeAll passes).erase = shader.erase := by
  induction passes generalizing shader with
  | nil => rfl
  | cons pass passes ih => exact (ih _).trans (shader.erase_analyze pass.1 pass.2)

/-- Typing looks at no annotations, those of earlier analyses included. -/
theorem analyze_analyzeAll (h : shader.FieldsBare) (passes : List (Stage × FunctionOrder))
    (stage : Stage) (order : FunctionOrder) :
    (shader.analyzeAll passes).analyze stage order = shader.analyze stage order := by
  have herase : (shader.analyzeAll passes).erase = shader.erase := shader.erase_analyzeAll passes
  have hpasses : (shader.analyzeAll passes).FieldsBare := by
    rw [FieldsBare, herase]
    exact h
  calc (shader.analyzeAll passes).analyze stage order
      = (shader.analyzeAll passes).erase.analyze stage order :=
        (analyze_erase hpasses stage order).symm
    _ = shader.erase.analyze stage order := by rw [herase]
    _ = shader.analyze stage order := analyze_erase h stage order

end Shader

end Essl
