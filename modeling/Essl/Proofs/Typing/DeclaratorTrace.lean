import Essl.Proofs.Grammar.Placement
import Essl.Proofs.Typing.ExprTrace
import Essl.Typing.Overload

/-!
# Types and what they declare follow their events

Typing a type specifier, a declarator or a function header follows the events that it has
afterwards.
-/

namespace Essl

variable {c : Context}

/-! ## Sizes and initial values -/

theorem requireNotVoid_quiet (type : Option Ty) (name : String) (location : Location) :
    (requireNotVoid type name location).Quiet := by
  unfold requireNotVoid
  split <;> rfl

theorem declaredType_notes (base : Option Ty) : ∀ size : Option ArraySize,
    (declaredType c base size).Notes c fun sized events => events = sizeEvents sized.1
  | none => .pure rfl
  | some size => by
      refine size.check_notes.bind ?_
      rintro ⟨size, length⟩ _ rfl
      exact .pure (List.append_nil _)

theorem checkInitializer_notes (type : Option Ty) : ∀ initializer : Option Expr,
    (checkInitializer c type initializer).Notes c fun initializer events =>
      events = optionalEvents initializer
  | none => .pure rfl
  | some e => by
      refine e.check_notes.bind ?_
      rintro e _ rfl
      exact .skip (requireType_quiet _ _ _) fun _ => .pure (List.append_nil _)

/-! ## Types -/

theorem checkFieldNames_notes (base : Option Ty) : ∀ (fields : List Field) (ds : List Declarator),
    (∀ d ∈ ds, d.initializer = none) →
      (checkFieldNames c base fields ds).Notes c fun named events =>
        events = named.1.flatMap Declarator.eventsInside
  | _, [], _ => .pure rfl
  | fields, d :: ds, h => by
      obtain ⟨hd, hds⟩ := List.forall_mem_cons.1 h
      refine (declaredType_notes base d.size).bind ?_
      rintro ⟨size, type⟩ _ rfl
      refine .skip (requireNotVoid_quiet _ _ _) fun _ => ?_
      extract_lets typed field
      have hinside : typed.eventsInside = sizeEvents size := by
        simp [typed, Declarator.eventsInside, hd, optionalEvents]
      split
      · refine .skip rfl fun _ => ?_
        refine (checkFieldNames_notes base fields ds hds).bind ?_
        rintro ⟨ds, fields⟩ _ rfl
        exact .pure (by simp [hinside])
      · refine (checkFieldNames_notes base (fields ++ [field]) ds hds).bind ?_
        rintro ⟨ds, fields⟩ _ rfl
        exact .pure (by simp [hinside])

theorem defineStruct_performs (keyword : Token) (name : Option Token) (fields : List Field) :
    Performs c (defineStruct keyword name fields) fun s events =>
      events = [] ∧ s.name = name.map Token.text ∧ s.location = (name.getD keyword).location :=
  fun _ => ⟨[], ⟨rfl, rfl, rfl⟩, .idle rfl rfl rfl⟩

mutual

theorem TypeSpec.check_performs : ∀ (s : TypeSpec) {c : Context}, AllNodes Node.Placed s.nodes →
    Performs c s.check fun s' events => events = s'.events ∧ s'.qualifiers = s.qualifiers
  | .named q name _, c, _ => by
      apply Performs.get_bind
      refine .lift_bind (P := fun _ events => events = [.typeName name])
        (.event rfl rfl (Context.remarksIn_typeNamed? name) trivial) ?_
      rintro type _ rfl
      exact .pure ⟨rfl, rfl⟩
  | .struct q keyword name opening fields closing _ _, c, h => by
      have hfields := checkFields_performs fields [] (c := { c with
        scopes := c.scopes.push .struct }) (allNodes_cons.1 h).2
      refine (Performs.inScope (P := fun checked events =>
        events = .enter :: (FieldSpec.eventsOfAll checked.1 ++ [.leave]))
        (hfields.mono fun _ _ hevents => by rw [hevents])).bind ?_
      rintro ⟨fields, members⟩ _ c rfl -
      refine (defineStruct_performs keyword name members).bind ?_
      rintro s _ c ⟨rfl, hname, hlocation⟩ -
      split
      · rename_i name
        refine (Performs.declare (.struct name (some s)) rfl rfl
          ⟨s, rfl, hname, hlocation⟩ nofun).bind ?_
        rintro _ _ c rfl -
        exact .pure ⟨by simp [TypeSpec.events], rfl⟩
      · exact .pure ⟨by simp [TypeSpec.events], rfl⟩

theorem checkFields_performs : ∀ (fields : List FieldSpec) (members : List Field) {c : Context},
    AllNodes Node.Placed (FieldSpec.nodesOfAll fields) →
      Performs c (checkFields members fields) fun checked events =>
        events = FieldSpec.eventsOfAll checked.1
  | [], _, _, _ => .pure rfl
  | ⟨type, names, semicolon⟩ :: rest, members, c, h => by
      simp only [FieldSpec.nodesOfAll, allNodes_append, allNodes_flatMap] at h
      obtain ⟨⟨htype, hnames⟩, hrest⟩ := h
      have hbare : ∀ d ∈ names, d.initializer = none :=
        fun d hd => (allNodes_cons.1 (hnames d hd)).1
      refine (type.check_performs htype).bind ?_
      rintro type _ c ⟨rfl, -⟩ -
      apply Performs.get_bind
      refine .lift_bind (checkFieldNames_notes type.type members names hbare) ?_
      rintro ⟨names, members⟩ _ rfl
      refine (checkFields_performs rest members hrest).bind ?_
      rintro ⟨rest, members⟩ _ c rfl -
      exact .pure (by simp [FieldSpec.eventsOfAll])

end

/-! ## Qualifiers -/

theorem Token.forbidsWriting_iff {word : Token} : word.forbidsWriting ↔
    word.qualifier? = some .const ∨ word.qualifier? = some .uniform ∨
      word.qualifier? = some .attrib := by
  unfold forbidsWriting
  split <;> simp_all

theorem contains_qualifierSet (words : List Token) (q : Qualifier) :
    (qualifierSet words).contains q ↔ ∃ word ∈ words, word.qualifier? = some q := by
  rw [qualifierSet, QualifierSet.contains_ofList, List.contains_iff_mem, List.mem_filterMap]
  rfl

/-- A variable is read-only if one of the words in front of its type says so. -/
theorem readOnly_qualifierSet (words : List Token) :
    ((qualifierSet words).contains .const || (qualifierSet words).contains .uniform ||
      (qualifierSet words).contains .attrib) = words.any Token.forbidsWriting := by
  rw [Bool.eq_iff_iff, List.any_eq_true]
  simp only [Bool.or_eq_true, contains_qualifierSet, Token.forbidsWriting_iff, and_or_left,
    exists_or, or_assoc]

/-- A parameter is read-only if it is constant. -/
theorem ParameterSpec.OnlyConst.readOnly {p : ParameterSpec} (h : p.OnlyConst) :
    p.qualifierSet.contains .const = p.qualifiers.any Token.forbidsWriting := by
  have hset : p.qualifierSet.contains .const ↔
      ∃ word ∈ p.qualifiers, word.qualifier? = some .const := by
    rw [← contains_qualifierSet, ParameterSpec.qualifierSet]
    split
    · rfl
    · rw [QualifierSet.insert, QualifierSet.contains_ofList]
      exact Iff.rfl
  rw [Bool.eq_iff_iff, hset, List.any_eq_true]
  refine ⟨?_, fun ⟨word, hword, hforbids⟩ => ⟨word, hword, h word hword hforbids⟩⟩
  exact fun ⟨word, hword, hconst⟩ => ⟨word, hword, Token.forbidsWriting_iff.2 (.inl hconst)⟩

theorem remarksIn_requireStorage {word : Token} {q : Qualifier} (hq : word.qualifier? = some q) :
    remarksIn (requireStorage c word).problems =
      StorageWord.remarks c.stage ⟨q, word.location, c.scopes.isGlobal⟩ := by
  have hword : word.kind.keyword?.bind Keyword.qualifier? = some q := hq
  unfold requireStorage StorageWord.remarks
  rw [hword]
  dsimp only
  split <;> split <;> rfl

theorem requireStorages_notes : ∀ words : List Token,
    (requireStorages c words).Notes c fun _ events =>
      events = (TypeQualifiers.storageWords c.scopes.isGlobal ⟨words, none⟩).map .storage
  | [] => .pure rfl
  | word :: words => by
      have hrest := requireStorages_notes words
      rw [requireStorages]
      cases hq : word.qualifier? with
      | none =>
          have hword : word.kind.keyword?.bind Keyword.qualifier? = none := hq
          have hquiet : (requireStorage c word).Quiet := by
            rw [requireStorage, hword]
            rfl
          refine .skip hquiet fun _ => hrest.mono fun _ _ h => ?_
          simpa [TypeQualifiers.storageWords, hq] using h
      | some q =>
          refine (Noted.Notes.event (P := fun _ events =>
            events = [.storage ⟨q, word.location, c.scopes.isGlobal⟩]) rfl rfl
            (remarksIn_requireStorage hq) trivial).bind ?_
          rintro _ _ rfl
          refine hrest.mono fun _ _ h => ?_
          simpa [TypeQualifiers.storageWords, hq] using h

/-! ## Variables -/

theorem requireConstant_quiet (d : Declarator) : (requireConstant d).Quiet := by
  unfold requireConstant
  split
  · rfl
  · split <;> rfl

theorem Declarator.check_performs (base : Option Ty) {qualifiers : QualifierSet}
    {words : List Token} (hwords : (qualifiers.contains .const || qualifiers.contains .uniform ||
      qualifiers.contains .attrib) = words.any Token.forbidsWriting) (d : Declarator) :
    Performs c (d.check base qualifiers) fun d' events => events = d'.events words := by
  apply Performs.get_bind
  refine .lift_bind (declaredType_notes base d.size) ?_
  rintro ⟨size, type⟩ _ rfl
  refine .skip (requireNotVoid_quiet _ _ _) fun _ => ?_
  refine .lift_bind (checkInitializer_notes type d.initializer) ?_
  rintro initializer _ rfl
  extract_lets typed v finish
  refine .skip_if (requireConstant_quiet typed) fun _ => ?_
  refine (Performs.declare (.variable words d.name (some v)) rfl rfl
    ⟨v, rfl, rfl, rfl, hwords⟩ nofun).bind ?_
  rintro _ _ c rfl -
  exact .pure (by simp [typed, events, eventsInside])

theorem checkDeclarators_performs (base : Option Ty) {qualifiers : QualifierSet}
    {words : List Token} (hwords : (qualifiers.contains .const || qualifiers.contains .uniform ||
      qualifiers.contains .attrib) = words.any Token.forbidsWriting) :
    ∀ (ds : List Declarator) {c : Context},
      Performs c (checkDeclarators base qualifiers ds) fun ds' events =>
        events = ds'.flatMap (Declarator.events words)
  | [], _ => .pure rfl
  | d :: ds, c => by
      refine (d.check_performs base hwords).bind ?_
      rintro d _ c rfl -
      refine (checkDeclarators_performs base hwords ds).bind ?_
      rintro ds _ c rfl -
      exact .pure (by simp)

/-! ## Function headers -/

theorem checkParameters_performs : ∀ (ps : List ParameterSpec) {c : Context},
    (∀ p ∈ ps, AllNodes Node.Placed p.nodes) →
      Performs c (checkParameters ps) fun ps' events =>
        events = ps'.flatMap ParameterSpec.events ∧ ∀ p ∈ ps', p.OnlyConst
  | [], _, _ => .pure ⟨rfl, by simp⟩
  | p :: ps, c, h => by
      obtain ⟨hp, hps⟩ := List.forall_mem_cons.1 h
      simp only [ParameterSpec.nodes, allNodes_cons, allNodes_append] at hp
      obtain ⟨hconst, htype, -⟩ := hp
      refine (p.typeSpec.check_performs htype).bind ?_
      rintro typeSpec _ c ⟨rfl, -⟩ -
      apply Performs.get_bind
      refine .lift_bind (declaredType_notes typeSpec.type p.size) ?_
      rintro ⟨size, type⟩ _ rfl
      refine (checkParameters_performs ps hps).bind ?_
      rintro ps _ c ⟨rfl, hps⟩ -
      exact .pure ⟨by simp [ParameterSpec.events], List.forall_mem_cons.2 ⟨hconst, hps⟩⟩

/-- A function gets into a scope where no variable or struct has its name. -/
theorem Follows.functionDeclared {name : Token} {f : Function} (hname : f.name = name.text)
    (htidy : c.scopes.current.Tidy) (hword : '(' ∉ f.name.toList)
    (hfree : c.scopes.current.symbol? f.name = none)
    {problems : List SemanticError} (hproblems : remarksIn problems = []) :
    Follows c [.function name] { c with scopes := c.scopes.declareFunction f } problems := by
  have hobject : ∀ symbol, c.env.current f.name ≠ some (.object symbol) := by
    intro symbol h
    rw [Scope.frame_eq_object_iff.1 h] at hfree
    cases hfree
  refine .changed ?_ ?_ trivial (fun _ => htidy.addFunction hword hfree) rfl
  · rw [ScopeEvent.after, Env.declare, ← hname, htidy.frame_addFunction hword hfree]
    cases hentry : c.env.current f.name with
    | none => rfl
    | some entry =>
        cases entry with
        | object symbol => exact absurd hentry (hobject symbol)
        | function =>
            have hsame : Function.update c.env.current f.name (some .function) = c.env.current :=
              hentry ▸ Function.update_eq_self f.name c.env.current
            exact congrArg (Env.mk · c.env.outer) hsame.symm
  · rw [hproblems, ScopeEvent.remarks, Env.functionRedeclaration, ← hname]
    split
    · rename_i symbol hentry
      exact absurd hentry (hobject symbol)
    · rfl

/-- A function that is known already is not declared again. -/
theorem Follows.functionKnown {name : Token} (h : c.env.current name.text = some .function)
    {problems : List SemanticError} (hproblems : remarksIn problems = []) :
    Follows c [.function name] c problems := by
  refine .observed ?_ ?_ trivial
  · rw [ScopeEvent.after, Env.declare, h]
  · rw [hproblems, ScopeEvent.remarks, Env.functionRedeclaration, h]

/-- A name that is a variable or a struct does not become that of a function. -/
theorem Follows.functionTaken {name : Token} {symbol : Symbol}
    (h : c.env.current name.text = some (.object symbol)) {problems : List SemanticError}
    (hproblems : remarksIn problems = [⟨.redeclared name.text, name.location⟩]) :
    Follows c [.function name] c problems := by
  refine .observed ?_ ?_ trivial
  · rw [ScopeEvent.after, Env.declare, h]
  · rw [hproblems, ScopeEvent.remarks, Env.functionRedeclaration, h]

theorem requireQualifiers_quiet (previous : Option Location) (location : Location) :
    ∀ (position : Nat) (olds news : List Parameter),
      (requireQualifiers previous location position olds news).Quiet
  | position, old :: olds, new :: news => by
      have hrest := requireQualifiers_quiet previous location (position + 1) olds news
      rw [requireQualifiers]
      split
      · exact .bind (.report rfl) fun _ => hrest
      · exact hrest
  | _, [], _ | _, _ :: _, [] => rfl

theorem requireAgreement_quiet (name : Token) (returnLocation : Location) (old new : Function) :
    (requireAgreement name returnLocation old new).Quiet := by
  unfold requireAgreement
  split
  · exact .bind (.report rfl) fun _ => requireQualifiers_quiet _ _ _ _ _
  · exact requireQualifiers_quiet _ _ _ _ _

theorem declareFunction_performs {name : Token} {returnLocation : Location} {f : Function}
    (hname : f.name = name.text) (hword : '(' ∉ f.name.toList) :
    Performs c (declareFunction name returnLocation f) fun _ events =>
      events = [.function name] := by
  apply Performs.get_bind
  extract_lets accept
  refine .of_tidy fun hc => ?_
  have htidy : c.scopes.current.Tidy := hc _ List.mem_cons_self
  have haccept (hfree : c.scopes.current.symbol? f.name = none) :
      Performs c accept fun _ events => events = [.function name] :=
    fun _ => ⟨_, rfl, .functionDeclared hname htidy hword hfree rfl⟩
  split
  · rename_i old hold
    obtain ⟨hfree, hframe⟩ := htidy.known hword hold
    have hknown : c.env.current name.text = some .function := hname ▸ hframe
    have hreport {x : Noted Unit} (hx : x.Quiet) :
        x.Notes c fun _ events => events = [.function name] :=
      ⟨_, rfl, .functionKnown hknown hx⟩
    split
    · exact .lift (hreport rfl)
    · exact .lift (hreport rfl)
    · refine .skip (requireAgreement_quiet _ _ _ _) fun _ => ?_
      split
      · exact haccept hfree
      · exact fun _ => ⟨_, rfl, .functionKnown hknown rfl⟩
  · rw [← hname]
    cases hsymbol : c.scopes.current.symbol? f.name with
    | none =>
        split
        · exact haccept hsymbol
        · exact haccept hsymbol
        · rename_i existing hnot hexisting
          obtain ⟨g, rfl⟩ := Scope.function_of_declared? hsymbol hexisting
          exact absurd rfl (hnot g)
    | some symbol =>
        have hdeclared : c.scopes.current.declared? c.order.arrange f.name = some symbol := by
          rw [Scope.declared?, hsymbol]
        have hentry : c.env.current name.text = some (.object symbol) :=
          hname ▸ Scope.frame_eq_object_iff.2 hsymbol
        have hreport (kind : SymbolKind) (previous : Option Location) :
            (report (.redeclaration f.name kind previous) name.location).Notes c fun _ events =>
              events = [.function name] :=
          ⟨_, rfl, .functionTaken hentry (by rw [← hname]; rfl)⟩
        rw [hdeclared]
        cases symbol with
        | «variable» v => exact .lift (hreport _ _)
        | function g => exact absurd hsymbol (htidy.symbols _ g)
        | struct s => exact .lift (hreport _ _)

theorem requireNoVoid_quiet (location : Location) : ∀ parameters : List Parameter,
    (requireNoVoid location parameters).Quiet
  | [] => rfl
  | _ :: ps => (requireNotVoid_quiet _ _ _).bind fun _ => requireNoVoid_quiet location ps

theorem FunctionHeader.check_performs (kind : FunctionKind) {h : FunctionHeader}
    (hplaced : AllNodes Node.Placed h.nodes) :
    Performs c (h.check kind) fun h' events =>
      events = h'.events c.scopes.isGlobal ∧ ∀ p ∈ h'.parameters, p.OnlyConst := by
  simp only [nodes, allNodes_cons, allNodes_append, allNodes_flatMap] at hplaced
  obtain ⟨hname, hreturn, hparameters⟩ := hplaced
  apply Performs.get_bind
  extract_lets nested typed
  refine .skip_if rfl fun _ => ?_
  refine (h.returnType.check_performs hreturn).bind ?_
  rintro returnType _ c₁ ⟨rfl, -⟩ hlevel₁
  refine (checkParameters_performs h.parameters hparameters).bind ?_
  rintro parameters _ c₂ ⟨rfl, hconst⟩ hlevel₂
  extract_lets resolved typed finish
  refine .skip (requireNoVoid_quiet _ _) fun _ => ?_
  split
  · rename_i type resolved _ _
    extract_lets f finish
    split
    · rename_i hglobal
      refine (declareFunction_performs (f := f) rfl hname).bind ?_
      rintro _ _ c₃ rfl -
      refine .pure ⟨?_, hconst⟩
      simp [typed, events, show c.scopes.isGlobal = true by simpa [nested] using hglobal]
    · rename_i hlocal
      refine .pure ⟨?_, hconst⟩
      simp [typed, events, show c.scopes.isGlobal = false by simpa [nested] using hlocal]
  · split
    · refine (Performs.idle rfl rfl rfl).bind ?_
      rintro _ _ c₃ rfl -
      exact .pure ⟨by simp [typed, events], hconst⟩
    · exact .pure ⟨by simp [typed, events], hconst⟩

/-! ## Parameters in the body -/

theorem declareParameters_performs : ∀ (ps : List ParameterSpec) {c : Context},
    (∀ p ∈ ps, p.OnlyConst) →
      Performs c (declareParameters ps) fun ps' events =>
        events = ps'.flatMap ParameterSpec.declaration ∧
          ps'.flatMap ParameterSpec.events = ps.flatMap ParameterSpec.events
  | [], _, _ => .pure ⟨rfl, rfl⟩
  | p :: ps, c, h => by
      obtain ⟨hp, hps⟩ := List.forall_mem_cons.1 h
      rw [declareParameters]
      split
      · rename_i hname
        rw [pure_bind]
        refine (declareParameters_performs ps hps).bind ?_
        rintro ps _ c ⟨rfl, hevents⟩ -
        refine .pure ⟨?_, ?_⟩
        · simp [ParameterSpec.declaration, hname]
        · simp [hevents]
      · rename_i name hname
        extract_lets v
        refine (Performs.declare (.variable p.qualifiers name (some v)) rfl rfl
          ⟨v, rfl, rfl, rfl, hp.readOnly⟩ nofun).bind ?_
        rintro _ _ c rfl -
        rw [pure_bind]
        refine (declareParameters_performs ps hps).bind ?_
        rintro ps _ c ⟨rfl, hevents⟩ -
        refine .pure ⟨?_, ?_⟩
        · simp [ParameterSpec.declaration, hname]
        · simp [hevents, ParameterSpec.events]

end Essl
