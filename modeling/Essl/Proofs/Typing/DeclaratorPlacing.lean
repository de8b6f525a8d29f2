import Essl.Proofs.Typing.ExprPlacing
import Essl.Typing.Overload

/-!
# What problems with declarations point at

The tokens of a part are among the names of the shader, so what the part declares is declared by
one of them. Where a name is declared already, the problem goes back to the name that declared it.
-/

namespace Essl

variable {names part : List Token} {c : Context} {location : Location}

/-- In scope of what is declared by names of the shader, the problems point at tokens of a part. -/
abbrev PointsIn (names part : List Token) {α : Type} (x : Check α) (P : α → Prop) : Prop :=
  FindsEach (SemanticError.PointsAt names part) (Context.NamedIn names) x P

/-- A field is declared by a name of the shader. -/
def Field.NamedIn (names : List Token) (f : Field) : Prop := ∃ t ∈ names, t.location = f.location

theorem namedBy_token {t : Token} (ht : t ∈ names) : NamedBy names (some t.location) := by
  rintro _ ⟨⟩
  exact ⟨t, ht, rfl⟩

/-! ## Declaring names -/

theorem Scopes.declared?_of_error {scopes : Scopes} {order : List Function → List Function}
    {name : String} {symbol existing : Symbol}
    (h : scopes.declare order name symbol = .error existing) :
    scopes.current.declared? order name = some existing := by
  unfold Scopes.declare at h
  split at h
  · cases h
    assumption
  · cases h

theorem declare_pointsIn {name : Token} {symbol : Symbol} (hname : name ∈ part)
    (hsymbol : symbol.NamedIn names) :
    PointsIn names part (declare name symbol) fun _ => True := by
  apply Finds.get_bind
  intro c hc
  split
  · rename_i scopes hscopes
    exact FindsEach.put (Scopes.All.declare hc hsymbol hscopes)
  · rename_i existing hexisting
    have hprevious := hc.declared? (Scopes.declared?_of_error hexisting)
    exact FindsEach.lift (.report (.about (.token hname) rfl hprevious))

/-! ## Storage -/

theorem requireStorage_pointsAt {word : Token} (hword : word ∈ part) :
    (requireStorage c word).PointsAt names part := by
  unfold requireStorage
  split
  · exact .pure trivial
  · refine Noted.Finds.first_if (Noted.PointsAt.report (.token hword) rfl rfl) fun _ => ?_
    split
    · exact Noted.PointsAt.report (.token hword) rfl rfl
    · exact .pure trivial

theorem requireStorages_pointsAt : ∀ {words : List Token}, words ⊆ part →
    (requireStorages c words).PointsAt names part
  | [], _ => .pure trivial
  | word :: words, h => by
      obtain ⟨hword, hwords⟩ := List.cons_subset.1 h
      exact (requireStorage_pointsAt hword).bind fun _ => requireStorages_pointsAt hwords

/-! ## Fields -/

theorem declaredType_pointsAt {base : Option Ty} {size : Option ArraySize}
    (h : ∀ s ∈ size, s.MadeOf part) :
    (declaredType c base size).Finds (SemanticError.PointsAt names part) fun declared =>
      ∀ s ∈ declared.1, s.MadeOf part := by
  cases size with
  | none =>
      refine .pure ?_
      rintro _ ⟨⟩
  | some size =>
      refine (ArraySize.check_pointsAt (h size rfl)).bind fun checked hchecked => .pure ?_
      rintro _ ⟨⟩
      exact hchecked

theorem requireNotVoid_pointsAt {type : Option Ty} {name : String}
    (h : location.JoinedFrom part) : (requireNotVoid type name location).PointsAt names part := by
  unfold requireNotVoid
  split
  · exact .report h rfl rfl
  · exact .pure trivial

theorem checkFieldNames_pointsAt (hpart : part ⊆ names) {base : Option Ty} :
    ∀ {ds : List Declarator} {fields : List Field}, (∀ d ∈ ds, d.MadeOf part) →
      (∀ f ∈ fields, f.NamedIn names) →
        (checkFieldNames c base fields ds).Finds (SemanticError.PointsAt names part)
          fun checked => ∀ f ∈ checked.2, f.NamedIn names
  | [], _, _, hfields => .pure hfields
  | d :: ds, fields, h, hfields => by
      obtain ⟨hd, hds⟩ := List.forall_mem_cons.1 h
      refine (declaredType_pointsAt hd.size).bind fun checked _ => ?_
      refine (requireNotVoid_pointsAt (.token hd.name)).bind fun _ => ?_
      extract_lets typed field
      split
      · rename_i previous hprevious
        have hnamed : NamedBy names (some previous.location) := by
          rintro _ ⟨⟩
          exact hfields previous (List.mem_of_find?_eq_some hprevious)
        refine (Noted.Finds.report (.about (.token hd.name) rfl hnamed)).bind fun _ _ => ?_
        exact (checkFieldNames_pointsAt hpart hds hfields).bind fun _ hmore => .pure hmore
      · have hmore : ∀ f ∈ fields ++ [field], f.NamedIn names :=
          List.forall_mem_append.2 ⟨hfields,
            List.forall_mem_singleton.2 ⟨d.name, hpart hd.name, rfl⟩⟩
        exact (checkFieldNames_pointsAt hpart hds hmore).bind fun _ hmore => .pure hmore

/-! ## Type specifiers -/

mutual

theorem TypeSpec.check_pointsIn (hpart : part ⊆ names) : ∀ {s : TypeSpec}, s.MadeOf part →
    PointsIn names part s.check fun s' => s'.location.JoinedFrom part
  | .named q name type, h => by
      apply Finds.get_bind
      intro c _
      refine FindsEach.bind (.lift (Context.typeNamed?_pointsAt h.2)) fun found _ => .pure ?_
      exact TypeSpec.MadeOf.location (s := .named q name found) h
  | .struct q keyword name opening fields closing defined type, h => by
      have hlocation := TypeSpec.MadeOf.location
        (s := .struct q keyword name opening fields closing defined type) h
      obtain ⟨-, hkeyword, hname, hfields, -⟩ := h
      have hmembers : PointsIn names part (checkFields [] fields) fun _ => True :=
        checkFields_pointsIn hpart hfields (by simp)
      refine FindsEach.bind (hmembers.inScopeIn .struct) fun checked _ => ?_
      have hdefine : PointsIn names part (defineStruct keyword name checked.2) fun s =>
          (Symbol.struct s).NamedIn names := by
        apply Finds.get_bind
        intro c hc
        refine FindsEach.bind (FindsEach.put hc) fun _ _ => .pure ?_
        refine namedBy_token (hpart ?_)
        cases name with
        | none => exact hkeyword
        | some name => exact hname List.mem_cons_self
      refine FindsEach.bind hdefine fun s hs => ?_
      split
      · rename_i name
        have hdeclare := declare_pointsIn (hname List.mem_cons_self) hs
        exact FindsEach.bind hdeclare fun _ _ => .pure hlocation
      · exact FindsEach.pure hlocation

theorem checkFields_pointsIn (hpart : part ⊆ names) : ∀ {fields : List FieldSpec}
    {members : List Field}, FieldSpec.EachMadeOf part fields → (∀ f ∈ members, f.NamedIn names) →
      PointsIn names part (checkFields members fields) fun _ => True
  | [], _, _, _ => .pure trivial
  | ⟨type, ds, semicolon⟩ :: rest, members, ⟨htype, hds, hrest⟩, hmembers => by
      refine FindsEach.bind (TypeSpec.check_pointsIn hpart htype) fun type _ => ?_
      apply Finds.get_bind
      intro c _
      refine FindsEach.bind (.lift (checkFieldNames_pointsAt hpart hds hmembers))
        fun checked hmembers => ?_
      exact FindsEach.bind (checkFields_pointsIn hpart hrest hmembers) fun _ _ => .pure trivial

end

/-! ## Variables -/

theorem requireConstant_pointsAt {d : Declarator} (h : d.MadeOf part) :
    (requireConstant d).PointsAt names part := by
  unfold requireConstant
  split
  · exact .report (.token h.name) rfl rfl
  · rename_i e he
    split
    · exact .report (h.initializer e he).location rfl rfl
    · exact .pure trivial

theorem checkInitializer_pointsAt {type : Option Ty} {initializer : Option Expr}
    (h : ∀ e ∈ initializer, e.MadeOf part) :
    (checkInitializer c type initializer).Finds (SemanticError.PointsAt names part)
      fun initializer' => ∀ e ∈ initializer', e.MadeOf part := by
  cases initializer with
  | none =>
      refine .pure ?_
      rintro _ ⟨⟩
  | some e =>
      refine (Expr.check_pointsAt (h e rfl)).bind fun e he => ?_
      refine (requireType_pointsAt he.location).bind fun _ => .pure ?_
      rintro _ ⟨⟩
      exact he

theorem Declarator.check_pointsIn (hpart : part ⊆ names) {base : Option Ty}
    {qualifiers : QualifierSet} {d : Declarator} (h : d.MadeOf part) :
    PointsIn names part (d.check base qualifiers) fun d' => d'.location.JoinedFrom part := by
  apply Finds.get_bind
  intro c _
  refine FindsEach.bind (.lift (declaredType_pointsAt h.size)) fun declared hsize => ?_
  refine FindsEach.bind (.lift (requireNotVoid_pointsAt (.token h.name))) fun _ _ => ?_
  refine FindsEach.bind (.lift (checkInitializer_pointsAt h.initializer))
    fun initializer hinitializer => ?_
  extract_lets typed v finish
  have htyped : typed.MadeOf part := ⟨h.name, hsize, hinitializer⟩
  have hfinish : ∀ u, PointsIn names part (finish u) fun d' => d'.location.JoinedFrom part := by
    intro u
    have hsymbol : (Symbol.variable v).NamedIn names := namedBy_token (hpart h.name)
    exact FindsEach.bind (declare_pointsIn h.name hsymbol) fun _ _ => .pure htyped.location
  exact FindsEach.first_if (.lift (requireConstant_pointsAt htyped)) hfinish

/-! ## Function headers -/

theorem checkParameters_pointsIn (hpart : part ⊆ names) : ∀ {ps : List ParameterSpec},
    (∀ p ∈ ps, p.MadeOf part) → PointsIn names part (checkParameters ps) fun ps' =>
      ∀ p ∈ ps', p.name.toList ⊆ part
  | [], _ => .pure (by simp)
  | p :: ps, h => by
      obtain ⟨hp, hps⟩ := List.forall_mem_cons.1 h
      refine FindsEach.bind (TypeSpec.check_pointsIn hpart hp.typeSpec) fun typeSpec _ => ?_
      apply Finds.get_bind
      intro c _
      refine FindsEach.bind (.lift (declaredType_pointsAt hp.size)) fun declared _ => ?_
      refine FindsEach.bind (checkParameters_pointsIn hpart hps) fun ps' hps' => .pure ?_
      exact List.forall_mem_cons.2 ⟨hp.name, hps'⟩

theorem requireNoVoid_pointsAt (h : location.JoinedFrom part) : ∀ {parameters : List Parameter},
    (requireNoVoid location parameters).PointsAt names part
  | [] => .pure trivial
  | _ :: _ => (requireNotVoid_pointsAt h).bind fun _ => requireNoVoid_pointsAt h

theorem requireQualifiers_pointsAt {previous : Option Location} (hprevious : NamedBy names previous)
    (h : location.JoinedFrom part) : ∀ {position : Nat} {olds news : List Parameter},
      (requireQualifiers previous location position olds news).PointsAt names part
  | _, old :: olds, new :: news => by
      rw [requireQualifiers]
      exact Noted.Finds.first_if (.report (.about h rfl hprevious))
        fun _ => requireQualifiers_pointsAt hprevious h
  | _, [], _ | _, _ :: _, [] => .pure trivial

theorem requireAgreement_pointsAt {name : Token} {old new : Function} (hname : name ∈ part)
    (hold : old.NamedIn names) (h : location.JoinedFrom part) :
    (requireAgreement name location old new).PointsAt names part := by
  unfold requireAgreement
  exact Noted.Finds.first_if (.report (.about h rfl hold))
    fun _ => requireQualifiers_pointsAt hold (.token hname)

theorem declareFunction_pointsIn {name : Token} {f : Function} (hname : name ∈ part)
    (hf : f.NamedIn names) (h : location.JoinedFrom part) :
    PointsIn names part (declareFunction name location f) fun _ => True := by
  apply Finds.get_bind
  intro c hc
  extract_lets accept
  have haccept : PointsIn names part accept fun _ => True :=
    FindsEach.put (Scopes.All.declareFunction hc hf)
  split
  · rename_i old hfound
    have hold : old.NamedIn names := (Scopes.All.current hc).function? hfound
    split
    · exact FindsEach.lift (.report (.about (.token hname) rfl hold))
    · exact FindsEach.lift (.report (.about (.token hname) rfl hold))
    · refine FindsEach.bind (.lift (requireAgreement_pointsAt hname hold h)) fun _ _ => ?_
      split
      · exact haccept
      · exact FindsEach.pure trivial
  · split
    · exact haccept
    · exact haccept
    · rename_i existing hexisting
      exact FindsEach.lift (.report (.about (.token hname) rfl (hc.declared? hexisting)))

theorem FunctionHeader.check_pointsIn (hpart : part ⊆ names) {kind : FunctionKind}
    {h : FunctionHeader} (hh : h.MadeOf part) :
    PointsIn names part (h.check kind) fun h' => ∀ p ∈ h'.parameters, p.name.toList ⊆ part := by
  apply Finds.get_bind
  intro c _
  extract_lets nested typed
  have htyped : ∀ u, PointsIn names part (typed u) fun h' =>
      ∀ p ∈ h'.parameters, p.name.toList ⊆ part := by
    intro u
    refine FindsEach.bind (TypeSpec.check_pointsIn hpart hh.returnType) fun s hs => ?_
    refine FindsEach.bind (checkParameters_pointsIn hpart hh.parameters) fun ps hps => ?_
    extract_lets resolved typed finish
    refine FindsEach.bind (.lift (requireNoVoid_pointsAt (.token hh.name))) fun _ _ => ?_
    split
    · rename_i type parameters _ _
      extract_lets f finish
      have hf : f.NamedIn names := namedBy_token (hpart hh.name)
      exact FindsEach.first_if (declareFunction_pointsIn hh.name hf hs) fun _ => .pure hps
    · exact FindsEach.first_if (FindsEach.change fun _ hc => hc) fun _ => .pure hps
  exact FindsEach.first_if (.lift (.report (.plain (.token hh.name) rfl rfl))) htyped

theorem declareParameters_pointsIn (hpart : part ⊆ names) : ∀ {ps : List ParameterSpec},
    (∀ p ∈ ps, p.name.toList ⊆ part) →
      PointsIn names part (declareParameters ps) fun _ => True
  | [], _ => .pure trivial
  | p :: ps, h => by
      obtain ⟨hp, hps⟩ := List.forall_mem_cons.1 h
      have hrest : ∀ q, PointsIn names part (do
          let ps ← declareParameters ps
          pure (q :: ps)) fun _ => True :=
        fun _ => FindsEach.bind (declareParameters_pointsIn hpart hps) fun _ _ => .pure trivial
      rw [declareParameters]
      split
      · exact hrest p
      · rename_i name hsome
        extract_lets v
        have hname : name ∈ part := hp (by simp [hsome])
        have hsymbol : (Symbol.variable v).NamedIn names := namedBy_token (hpart hname)
        exact FindsEach.bind (declare_pointsIn hname hsymbol) fun _ _ => hrest _

end Essl
