import Essl.Proofs.Typing.ExprSound
import Essl.Typing.Overload

/-!
# Declared names keep the rules

What type specifiers, declarators and function headers declare is sound, so that the context stays
sound and all nodes of them are.
-/

namespace Essl

variable {clean : Prop} {returnType : Option Ty}

/-! ## Sizes and initial values -/

section

variable {c : Context} {base : Option Ty}

theorem declaredType_ensures (hc : c.Sound clean returnType) (hbase : Known clean base)
    {size : Option ArraySize} (h : AllNodes Node.Regular (sizeNodes size)) :
    (declaredType c base size).Ensures clean fun sized =>
      AllNodes (Node.Sound clean) (sizeNodes sized.1) ∧ Known clean sized.2 := by
  cases size with
  | none => exact Noted.Ensures.pure ⟨allNodes_nil, hbase⟩
  | some size =>
      refine (ArraySize.check_sound hc h).bind ?_
      rintro ⟨size, length⟩ ⟨hsize, hlength⟩
      exact Noted.Ensures.pure ⟨hsize, hbase.array hlength⟩

theorem checkInitializer_ensures (hc : c.Sound clean returnType) {type : Option Ty}
    (htype : Known clean type) {initializer : Option Expr}
    (h : AllNodes Node.Regular (optionalNodes initializer)) :
    (checkInitializer c type initializer).Ensures clean fun initializer =>
      AllNodes (Node.Sound clean) (optionalNodes initializer) ∧
        (clean → ∀ e ∈ initializer, e.info.type = type) := by
  cases initializer with
  | none => exact Noted.Ensures.pure ⟨allNodes_nil, by simp⟩
  | some e =>
      refine (Expr.check_sound hc e h).bind fun e he => ?_
      refine (requireType_known htype (Expr.typed_of_sound he).known e.location).bind
        fun _ heq => Noted.Ensures.pure ⟨he, ?_⟩
      rintro hclean _ ⟨⟩
      exact (heq hclean).symm

end

/-! ## Fields -/

/-- The types of all fields are known. -/
def FieldsKnown (clean : Prop) (fields : List Field) : Prop :=
  ∀ field ∈ fields, Known clean field.type

theorem checkFieldNames_ensures {c : Context} (hc : c.Sound clean returnType) {base : Option Ty}
    (hbase : Known clean base) : ∀ (fields : List Field) (ds : List Declarator),
      FieldsKnown clean fields → (∀ d ∈ ds, AllNodes Node.Regular d.fieldNodes) →
        (checkFieldNames c base fields ds).Ensures clean fun named =>
          (∀ d ∈ named.1, AllNodes (Node.Sound clean) d.fieldNodes) ∧ FieldsKnown clean named.2
  | fields, [], hfields, _ => Noted.Ensures.pure ⟨by simp, hfields⟩
  | fields, d :: ds, hfields, h => by
      obtain ⟨hd, hds⟩ := List.forall_mem_cons.1 h
      simp only [Declarator.fieldNodes, Declarator.inside, allNodes_cons, allNodes_append] at hd
      obtain ⟨hbare, hsize, -⟩ := hd
      refine (declaredType_ensures hc hbase hsize).bind ?_
      rintro ⟨size, type⟩ ⟨hsize, htype⟩
      refine Noted.Ensures.andThen fun _ => ?_
      extract_lets typed field
      have hnodes : AllNodes (Node.Sound clean) typed.fieldNodes := by
        simp only [Declarator.fieldNodes, Declarator.inside, allNodes_cons, allNodes_append]
        refine ⟨htype, hsize, ?_⟩
        rw [show d.initializer = none from hbare]
        exact allNodes_nil
      split
      · refine Noted.Ensures.andThen fun _ => ?_
        refine (checkFieldNames_ensures hc hbase fields ds hfields hds).bind ?_
        rintro ⟨ds, fields⟩ ⟨hds, hfields⟩
        exact Noted.Ensures.pure ⟨List.forall_mem_cons.2 ⟨hnodes, hds⟩, hfields⟩
      · have hmore : FieldsKnown clean (fields ++ [field]) := by
          intro field hfield
          rcases List.mem_append.1 hfield with hfield | hfield
          · exact hfields field hfield
          · obtain rfl := List.mem_singleton.1 hfield
            exact htype
        refine (checkFieldNames_ensures hc hbase _ ds hmore hds).bind ?_
        rintro ⟨ds, fields⟩ ⟨hds, hfields⟩
        exact Noted.Ensures.pure ⟨List.forall_mem_cons.2 ⟨hnodes, hds⟩, hfields⟩

/-! ## Types -/

theorem defineStruct_keeps (keyword : Token) {name : Option Token}
    (hname : ∀ t ∈ name, IsName t.text) {fields : List Field} (hfields : FieldsKnown clean fields) :
    Keeps clean (Context.Sound clean returnType) (defineStruct keyword name fields)
      (StructDef.Proper clean) := by
  apply Keeps.get_bind
  intro c hc
  refine (Keeps.put (hc.defined (c.structCount + 1))).bind fun _ _ => Keeps.pure ?_
  refine StructDef.proper_iff.2 ⟨?_, hfields⟩
  intro n hn
  obtain ⟨t, ht, rfl⟩ := Option.map_eq_some_iff.1 hn
  exact hname t ht

theorem TypeSpec.known_of_sound {s : TypeSpec} (h : AllNodes (Node.Sound clean) s.nodes) :
    Known clean s.type := by
  have hmem : Node.typeSpec s ∈ s.nodes := by
    cases s <;> simp [nodes]
  exact h _ hmem

mutual

theorem TypeSpec.check_sound : ∀ s : TypeSpec, AllNodes Node.Regular s.nodes →
    Keeps clean (Context.Sound clean returnType) s.check fun s' =>
      AllNodes (Node.Sound clean) s'.nodes
  | .named q name _, _ => by
      apply Keeps.get_bind
      intro c hc
      refine (Keeps.lift (hc.typeNamed? name)).bind fun type htype => Keeps.pure ?_
      simp only [TypeSpec.nodes, allNodes_cons, allNodes_nil, and_true]
      exact htype
  | .struct q keyword name opening fields closing _ _, h => by
      simp only [TypeSpec.nodes, allNodes_cons] at h
      refine ((checkFields_sound fields h.2 (by simp [FieldsKnown])).inScope .struct).bind ?_
      rintro ⟨fields, members⟩ ⟨hfields, hmembers⟩
      refine (defineStruct_keeps keyword h.1 hmembers).bind fun s hs => ?_
      have hsymbol : (Symbol.struct s).Sound clean := hs
      have hnodes : AllNodes (Node.Sound clean) (TypeSpec.nodes
          (.struct q keyword name opening fields closing (some s) (some (.struct s)))) := by
        simp only [TypeSpec.nodes, allNodes_cons]
        exact ⟨hs, hfields⟩
      split
      · exact (Keeps.declare _ hsymbol).bind fun _ _ => Keeps.pure hnodes
      · exact Keeps.pure hnodes

theorem checkFields_sound : ∀ (fields : List FieldSpec),
    AllNodes Node.Regular (FieldSpec.nodesOfAll fields) → ∀ {members : List Field},
      FieldsKnown clean members →
        Keeps clean (Context.Sound clean returnType) (checkFields members fields) fun checked =>
          AllNodes (Node.Sound clean) (FieldSpec.nodesOfAll checked.1) ∧
            FieldsKnown clean checked.2
  | [], _, _, hmembers => Keeps.pure ⟨allNodes_nil, hmembers⟩
  | ⟨type, names, semicolon⟩ :: rest, h, members, hmembers => by
      simp only [FieldSpec.nodesOfAll, allNodes_append, allNodes_flatMap] at h
      obtain ⟨⟨htype, hnames⟩, hrest⟩ := h
      refine (TypeSpec.check_sound type htype).bind fun type htype => ?_
      apply Keeps.get_bind
      intro c hc
      refine (Keeps.lift (checkFieldNames_ensures hc (TypeSpec.known_of_sound htype) members names
        hmembers hnames)).bind ?_
      rintro ⟨names, members⟩ ⟨hnames, hmembers⟩
      refine (checkFields_sound rest hrest hmembers).bind ?_
      rintro ⟨rest, members⟩ ⟨hrest, hmembers⟩
      refine Keeps.pure ⟨?_, hmembers⟩
      simp only [FieldSpec.nodesOfAll, allNodes_append, allNodes_flatMap]
      exact ⟨⟨htype, hnames⟩, hrest⟩

end

/-! ## Variables -/

theorem declaredConstant_typed {qualifiers : QualifierSet} {type : Option Ty}
    (htype : Known clean type) {initializer : Option Expr}
    (h : AllNodes (Node.Sound clean) (optionalNodes initializer)) :
    Typed clean type (declaredConstant qualifiers type initializer) := by
  refine ⟨htype, ?_⟩
  intro hclean t ht v hv
  unfold declaredConstant at hv
  split at hv
  · rename_i t' e
    split at hv
    · rename_i hconst
      obtain rfl : t' = t := Option.some.inj ht
      exact (Expr.typed_of_sound h).holds hclean t' hconst.2 v hv
    · cases hv
  · cases hv

/-- A `const` variable has a constant initial value. -/
theorem requireConstant_ensures {d : Declarator}
    (h : AllNodes (Node.Sound clean) (optionalNodes d.initializer)) :
    (requireConstant d).Ensures clean fun _ =>
      clean → ∃ e w, d.initializer = some e ∧ e.info.constant = some w := by
  unfold requireConstant
  split
  · exact Noted.Ensures.report_imp _ _
  · rename_i e he
    rw [he] at h
    split
    · exact Noted.Ensures.report_imp _ _
    · rename_i hconstant
      apply Noted.Ensures.pure
      intro hclean
      obtain ⟨t, ht⟩ := (Expr.typed_of_sound h).known.eq_some hclean
      cases hvalue : e.info.constant with
      | none => simp [ht, hvalue] at hconstant
      | some w => exact ⟨e, w, he, hvalue⟩

theorem Declarator.check_sound {base : Option Ty} (hbase : Known clean base)
    (qualifiers : QualifierSet) {d : Declarator} (h : AllNodes Node.Regular d.nodes) :
    Keeps clean (Context.Sound clean returnType) (d.check base qualifiers) fun d' =>
      AllNodes (Node.Sound clean) d'.nodes := by
  simp only [nodes, inside, allNodes_cons, allNodes_append] at h
  obtain ⟨-, hsize, hinitializer⟩ := h
  apply Keeps.get_bind
  intro c hc
  refine (Keeps.lift (declaredType_ensures hc hbase hsize)).bind ?_
  rintro ⟨size, type⟩ ⟨hsize, htype⟩
  refine (Keeps.lift .trivial).bind fun _ _ => ?_
  refine (Keeps.lift (checkInitializer_ensures hc htype hinitializer)).bind ?_
  rintro initializer ⟨hinitializer, hequal⟩
  extract_lets typed v finish
  have hv : Typed clean v.type v.constant := declaredConstant_typed htype hinitializer
  have hsymbol : (Symbol.variable v).Sound clean := hv
  have hfinish : ∀ u, (qualifiers.contains .const = true → clean →
      ∃ e w, initializer = some e ∧ e.info.constant = some w) →
        Keeps clean (Context.Sound clean returnType) (finish u) fun d' =>
          AllNodes (Node.Sound clean) d'.nodes := by
    intro u hconst
    refine (Keeps.declare _ hsymbol).bind fun _ _ => Keeps.pure ?_
    simp only [nodes, inside, allNodes_cons, allNodes_append]
    refine ⟨⟨htype, v, rfl, fun hclean => ⟨?_, ?_⟩⟩, hsize, hinitializer⟩
    · intro e he
      obtain ⟨t, ht⟩ := htype.eq_some hclean
      exact ⟨t, v, (hequal hclean e he).trans ht, ht, rfl, ht⟩
    · intro hq
      obtain ⟨e, w, he, hw⟩ := hconst hq hclean
      obtain ⟨t, ht⟩ := htype.eq_some hclean
      have het : e.info.type = some t := (hequal hclean e he).trans ht
      have hvalue : declaredConstant qualifiers type initializer = some w := by
        rw [show type = some t from ht, he, declaredConstant, if_pos ⟨hq, het⟩, hw]
      exact ⟨t, w, ht, hvalue, hv.holds hclean t ht w hvalue⟩
  split
  · exact (Keeps.lift (requireConstant_ensures hinitializer)).bind
      fun u hconst => hfinish u fun _ => hconst
  · rename_i hq
    exact hfinish () fun h => absurd h hq

theorem checkDeclarators_sound {base : Option Ty} (hbase : Known clean base)
    (qualifiers : QualifierSet) : ∀ ds : List Declarator,
      (∀ d ∈ ds, AllNodes Node.Regular d.nodes) →
        Keeps clean (Context.Sound clean returnType) (checkDeclarators base qualifiers ds)
          fun ds' => ∀ d ∈ ds', AllNodes (Node.Sound clean) d.nodes
  | [], _ => Keeps.pure (by simp)
  | d :: ds, h => by
      obtain ⟨hd, hds⟩ := List.forall_mem_cons.1 h
      refine (Declarator.check_sound hbase qualifiers hd).bind fun d hd => ?_
      refine (checkDeclarators_sound hbase qualifiers ds hds).bind fun ds hds => Keeps.pure ?_
      exact List.forall_mem_cons.2 ⟨hd, hds⟩

/-! ## Function headers -/

theorem ParameterSpec.known_of_sound {p : ParameterSpec}
    (h : AllNodes (Node.Sound clean) p.nodes) : Known clean p.type :=
  (allNodes_cons.1 h).1

theorem checkParameters_sound : ∀ ps : List ParameterSpec,
    (∀ p ∈ ps, AllNodes Node.Regular p.nodes) →
      Keeps clean (Context.Sound clean returnType) (checkParameters ps) fun ps' =>
        ∀ p ∈ ps', AllNodes (Node.Sound clean) p.nodes
  | [], _ => Keeps.pure (by simp)
  | p :: ps, h => by
      obtain ⟨hp, hps⟩ := List.forall_mem_cons.1 h
      simp only [ParameterSpec.nodes, allNodes_cons, allNodes_append] at hp
      refine (TypeSpec.check_sound p.typeSpec hp.2.1).bind fun typeSpec htypeSpec => ?_
      apply Keeps.get_bind
      intro c hc
      refine (Keeps.lift (declaredType_ensures hc (TypeSpec.known_of_sound htypeSpec) hp.2.2)).bind ?_
      rintro ⟨size, type⟩ ⟨hsize, htype⟩
      refine (checkParameters_sound ps hps).bind fun ps hps => Keeps.pure ?_
      refine List.forall_mem_cons.2 ⟨?_, hps⟩
      simp only [ParameterSpec.nodes, allNodes_cons, allNodes_append]
      exact ⟨htype, htypeSpec, hsize⟩

section

variable {ps : List ParameterSpec}

theorem parameters?_ne_none (h : ∀ p ∈ ps, Known clean p.type) (hclean : clean) :
    parameters? ps ≠ none := by
  intro hnone
  refine List.mapM_ne_none ?_ (Option.map_eq_none_iff.1 hnone)
  intro p hp
  obtain ⟨t, ht⟩ := (h p hp).eq_some hclean
  simp [ParameterSpec.parameter?, ht]

theorem parameters?_proper (h : ∀ p ∈ ps, Known clean p.type) {parameters : List Parameter}
    (hparameters : parameters? ps = some parameters) : ∀ q ∈ parameters, q.type.Proper clean := by
  obtain ⟨all, hall, rfl⟩ := Option.map_eq_some_iff.1 hparameters
  have hproper : ∀ q ∈ all, q.type.Proper clean := by
    intro q hq
    obtain ⟨p, hp, hpq⟩ := List.exists_of_forall₂_mem (List.forall₂_of_mapM hall) hq
    obtain ⟨t, ht, rfl⟩ := Option.map_eq_some_iff.1 hpq
    exact (h p hp).proper ht
  split
  · split
    · simp
    · exact hproper
  · exact hproper

end

theorem declareFunction_keeps (name : Token) (returnLocation : Location) {f : Function}
    (hf : f.Declared clean) :
    Keeps clean (Context.Sound clean returnType) (declareFunction name returnLocation f)
      fun _ => True := by
  apply Keeps.get_bind
  intro c hc
  extract_lets accept
  have haccept : Keeps clean (Context.Sound clean returnType) accept fun _ => True :=
    Keeps.put (hc.declareFunction hf)
  split
  · split
    · exact Keeps.lift .trivial
    · exact Keeps.lift .trivial
    · refine (Keeps.lift .trivial).bind fun _ _ => ?_
      split
      · exact haccept
      · exact Keeps.pure trivial
  · split
    · exact haccept
    · exact haccept
    · exact Keeps.lift .trivial

theorem FunctionHeader.check_sound (kind : FunctionKind) {h : FunctionHeader}
    (hregular : AllNodes Node.Regular h.nodes) :
    Keeps clean (Context.Sound clean returnType) (h.check kind) fun h' =>
      AllNodes (Node.Sound clean) h'.nodes := by
  simp only [nodes, allNodes_cons, allNodes_append, allNodes_flatMap] at hregular
  obtain ⟨hname, hreturn, hparameters⟩ := hregular
  apply Keeps.get_bind
  intro c _
  extract_lets nested typed
  have htyped : ∀ u, Keeps clean (Context.Sound clean returnType) (typed u) fun h' =>
      AllNodes (Node.Sound clean) h'.nodes := by
    intro u
    refine (TypeSpec.check_sound h.returnType hreturn).bind fun s hs => ?_
    refine (checkParameters_sound h.parameters hparameters).bind fun ps hps => ?_
    have hknown : ∀ p ∈ ps, Known clean p.type := fun p hp => ParameterSpec.known_of_sound (hps p hp)
    have hnodes : ∀ symbol : Option Function, (clean → symbol ≠ none) → AllNodes (Node.Sound clean)
        (nodes ⟨s, h.name, h.opening, ps, h.closing, symbol⟩) := by
      intro symbol hsymbol
      simp only [nodes, allNodes_cons, allNodes_append, allNodes_flatMap]
      exact ⟨hsymbol, hs, hps⟩
    extract_lets resolved typed finish
    refine (Keeps.lift .trivial).bind fun _ _ => ?_
    split
    · rename_i type parameters htype hresolved
      extract_lets f finish
      have hf : f.Declared clean :=
        ⟨hname, parameters?_proper hknown hresolved,
          (TypeSpec.known_of_sound hs).proper htype, rfl⟩
      have hfinish : ∀ u, Keeps clean (Context.Sound clean returnType) (finish u) fun h' =>
          AllNodes (Node.Sound clean) h'.nodes :=
        fun _ => Keeps.pure (hnodes (some f) fun _ => Option.some_ne_none f)
      exact Keeps.first_if (declareFunction_keeps _ _ hf) hfinish
    · rename_i hunknown
      -- Where a type is not known, `clean` does not hold, so calls of the function may be unknown.
      have hnot : ¬ clean := by
        intro hclean
        obtain ⟨type, htype⟩ := (TypeSpec.known_of_sound hs).eq_some hclean
        obtain ⟨parameters, hresolved⟩ :=
          Option.ne_none_iff_exists'.1 (parameters?_ne_none hknown hclean)
        exact hunknown type parameters htype hresolved
      have hfinish : ∀ u, Keeps clean (Context.Sound clean returnType) (finish u) fun h' =>
          AllNodes (Node.Sound clean) h'.nodes :=
        fun _ => Keeps.pure (hnodes none hnot.elim)
      exact Keeps.first_if (Keeps.change fun c hc => hc.poison hnot _) hfinish
  exact Keeps.first_if (Keeps.lift .trivial) htyped

/-! ## Parameters in the body -/

theorem declareParameters_sound : ∀ ps : List ParameterSpec,
    (∀ p ∈ ps, AllNodes (Node.Sound clean) p.nodes) →
      Keeps clean (Context.Sound clean returnType) (declareParameters ps) fun ps' =>
        ∀ p ∈ ps', AllNodes (Node.Sound clean) p.nodes
  | [], _ => Keeps.pure (by simp)
  | p :: ps, h => by
      obtain ⟨hp, hps⟩ := List.forall_mem_cons.1 h
      rw [declareParameters]
      split
      · refine (declareParameters_sound ps hps).bind fun ps hps => Keeps.pure ?_
        exact List.forall_mem_cons.2 ⟨hp, hps⟩
      · rename_i name _
        extract_lets v
        have hsymbol : (Symbol.variable v).Sound clean :=
          (ParameterSpec.known_of_sound hp).typed
        refine (Keeps.declare name hsymbol).bind fun _ _ => ?_
        refine (declareParameters_sound ps hps).bind fun ps hps => Keeps.pure ?_
        refine List.forall_mem_cons.2 ⟨?_, hps⟩
        simp only [ParameterSpec.nodes, allNodes_cons, allNodes_append] at hp ⊢
        exact hp

end Essl
