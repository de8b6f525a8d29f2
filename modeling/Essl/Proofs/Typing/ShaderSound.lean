import Essl.Proofs.Typing.DeclaratorSound
import Essl.Typing.Shader

/-!
# Typed shaders keep the rules

By induction on declarations and statements every node of a typed shader is sound. So where typing
finds no problem in a shader that was read from a text, all rules hold at all nodes.
-/

namespace Essl

variable {clean : Prop} {returnType : Option Ty}

/-! ## Conditions and returned values -/

theorem checkOptional_keeps {α : Type} {I : Context → Prop} {P : α → Prop} {check : α → Check α}
    {a : Option α} (h : ∀ x ∈ a, Keeps clean I (check x) P) :
    Keeps clean I (checkOptional check a) fun a' => ∀ x ∈ a', P x := by
  cases a with
  | none => exact Keeps.pure (by simp)
  | some a => exact (h a rfl).bind fun a ha => Keeps.pure (by simpa using ha)

theorem checkCondition_sound {e : Expr}
    (h : AllNodes Node.Regular (Condition.expression e).nodes) :
    Keeps clean (Context.Sound clean returnType) (checkCondition e) fun e' =>
      AllNodes (Node.Sound clean) (Condition.expression e').nodes := by
  simp only [Condition.nodes, allNodes_cons] at h
  apply Keeps.get_bind
  intro c hc
  refine (Keeps.lift (Expr.check_sound hc e h.2)).bind fun e he => ?_
  refine (Keeps.lift (requireBool_ensures (Expr.typed_of_sound he).known _)).bind
    fun _ hbool => Keeps.pure ?_
  simp only [Condition.nodes, allNodes_cons]
  exact ⟨hbool, he⟩

theorem Condition.check_sound {condition : Condition}
    (h : AllNodes Node.Regular condition.nodes) :
    Keeps clean (Context.Sound clean returnType) condition.check fun condition' =>
      AllNodes (Node.Sound clean) condition'.nodes := by
  unfold check
  extract_lets finish
  have hfinish : ∀ checked : Condition × Option Ty, Known clean checked.2 →
      ((clean → checked.2 = some .bool) → AllNodes (Node.Sound clean) checked.1.nodes) →
        Keeps clean (Context.Sound clean returnType) (finish checked) fun condition' =>
          AllNodes (Node.Sound clean) condition'.nodes := by
    rintro ⟨condition, type⟩ hknown hnodes
    exact (Keeps.lift (requireBool_ensures hknown _)).bind fun _ hbool => Keeps.pure (hnodes hbool)
  cases condition with
  | expression e =>
      simp only [nodes, allNodes_cons] at h
      apply Keeps.get_bind
      intro c hc
      refine (Keeps.lift (Expr.check_sound hc e h.2)).bind fun e he => ?_
      refine hfinish (.expression e, e.info.type) (Expr.typed_of_sound he).known fun hbool => ?_
      simp only [nodes, allNodes_cons]
      exact ⟨hbool, he⟩
  | declaration s d =>
      simp only [nodes, allNodes_cons, allNodes_append] at h
      refine (TypeSpec.check_sound s h.2.1).bind fun s hs => ?_
      refine (Declarator.check_sound (TypeSpec.known_of_sound hs) .empty h.2.2).bind fun d hd => ?_
      have hknown : Known clean d.type := (allNodes_cons.1 hd).1.1
      refine hfinish (.declaration s d, d.type) hknown fun hbool => ?_
      simp only [nodes, allNodes_cons, allNodes_append]
      exact ⟨hbool, hs, hd⟩

theorem requireReturn_ensures {c : Context} (hc : c.Sound clean returnType)
    (hreturn : Known clean returnType) (keyword : Token) {value : Option Expr}
    (h : ∀ e ∈ value, e.info.Typed clean) :
    (requireReturn c keyword value).Ensures clean fun _ => clean → Returns returnType value := by
  unfold requireReturn
  rw [hc.returnType]
  cases returnType with
  | none => exact fun _ hclean => absurd hclean hreturn
  | some expected =>
      cases value with
      | none =>
          dsimp only
          split
          · rename_i hvoid
            exact Noted.Ensures.pure fun _ => congrArg some hvoid
          · exact Noted.Ensures.report_imp _ _
      | some e =>
          have hknown := (h e rfl).known
          dsimp only
          split
          · rename_i actual hactual
            split
            · rename_i heq
              exact Noted.Ensures.pure fun _ => ⟨expected, rfl, heq ▸ hactual⟩
            · exact Noted.Ensures.report_imp _ _
          · rename_i hnone
            rw [hnone] at hknown
            exact Noted.Ensures.pure fun hclean => absurd hclean hknown

/-! ## Declarations and statements -/

mutual

theorem Declaration.check_sound : ∀ (d : Declaration) {returnType : Option Ty},
    AllNodes Node.Regular d.nodes →
      Keeps clean (Context.Sound clean returnType) d.check fun d' =>
        AllNodes (Node.Sound clean) d'.nodes
  | .declarators s ds semicolon, _, h => by
      simp only [Declaration.nodes, allNodes_append, allNodes_flatMap] at h
      apply Keeps.get_bind
      intro c hc
      refine (Keeps.lift .trivial).bind fun _ _ => ?_
      refine (TypeSpec.check_sound s h.1).bind fun s hs => ?_
      refine (checkDeclarators_sound (TypeSpec.known_of_sound hs) _ ds h.2).bind
        fun ds hds => Keeps.pure ?_
      simp only [Declaration.nodes, allNodes_append, allNodes_flatMap]
      exact ⟨hs, hds⟩
  | .type s semicolon, _, h => by
      apply Keeps.get_bind
      intro c hc
      refine (Keeps.lift .trivial).bind fun _ _ => ?_
      exact (TypeSpec.check_sound s h).bind fun s hs => Keeps.pure hs
  | .precision keyword precision s semicolon, returnType, h => by
      refine (TypeSpec.check_sound s h).bind fun s hs => ?_
      extract_lets finish
      have hfinish : ∀ u, Keeps clean (Context.Sound clean returnType) (finish u) fun d' =>
          AllNodes (Node.Sound clean) d'.nodes := fun _ => Keeps.pure hs
      split
      · exact Keeps.first_if (Keeps.lift .trivial) hfinish
      · exact hfinish ()
  | .invariants keyword names semicolon, returnType, _ => by
      apply Keeps.get_bind
      intro c _
      extract_lets finish
      have hfinish : ∀ u, Keeps clean (Context.Sound clean returnType) (finish u) fun d' =>
          AllNodes (Node.Sound clean) d'.nodes :=
        fun _ => (Keeps.lift .trivial).bind fun _ _ => Keeps.pure allNodes_nil
      exact Keeps.first_if (Keeps.lift .trivial) hfinish
  | .prototype header semicolon, _, h =>
      (FunctionHeader.check_sound .prototype h).bind fun _ hheader => Keeps.pure hheader
  | .function header body, _, h => by
      simp only [Declaration.nodes, allNodes_append] at h
      refine (FunctionHeader.check_sound .definition h.1).bind fun header hheader => ?_
      simp only [FunctionHeader.nodes, allNodes_cons, allNodes_append, allNodes_flatMap] at hheader
      obtain ⟨hsymbol, hreturn, hparameters⟩ := hheader
      refine (Keeps.inFunction (P := fun checked : List ParameterSpec × Block =>
        (∀ p ∈ checked.1, AllNodes (Node.Sound clean) p.nodes) ∧
          AllNodes (Node.Sound clean) (checked.2.nodes header.returnType.type))
            header.returnType.type ?_).bind ?_
      · refine (declareParameters_sound header.parameters hparameters).bind fun ps hps => ?_
        exact (Block.checkInside_sound body (TypeSpec.known_of_sound hreturn) h.2).bind
          fun body hbody => Keeps.pure ⟨hps, hbody⟩
      · rintro ⟨parameters, body⟩ ⟨hparameters, hbody⟩
        apply Keeps.pure
        simp only [Declaration.nodes, FunctionHeader.nodes, allNodes_cons, allNodes_append,
          allNodes_flatMap]
        exact ⟨⟨hsymbol, hreturn, hparameters⟩, hbody⟩

theorem Block.checkInside_sound : ∀ (b : Block) {written returnType : Option Ty},
    Known clean returnType → AllNodes Node.Regular (b.nodes written) →
      Keeps clean (Context.Sound clean returnType) b.checkInside fun b' =>
        AllNodes (Node.Sound clean) (b'.nodes returnType)
  | ⟨_, statements, _, _⟩, _, _, hreturn, h =>
      (checkStatements_sound statements hreturn h).bind fun _ hstatements =>
        Keeps.pure hstatements

theorem Block.check_sound : ∀ (b : Block) {written returnType : Option Ty},
    Known clean returnType → AllNodes Node.Regular (b.nodes written) →
      Keeps clean (Context.Sound clean returnType) b.check fun b' =>
        AllNodes (Node.Sound clean) (b'.nodes returnType)
  | ⟨_, statements, _, newScope⟩, _, _, hreturn, h => by
      have hstatements := checkStatements_sound statements hreturn h
      unfold Block.check
      extract_lets finish
      split
      · exact (hstatements.inScope .block).bind fun _ h => Keeps.pure h
      · exact hstatements.bind fun _ h => Keeps.pure h

theorem Statement.check_sound : ∀ (s : Statement) {written returnType : Option Ty},
    Known clean returnType → AllNodes Node.Regular (s.nodes written) →
      Keeps clean (Context.Sound clean returnType) s.check fun s' =>
        AllNodes (Node.Sound clean) (s'.nodes returnType)
  | .declaration d, _, _, _, h =>
      (Declaration.check_sound d h).bind fun _ hd => Keeps.pure hd
  | .block b, _, _, hreturn, h =>
      (Block.check_sound b hreturn h).bind fun _ hb => Keeps.pure hb
  | .expression e semicolon, _, _, _, h => by
      apply Keeps.get_bind
      intro c hc
      exact (Keeps.lift (Expr.check_sound hc e h)).bind fun _ he => Keeps.pure he
  | .empty semicolon, _, _, _, _ => Keeps.pure allNodes_nil
  | .ifThen keyword opening condition closing whenTrue, _, _, hreturn, h => by
      simp only [Statement.nodes, allNodes_append] at h
      refine (checkCondition_sound h.1).bind fun condition hcondition => ?_
      refine (Statement.check_sound whenTrue hreturn h.2).bind fun whenTrue htrue => Keeps.pure ?_
      simp only [Statement.nodes, allNodes_append]
      exact ⟨hcondition, htrue⟩
  | .ifElse keyword opening condition closing whenTrue otherwise whenFalse, _, _, hreturn, h => by
      simp only [Statement.nodes, allNodes_append] at h
      refine (checkCondition_sound h.1.1).bind fun condition hcondition => ?_
      refine (Statement.check_sound whenTrue hreturn h.1.2).bind fun whenTrue htrue => ?_
      refine (Statement.check_sound whenFalse hreturn h.2).bind
        fun whenFalse hfalse => Keeps.pure ?_
      simp only [Statement.nodes, allNodes_append]
      exact ⟨⟨hcondition, htrue⟩, hfalse⟩
  | .whileLoop keyword opening condition closing body, _, _, hreturn, h => by
      simp only [Statement.nodes, allNodes_append] at h
      apply Keeps.inScope
      refine (Condition.check_sound h.1).bind fun condition hcondition => ?_
      refine (Statement.check_sound body hreturn h.2).inLoop.bind fun body hbody => Keeps.pure ?_
      simp only [Statement.nodes, allNodes_append]
      exact ⟨hcondition, hbody⟩
  | .doLoop keyword body whileWord opening condition closing semicolon, _, _, hreturn, h => by
      simp only [Statement.nodes, allNodes_append] at h
      refine (Statement.check_sound body hreturn h.1).inLoop.bind fun body hbody => ?_
      refine (checkCondition_sound h.2).bind fun condition hcondition => Keeps.pure ?_
      simp only [Statement.nodes, allNodes_append]
      exact ⟨hbody, hcondition⟩
  | .forLoop keyword opening init condition semicolon increment closing body, _, _, hreturn,
      h => by
      simp only [Statement.nodes, allNodes_append, allNodes_optionalNodes,
        allNodes_optionalConditionNodes] at h
      obtain ⟨⟨⟨hinit, hcondition⟩, hincrement⟩, hbody⟩ := h
      apply Keeps.inScope
      refine (Statement.check_sound init hreturn hinit).bind fun init hinit => ?_
      refine (checkOptional_keeps fun x hx => Condition.check_sound (hcondition x hx)).bind
        fun condition hcondition => ?_
      apply Keeps.get_bind
      intro c hc
      refine (checkOptional_keeps fun x hx =>
        Keeps.lift (Expr.check_sound hc x (hincrement x hx))).bind fun increment hincrement => ?_
      refine (Statement.check_sound body hreturn hbody).inLoop.bind fun body hbody => Keeps.pure ?_
      simp only [Statement.nodes, allNodes_append, allNodes_optionalNodes,
        allNodes_optionalConditionNodes]
      exact ⟨⟨⟨hinit, hcondition⟩, hincrement⟩, hbody⟩
  | .jump keyword semicolon, _, _, _, _ => by
      apply Keeps.get_bind
      intro c _
      exact (Keeps.lift .trivial).bind fun _ _ => Keeps.pure allNodes_nil
  | .return keyword value semicolon, _, _, hreturn, h => by
      simp only [Statement.nodes, allNodes_cons, allNodes_optionalNodes] at h
      apply Keeps.get_bind
      intro c hc
      refine (checkOptional_keeps fun x hx => Keeps.lift (Expr.check_sound hc x (h.2 x hx))).bind
        fun value hvalue => ?_
      refine (Keeps.lift (requireReturn_ensures hc hreturn keyword fun e he =>
        Expr.typed_of_sound (hvalue e he))).bind fun _ hreturns => Keeps.pure ?_
      simp only [Statement.nodes, allNodes_cons, allNodes_optionalNodes]
      exact ⟨hreturns, hvalue⟩

theorem checkStatements_sound : ∀ (ss : List Statement) {written returnType : Option Ty},
    Known clean returnType → AllNodes Node.Regular (Statement.nodesOfAll ss written) →
      Keeps clean (Context.Sound clean returnType) (checkStatements ss) fun ss' =>
        AllNodes (Node.Sound clean) (Statement.nodesOfAll ss' returnType)
  | [], _, _, _, _ => Keeps.pure allNodes_nil
  | s :: ss, _, _, hreturn, h => by
      simp only [Statement.nodesOfAll, allNodes_append] at h
      refine (Statement.check_sound s hreturn h.1).bind fun s hs => ?_
      refine (checkStatements_sound ss hreturn h.2).bind fun ss hss => Keeps.pure ?_
      simp only [Statement.nodesOfAll, allNodes_append]
      exact ⟨hs, hss⟩

end

/-! ## Shaders -/

theorem checkDeclarations_sound : ∀ ds : List Declaration,
    (∀ d ∈ ds, AllNodes Node.Regular d.nodes) →
      Keeps clean (Context.Sound clean returnType) (checkDeclarations ds) fun ds' =>
        ∀ d ∈ ds', AllNodes (Node.Sound clean) d.nodes
  | [], _ => Keeps.pure (by simp)
  | d :: ds, h => by
      obtain ⟨hd, hds⟩ := List.forall_mem_cons.1 h
      refine (Declaration.check_sound d hd).bind fun d hd => ?_
      refine (checkDeclarations_sound ds hds).bind fun ds hds => Keeps.pure ?_
      exact List.forall_mem_cons.2 ⟨hd, hds⟩

theorem Shader.analyze_sound {shader : Shader} (h : AllNodes Node.Regular shader.nodes)
    (stage : Stage) (order : FunctionOrder) :
    (shader.analyze stage order).Ensures clean fun shader' =>
      AllNodes (Node.Sound clean) shader'.nodes := by
  intro hproblems
  have hds : Keeps clean (Context.Sound clean none) (checkDeclarations shader.declarations) _ :=
    checkDeclarations_sound shader.declarations (allNodes_flatMap.1 h)
  refine allNodes_flatMap.2 (hds (.empty stage order) (.empty stage order) ?_).1
  intro hclean
  exact (List.append_eq_nil_iff.1 (hproblems hclean)).1

end Essl
