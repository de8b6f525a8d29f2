import Essl.Proofs.Typing.DeclaratorTrace
import Essl.Typing.Shader

/-!
# Typed shaders follow their traces

By induction on declarations and statements, typing a shader follows the trace that the typed
shader has: its scopes are those of the environment semantics, every name stands for what they
say, and the problems are those that the events call for.
-/

namespace Essl

variable {c : Context}

/-! ## Conditions and jumps -/

theorem checkCondition_performs (e : Expr) :
    Performs c (checkCondition e) fun e' events => events = e'.events := by
  apply Performs.get_bind
  refine .lift_bind e.check_notes ?_
  rintro e _ rfl
  exact .skip (requireBool_quiet _ _) fun _ => .pure (List.append_nil _)

theorem Condition.check_performs {condition : Condition}
    (h : AllNodes Node.Placed condition.nodes) :
    Performs c condition.check fun condition' events => events = condition'.events := by
  unfold check
  extract_lets finish
  have hfinish (c : Context) (checked : Condition × Option Ty) :
      Performs c (finish checked) fun condition' events => condition' = checked.1 ∧ events = [] :=
    .skip (requireBool_quiet _ _) fun _ => .pure ⟨rfl, rfl⟩
  cases condition with
  | expression e =>
      apply Performs.get_bind
      refine .lift_bind e.check_notes ?_
      rintro e _ rfl
      rw [pure_bind]
      refine (hfinish c (.expression e, e.info.type)).mono ?_
      rintro _ _ ⟨rfl, rfl⟩
      exact List.append_nil _
  | declaration s d =>
      simp only [nodes, allNodes_cons, allNodes_append] at h
      refine (s.check_performs h.2.1).bind ?_
      rintro s _ c ⟨rfl, -⟩ -
      -- No qualifiers are passed on, as if there were no words in front of the type.
      have hwords : (QualifierSet.empty.contains .const || QualifierSet.empty.contains .uniform ||
          QualifierSet.empty.contains .attrib) = ([] : List Token).any Token.forbidsWriting := rfl
      refine (d.check_performs s.type hwords).bind ?_
      rintro d _ c rfl -
      rw [pure_bind]
      refine (hfinish c (.declaration s d, d.type)).mono ?_
      rintro _ _ ⟨rfl, rfl⟩
      simp [events]

theorem checkOptional_performs {α : Type} {check : α → Check α} {events : α → List ScopeEvent}
    {a : Option α} (h : ∀ x ∈ a, Performs c (check x) fun x' done => done = events x') :
    Performs c (checkOptional check a) fun a' done => done = a'.elim [] events := by
  cases a with
  | none => exact .pure rfl
  | some a =>
      refine (h a rfl).bind ?_
      rintro a _ c rfl -
      exact .pure (List.append_nil _)

theorem requireLoop_quiet (word : Token) : (requireLoop c word).Quiet := by
  unfold requireLoop
  split
  · split
    · split <;> rfl
    · rfl
  · split
    · split <;> rfl
    · rfl
  · rfl

theorem requireReturn_quiet (keyword : Token) (value : Option Expr) :
    (requireReturn c keyword value).Quiet := by
  unfold requireReturn
  split
  · rfl
  · split
    · split <;> rfl
    · rfl
  · split <;> rfl

/-! ## Other declarations -/

theorem checkInvariants_notes : ∀ names : List InvariantName,
    (checkInvariants c names).Notes c fun names' events =>
      events = names'.map fun n => .invariant n.name n.symbol
  | [] => .pure rfl
  | n :: ns => by
      refine (Noted.Notes.event (P := fun symbol events => events = [.invariant n.name symbol]) rfl
        rfl (Context.remarksIn_variableNamed? n.name)
        (Context.variableNamed?_value n.name)).bind ?_
      rintro symbol _ rfl
      refine (checkInvariants_notes ns).bind ?_
      rintro ns _ rfl
      exact .pure (by simp)

/-! ## Declarations and statements -/

mutual

theorem Declaration.check_performs : ∀ (d : Declaration) {c : Context},
    AllNodes Node.Placed d.nodes →
      Performs c d.check fun d' events => events = d'.events c.scopes.isGlobal
  | .declarators s ds semicolon, c, h => by
      apply Performs.get_bind
      refine .lift_bind (requireStorages_notes s.qualifiers.storage) ?_
      rintro _ _ rfl
      simp only [Declaration.nodes, allNodes_append] at h
      refine (s.check_performs h.1).bind ?_
      rintro s' _ c' ⟨rfl, hqualifiers⟩ -
      refine (checkDeclarators_performs s'.type (readOnly_qualifierSet s'.qualifiers.words)
        ds).bind ?_
      rintro ds _ c'' rfl -
      refine .pure ?_
      rw [← hqualifiers]
      simp [Declaration.events, TypeQualifiers.storageWords]
  | .type s semicolon, c, h => by
      apply Performs.get_bind
      refine .lift_bind (requireStorages_notes s.qualifiers.storage) ?_
      rintro _ _ rfl
      refine (s.check_performs h).bind ?_
      rintro s' _ c' ⟨rfl, hqualifiers⟩ -
      refine .pure ?_
      rw [← hqualifiers]
      simp [Declaration.events, TypeQualifiers.storageWords]
  | .precision keyword precision s semicolon, c, h => by
      refine (s.check_performs h).bind ?_
      rintro s _ c' ⟨rfl, -⟩ -
      extract_lets finish
      have hfinish (u : Unit) : Performs c' (finish u) fun d' more =>
          s.events ++ more = d'.events c.scopes.isGlobal := .pure (List.append_nil _)
      split
      · exact .skip_if rfl hfinish
      · exact hfinish ()
  | .invariants keyword names semicolon, c, h => by
      apply Performs.get_bind
      extract_lets finish
      refine .lift_if_bind (P := fun events =>
        events = [.storage ⟨.invariant, keyword.location, c.scopes.isGlobal⟩])
        (.event rfl rfl ?_ trivial) ?_
      · cases hglobal : c.scopes.isGlobal <;>
          simp [ScopeEvent.remarks, StorageWord.remarks, remarksIn, report,
            SemanticCause.remark?]
      · rintro _ _ rfl
        refine .lift_bind (checkInvariants_notes names) ?_
        rintro names _ rfl
        exact .pure (by simp [Declaration.events])
  | .prototype header semicolon, c, h => by
      refine (header.check_performs .prototype h).bind ?_
      rintro header _ c' ⟨rfl, -⟩ -
      exact .pure (List.append_nil _)
  | .function header body, c, h => by
      simp only [Declaration.nodes, allNodes_append] at h
      refine (FunctionHeader.check_performs .definition h.1).bind ?_
      rintro header _ c' ⟨rfl, hconst⟩ -
      refine (Performs.inFunction (P := fun checked events =>
        checked.1.flatMap ParameterSpec.events = header.parameters.flatMap ParameterSpec.events ∧
          events = .enter :: (checked.1.flatMap ParameterSpec.declaration ++
            checked.2.eventsInside ++ [.leave])) ?_).bind ?_
      · refine (declareParameters_performs header.parameters hconst).bind ?_
        rintro parameters _ c'' ⟨rfl, hparameters⟩ hlevel
        refine (body.checkInside_performs hlevel h.2).bind ?_
        rintro body _ _ rfl -
        exact .pure ⟨hparameters, by simp⟩
      · rintro ⟨parameters, body⟩ _ c'' ⟨hparameters, rfl⟩ -
        refine .pure ?_
        dsimp only at hparameters
        simp [Declaration.events, FunctionHeader.events, hparameters]

theorem Block.checkInside_performs : ∀ (b : Block) {c : Context} {returnType : Option Ty},
    c.scopes.isGlobal = false → AllNodes Node.Placed (b.nodes returnType) →
      Performs c b.checkInside fun b' events => events = b'.eventsInside
  | ⟨opening, statements, closing, newScope⟩, c, _, hlocal, h => by
      refine (checkStatements_performs statements hlocal h).bind ?_
      rintro statements _ c' rfl -
      exact .pure (List.append_nil _)

theorem Block.check_performs : ∀ (b : Block) {c : Context} {returnType : Option Ty},
    c.scopes.isGlobal = false → AllNodes Node.Placed (b.nodes returnType) →
      Performs c b.check fun b' events => events = b'.events
  | ⟨opening, statements, closing, newScope⟩, c, _, hlocal, h => by
      unfold Block.check
      extract_lets finish
      split
      · have hstatements := checkStatements_performs statements (c := { c with
          scopes := c.scopes.push .block }) rfl h
        refine (Performs.inScope (P := fun statements events =>
          events = .enter :: (Statement.eventsOfAll statements ++ [.leave]))
          (hstatements.mono fun _ _ hevents => by rw [hevents])).bind ?_
        rintro statements _ c' rfl -
        exact .pure (by simp [Block.events, *])
      · refine (checkStatements_performs statements hlocal h).bind ?_
        rintro statements _ c' rfl -
        exact .pure (by simp [Block.events, *])

theorem Statement.check_performs : ∀ (s : Statement) {c : Context} {returnType : Option Ty},
    c.scopes.isGlobal = false → AllNodes Node.Placed (s.nodes returnType) →
      Performs c s.check fun s' events => events = s'.events
  | .declaration d, c, _, hlocal, h => by
      refine (d.check_performs h).bind ?_
      rintro d _ c' rfl -
      exact .pure (by rw [hlocal]; exact List.append_nil _)
  | .block b, c, _, hlocal, h => by
      refine (b.check_performs hlocal h).bind ?_
      rintro b _ c' rfl -
      exact .pure (List.append_nil _)
  | .expression e semicolon, c, _, _, _ => by
      apply Performs.get_bind
      refine .lift_bind e.check_notes ?_
      rintro e _ rfl
      exact .pure (List.append_nil _)
  | .empty semicolon, _, _, _, _ => .pure rfl
  | .ifThen keyword opening condition closing whenTrue, c, _, hlocal, h => by
      simp only [Statement.nodes, allNodes_append] at h
      refine (checkCondition_performs condition).bind ?_
      rintro condition _ c₁ rfl hlevel
      refine (whenTrue.check_performs (hlevel.trans hlocal) h.2).bind ?_
      rintro whenTrue _ c₂ rfl -
      exact .pure (by simp [Statement.events])
  | .ifElse keyword opening condition closing whenTrue otherwise whenFalse, c, _, hlocal, h => by
      simp only [Statement.nodes, allNodes_append] at h
      refine (checkCondition_performs condition).bind ?_
      rintro condition _ c₁ rfl hlevel₁
      refine (whenTrue.check_performs (hlevel₁.trans hlocal) h.1.2).bind ?_
      rintro whenTrue _ c₂ rfl hlevel₂
      refine (whenFalse.check_performs (hlevel₂.trans (hlevel₁.trans hlocal)) h.2).bind ?_
      rintro whenFalse _ c₃ rfl -
      exact .pure (by simp [Statement.events])
  | .whileLoop keyword opening condition closing body, c, _, _, h => by
      simp only [Statement.nodes, allNodes_append] at h
      apply Performs.inScope
      refine (Condition.check_performs h.1).bind ?_
      rintro condition _ c₁ rfl hlevel
      refine (Performs.inLoop (body.check_performs hlevel h.2)).bind ?_
      rintro body _ c₂ rfl -
      exact .pure (by simp [Statement.events])
  | .doLoop keyword body whileWord opening condition closing semicolon, c, _, hlocal, h => by
      simp only [Statement.nodes, allNodes_append] at h
      refine (Performs.inLoop (body.check_performs hlocal h.1)).bind ?_
      rintro body _ c₁ rfl -
      refine (checkCondition_performs condition).bind ?_
      rintro condition _ c₂ rfl -
      exact .pure (by simp [Statement.events])
  | .forLoop keyword opening init condition semicolon increment closing body, c, _, _, h => by
      simp only [Statement.nodes, allNodes_append, allNodes_optionalConditionNodes] at h
      obtain ⟨⟨⟨hinit, hcondition⟩, -⟩, hbody⟩ := h
      apply Performs.inScope
      refine (init.check_performs rfl hinit).bind ?_
      rintro init _ c₁ rfl hlevel₁
      refine (checkOptional_performs fun x hx => Condition.check_performs (hcondition x hx)).bind ?_
      rintro condition _ c₂ rfl hlevel₂
      apply Performs.get_bind
      refine (checkOptional_performs fun x _ => .lift x.check_notes).bind ?_
      rintro increment _ c₃ rfl hlevel₃
      have hlocal : c₃.scopes.isGlobal = false := hlevel₃.trans (hlevel₂.trans hlevel₁)
      refine (Performs.inLoop (body.check_performs hlocal hbody)).bind ?_
      rintro body _ c₄ rfl -
      exact .pure (by simp [Statement.events, optionalEvents, optionalConditionEvents])
  | .jump keyword semicolon, c, _, _, _ => by
      apply Performs.get_bind
      exact .skip (requireLoop_quiet keyword) fun _ => .pure rfl
  | .return keyword value semicolon, c, _, _, _ => by
      apply Performs.get_bind
      refine (checkOptional_performs fun x _ => .lift x.check_notes).bind ?_
      rintro value _ c' rfl -
      exact .skip (requireReturn_quiet keyword value) fun _ => .pure (List.append_nil _)

theorem checkStatements_performs : ∀ (ss : List Statement) {c : Context}
    {returnType : Option Ty}, c.scopes.isGlobal = false →
      AllNodes Node.Placed (Statement.nodesOfAll ss returnType) →
        Performs c (checkStatements ss) fun ss' events => events = Statement.eventsOfAll ss'
  | [], _, _, _, _ => .pure rfl
  | s :: ss, c, _, hlocal, h => by
      simp only [Statement.nodesOfAll, allNodes_append] at h
      refine (s.check_performs hlocal h.1).bind ?_
      rintro s _ c' rfl hlevel
      refine (checkStatements_performs ss (hlevel.trans hlocal) h.2).bind ?_
      rintro ss _ c'' rfl -
      exact .pure (by simp [Statement.eventsOfAll])

end

/-! ## Shaders -/

theorem checkDeclarations_performs : ∀ (ds : List Declaration) {c : Context},
    c.scopes.isGlobal = true → (∀ d ∈ ds, AllNodes Node.Placed d.nodes) →
      Performs c (checkDeclarations ds) fun ds' events =>
        events = ds'.flatMap (Declaration.events true)
  | [], _, _, _ => .pure rfl
  | d :: ds, c, hglobal, h => by
      obtain ⟨hd, hds⟩ := List.forall_mem_cons.1 h
      refine (d.check_performs hd).bind ?_
      rintro d _ c' rfl hlevel
      refine (checkDeclarations_performs ds (hlevel.trans hglobal) hds).bind ?_
      rintro ds _ c'' rfl -
      exact .pure (by simp [hglobal])

/-- Typing a shader from the start follows the trace of the typed shader. -/
theorem Shader.analyze_follows {shader : Shader} (h : AllNodes Node.Placed shader.nodes)
    (stage : Stage) (order : FunctionOrder) :
    Env.empty.AllRight stage (shader.analyze stage order).value.trace ∧
      remarksIn (shader.analyze stage order).problems =
        Env.empty.remarks stage (shader.analyze stage order).value.trace := by
  have htidy : (Context.empty stage order).Tidy :=
    List.forall_mem_singleton.2 (Scope.tidy_empty .global)
  obtain ⟨events, hevents, hfollows⟩ :=
    checkDeclarations_performs shader.declarations (c := .empty stage order) rfl
      (allNodes_flatMap.1 h) htidy
  subst hevents
  have hproblems : (shader.analyze stage order).problems =
      (checkDeclarations shader.declarations (.empty stage order)).problems ++ [] := rfl
  rw [hproblems, List.append_nil]
  exact ⟨hfollows.right, hfollows.remarks⟩

end Essl
