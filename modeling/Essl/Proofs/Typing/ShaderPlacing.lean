import Essl.Proofs.Tree.Parts
import Essl.Proofs.Typing.DeclaratorPlacing
import Essl.Typing.Shader

/-!
# Problems come part by part

By induction on declarations and statements, typing notes its problems with one part of a shader
after another, in the order of the parts. Within a part there is no such order: a target is looked
at after what is assigned to it, and a name after its initializer.
-/

namespace Essl

open Grammar

variable {names part : List Token} {c : Context}

/-! ## Conditions and jumps -/

theorem checkOptional_pointsIn {α : Type} {check : α → Check α} {P : α → Prop} {o : Option α}
    (h : ∀ a ∈ o, PointsIn names part (check a) P) :
    PointsIn names part (checkOptional check o) fun o' => ∀ a ∈ o', P a := by
  cases o with
  | none =>
      refine FindsEach.pure ?_
      rintro _ ⟨⟩
  | some a =>
      refine FindsEach.bind (h a rfl) fun a ha => FindsEach.pure ?_
      rintro _ ⟨⟩
      exact ha

theorem checkOptional_check_pointsIn {o : Option Expr}
    (h : ∀ e ∈ o, AllNodes Node.Regular e.nodes)
    (hpart : keptTokens (o.elim [] Expr.pieces) ⊆ part) :
    PointsIn names part (checkOptional (fun e => (e.check c : Noted Expr)) o) fun o' =>
      ∀ e ∈ o', e.MadeOf part := by
  refine checkOptional_pointsIn ?_
  rintro e rfl
  exact .lift (Expr.check_pointsAt (e.madeOf_of_regular (h e rfl) hpart))

theorem Condition.check_pointsIn (hpart : part ⊆ names) {condition : Condition}
    (h : condition.MadeOf part) : PointsIn names part condition.check fun _ => True := by
  unfold check
  extract_lets finish
  have hfinish : ∀ checked : Condition × Option Ty, checked.1.location.JoinedFrom part →
      PointsIn names part (finish checked) fun _ => True := by
    rintro ⟨condition, type⟩ hlocation
    exact FindsEach.bind (.lift (requireBool_pointsAt hlocation)) fun _ _ => .pure trivial
  cases condition with
  | expression e =>
      apply Finds.get_bind
      intro c _
      exact FindsEach.bind (.lift (Expr.check_pointsAt h))
        fun e he => hfinish (.expression e, e.info.type) he.location
  | declaration typeSpec d =>
      refine FindsEach.bind (TypeSpec.check_pointsIn hpart h.1) fun typeSpec hs => ?_
      refine FindsEach.bind (Declarator.check_pointsIn hpart h.2) fun d hd => ?_
      exact hfinish (.declaration typeSpec d, d.type) (.join hs hd)

theorem checkCondition_pointsIn {e : Expr} (h : e.MadeOf part) :
    PointsIn names part (checkCondition e) fun _ => True := by
  apply Finds.get_bind
  intro c _
  refine FindsEach.bind (.lift (Expr.check_pointsAt h)) fun e he => ?_
  exact FindsEach.bind (.lift (requireBool_pointsAt he.location)) fun _ _ => .pure trivial

theorem requireLoop_pointsAt {keyword : Token} (hkeyword : keyword ∈ part) :
    (requireLoop c keyword).PointsAt names part := by
  unfold requireLoop
  split
  case h_3 => exact .pure trivial
  all_goals
    split
    · split
      · exact .report (.token hkeyword) rfl rfl
      · exact .pure trivial
    · exact .pure trivial

theorem requireReturn_pointsAt {keyword : Token} (hkeyword : keyword ∈ part)
    {value : Option Expr} (h : ∀ e ∈ value, e.MadeOf part) :
    (requireReturn c keyword value).PointsAt names part := by
  unfold requireReturn
  split
  · exact .pure trivial
  · rename_i e _
    split
    · split
      · exact .pure trivial
      · exact .report (h e rfl).location rfl rfl
    · exact .pure trivial
  · split
    · exact .pure trivial
    · exact .report (.token hkeyword) rfl rfl

/-! ## Lists of names -/

theorem checkInvariants_foundIn : ∀ ns : List InvariantName,
    FoundIn names (ns.map ([·.name])) (checkInvariants c ns).problems
  | [] => .nil
  | n :: ns => by
      have hfirst : (c.variableNamed? n.name).PointsAt names [n.name] :=
        Context.variableNamed?_pointsAt (List.mem_singleton_self n.name)
      have hrest : FoundIn names (ns.map ([·.name])) ((checkInvariants c ns).problems ++ []) := by
        rw [List.append_nil]
        exact checkInvariants_foundIn ns
      exact (FoundIn.one hfirst.1).append hrest

theorem checkDeclarators_parts {base : Option Ty} {qualifiers : QualifierSet} :
    ∀ {ds : List Declarator}, (∀ d ∈ ds, AllNodes Node.Regular d.inside) →
      (ds.map (keptTokens ·.pieces)).flatten ⊆ names →
        FindsParts names (ds.map (keptTokens ·.pieces)) (Context.NamedIn names)
          (checkDeclarators base qualifiers ds)
  | [], _, _ => .pure
  | d :: ds, h, hnames => by
      obtain ⟨hd, hds⟩ := List.forall_mem_cons.1 h
      simp only [List.map_cons, List.flatten_cons, List.append_subset] at hnames
      have hmade := Declarator.madeOf_of_regular hd (List.Subset.refl _)
      refine FindsParts.next (Declarator.check_pointsIn hnames.1 hmade) fun d _ => ?_
      exact (checkDeclarators_parts hds hnames.2).last fun _ => .pure

/-! ## Declarations and statements -/

mutual

theorem Declaration.check_parts : ∀ d : Declaration, AllNodes Node.Regular d.nodes →
    d.parts.flatten ⊆ names → FindsParts names d.parts (Context.NamedIn names) d.check
  | .declarators s ds semicolon, h, hnames => by
      simp only [Declaration.nodes, allNodes_append, allNodes_flatMap] at h
      simp only [Declaration.parts, List.flatten_cons, List.append_subset] at hnames
      have hs := TypeSpec.madeOf_of_pieces h.1 (List.Subset.refl _)
      apply Finds.get_bind
      intro c _
      refine FindsParts.within (.lift (requireStorages_pointsAt hs.storage)) fun _ _ => ?_
      refine FindsParts.next (TypeSpec.check_pointsIn hnames.1 hs) fun s _ => ?_
      exact (checkDeclarators_parts (fun d hd => (allNodes_cons.1 (h.2 d hd)).2) hnames.2).last
        fun _ => .pure
  | .type s semicolon, h, hnames => by
      simp only [Declaration.parts, List.flatten_singleton] at hnames
      have hs := TypeSpec.madeOf_of_pieces h (List.Subset.refl _)
      apply Finds.get_bind
      intro c _
      refine FindsParts.within (.lift (requireStorages_pointsAt hs.storage)) fun _ _ => ?_
      exact FindsParts.next (TypeSpec.check_pointsIn hnames hs) fun _ _ => .pure
  | .precision keyword precision s semicolon, h, hnames => by
      simp only [Declaration.parts, List.flatten_singleton] at hnames
      have hs := TypeSpec.madeOf_of_pieces h (List.Subset.refl _)
      refine FindsParts.one (P := fun _ => True) ?_
      refine FindsEach.bind (TypeSpec.check_pointsIn hnames hs) fun s hs => ?_
      split
      · exact FindsEach.first_if (.lift (.report (.plain hs rfl rfl))) fun _ => .pure trivial
      · exact FindsEach.pure trivial
  | .invariants keyword ns semicolon, _, _ => by
      apply Finds.get_bind
      intro c _
      have hkeyword : keyword ∈ [keyword] := List.mem_singleton_self keyword
      refine FindsParts.next_if (.lift (.report (.plain (.token hkeyword) rfl rfl))) fun _ => ?_
      exact (FindsParts.lift (checkInvariants_foundIn ns)).last fun _ => .pure
  | .prototype header semicolon, h, hnames => by
      simp only [Declaration.parts, List.flatten_singleton] at hnames
      have hheader := FunctionHeader.madeOf_of_regular h (List.Subset.refl _)
      exact FindsParts.next (FunctionHeader.check_pointsIn hnames hheader) fun _ _ => .pure
  | .function header body, h, hnames => by
      simp only [Declaration.nodes, allNodes_append] at h
      simp only [Declaration.parts, List.flatten_cons, List.append_subset] at hnames
      have hheader := FunctionHeader.madeOf_of_regular h.1 (List.Subset.refl _)
      refine FindsParts.within (FunctionHeader.check_pointsIn hnames.1 hheader) fun header hps => ?_
      have hbody := Block.checkInside_parts body h.2 hnames.2
      have hinside := FindsParts.next (declareParameters_pointsIn hnames.1 hps)
        fun parameters _ => hbody.last fun body => .pure (a := (parameters, body))
      exact FindsParts.last (hinside.inFunctionIn header.returnType.type) fun _ => .pure

theorem Block.checkInside_parts : ∀ (b : Block) {returnType : Option Ty},
    AllNodes Node.Regular (b.nodes returnType) → b.parts.flatten ⊆ names →
      FindsParts names b.parts (Context.NamedIn names) b.checkInside
  | ⟨_, statements, _, _⟩, _, h, hnames =>
      (checkStatements_parts statements h hnames).last fun _ => .pure

theorem Block.check_parts : ∀ (b : Block) {returnType : Option Ty},
    AllNodes Node.Regular (b.nodes returnType) → b.parts.flatten ⊆ names →
      FindsParts names b.parts (Context.NamedIn names) b.check
  | ⟨_, statements, _, newScope⟩, _, h, hnames => by
      have hstatements := checkStatements_parts statements h hnames
      unfold Block.check
      extract_lets finish
      split
      · exact FindsParts.last (hstatements.inScopeIn .block) fun _ => .pure
      · exact hstatements.last fun _ => .pure

theorem Statement.check_parts : ∀ (s : Statement) {returnType : Option Ty},
    AllNodes Node.Regular (s.nodes returnType) → s.parts.flatten ⊆ names →
      FindsParts names s.parts (Context.NamedIn names) s.check
  | .declaration d, _, h, hnames => (Declaration.check_parts d h hnames).last fun _ => .pure
  | .block b, _, h, hnames => (Block.check_parts b h hnames).last fun _ => .pure
  | .expression e semicolon, _, h, _ => by
      apply Finds.get_bind
      intro c _
      have he := e.madeOf_of_regular h (List.Subset.refl _)
      exact FindsParts.next (.lift (Expr.check_pointsAt he)) fun _ _ => .pure
  | .empty semicolon, _, _, _ => .pure
  | .ifThen keyword opening condition closing whenTrue, _, h, hnames => by
      simp only [Statement.nodes, Condition.nodes, allNodes_append, allNodes_cons] at h
      simp only [Statement.parts, List.flatten_cons, List.append_subset] at hnames
      have hcondition := condition.madeOf_of_regular h.1.2 (List.Subset.refl _)
      refine FindsParts.next (checkCondition_pointsIn hcondition) fun _ _ => ?_
      exact (Statement.check_parts whenTrue h.2 hnames.2).last fun _ => .pure
  | .ifElse keyword opening condition closing whenTrue otherwise whenFalse, _, h, hnames => by
      simp only [Statement.nodes, Condition.nodes, allNodes_append, allNodes_cons] at h
      simp only [Statement.parts, List.flatten_cons, List.flatten_append, List.append_subset]
        at hnames
      have hcondition := condition.madeOf_of_regular h.1.1.2 (List.Subset.refl _)
      refine FindsParts.next (checkCondition_pointsIn hcondition) fun _ _ => ?_
      refine (Statement.check_parts whenTrue h.1.2 hnames.2.1).andThen fun _ => ?_
      exact (Statement.check_parts whenFalse h.2 hnames.2.2).last fun _ => .pure
  | .whileLoop keyword opening condition closing body, _, h, hnames => by
      simp only [Statement.nodes, allNodes_append] at h
      simp only [Statement.parts, List.flatten_cons, List.append_subset] at hnames
      have hcondition := condition.madeOf_of_regular h.1 (List.Subset.refl _)
      apply Finds.inScopeIn
      refine FindsParts.next (Condition.check_pointsIn hnames.1 hcondition) fun _ _ => ?_
      exact FindsParts.last (Statement.check_parts body h.2 hnames.2).inLoopIn fun _ => .pure
  | .doLoop keyword body whileWord opening condition closing semicolon, _, h, hnames => by
      simp only [Statement.nodes, Condition.nodes, allNodes_append, allNodes_cons] at h
      simp only [Statement.parts, List.flatten_append, List.append_subset] at hnames
      have hcondition := condition.madeOf_of_regular h.2.2 (List.Subset.refl _)
      refine FindsParts.andThen (Statement.check_parts body h.1 hnames.1).inLoopIn fun _ => ?_
      exact FindsParts.next (checkCondition_pointsIn hcondition) fun _ _ => .pure
  | .forLoop keyword opening init condition semicolon increment closing body, _, h, hnames => by
      simp only [Statement.nodes, allNodes_append, allNodes_optionalConditionNodes,
        allNodes_optionalNodes] at h
      obtain ⟨⟨⟨hinit, hcondition⟩, hincrement⟩, hbody⟩ := h
      simp only [Statement.parts, List.flatten_append, List.flatten_cons, List.append_subset]
        at hnames
      obtain ⟨hinitNames, hconditionNames, hincrementNames, hbodyNames⟩ := hnames
      apply Finds.inScopeIn
      refine (Statement.check_parts init hinit hinitNames).andThen fun _ => ?_
      have hcheck : PointsIn names (keptTokens (condition.elim [] Condition.pieces))
          (checkOptional Condition.check condition) fun o => ∀ x ∈ o, True := by
        refine checkOptional_pointsIn ?_
        rintro x rfl
        exact Condition.check_pointsIn hconditionNames
          (x.madeOf_of_regular (hcondition x rfl) (List.Subset.refl _))
      refine FindsParts.next hcheck fun _ _ => ?_
      apply Finds.get_bind
      intro c _
      refine FindsParts.next (checkOptional_check_pointsIn hincrement (List.Subset.refl _))
        fun _ _ => ?_
      exact FindsParts.last (Statement.check_parts body hbody hbodyNames).inLoopIn fun _ => .pure
  | .jump keyword semicolon, _, _, _ => by
      apply Finds.get_bind
      intro c _
      exact FindsParts.next (.lift (requireLoop_pointsAt (List.mem_singleton_self keyword)))
        fun _ _ => .pure
  | .return keyword value semicolon, _, h, _ => by
      simp only [Statement.nodes, allNodes_cons, allNodes_optionalNodes] at h
      apply Finds.get_bind
      intro c _
      refine FindsParts.within (checkOptional_check_pointsIn h.2 (List.subset_cons_self _ _))
        fun value hvalue => ?_
      exact FindsParts.next (.lift (requireReturn_pointsAt List.mem_cons_self hvalue))
        fun _ _ => .pure

theorem checkStatements_parts : ∀ (ss : List Statement) {returnType : Option Ty},
    AllNodes Node.Regular (Statement.nodesOfAll ss returnType) →
      (Statement.partsOfAll ss).flatten ⊆ names →
        FindsParts names (Statement.partsOfAll ss) (Context.NamedIn names) (checkStatements ss)
  | [], _, _, _ => .pure
  | s :: ss, _, h, hnames => by
      simp only [Statement.nodesOfAll, allNodes_append] at h
      simp only [Statement.partsOfAll, List.flatten_append, List.append_subset] at hnames
      refine (Statement.check_parts s h.1 hnames.1).andThen fun _ => ?_
      exact (checkStatements_parts ss h.2 hnames.2).last fun _ => .pure

end

/-! ## Shaders -/

theorem checkDeclarations_parts : ∀ ds : List Declaration,
    (∀ d ∈ ds, AllNodes Node.Regular d.nodes) → (ds.flatMap Declaration.parts).flatten ⊆ names →
      FindsParts names (ds.flatMap Declaration.parts) (Context.NamedIn names)
        (checkDeclarations ds)
  | [], _, _ => .pure
  | d :: ds, h, hnames => by
      obtain ⟨hd, hds⟩ := List.forall_mem_cons.1 h
      simp only [List.flatMap_cons, List.flatten_append, List.append_subset] at hnames
      refine (Declaration.check_parts d hd hnames.1).andThen fun _ => ?_
      exact (checkDeclarations_parts ds hds hnames.2).last fun _ => .pure

/-- Typing a shader notes the problems with its parts in the order of the parts. -/
theorem Shader.analyze_parts {shader : Shader} (h : AllNodes Node.Regular shader.nodes)
    (hnames : shader.parts.flatten ⊆ names) (stage : Stage) (order : FunctionOrder) :
    FoundIn names shader.parts (shader.analyze stage order).problems := by
  have hempty : (Context.empty stage order).NamedIn names := Scopes.All.empty
  have hparts := checkDeclarations_parts shader.declarations (allNodes_flatMap.1 h) hnames
  have heq : (shader.analyze stage order).problems =
      (checkDeclarations shader.declarations (.empty stage order)).problems ++ [] := rfl
  rw [heq, List.append_nil]
  exact (hparts _ hempty).1

end Essl
