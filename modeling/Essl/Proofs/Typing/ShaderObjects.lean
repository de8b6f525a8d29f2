import Essl.Proofs.Typing.Objects

/-!
# Objects in shaders

By induction on declarations and statements, array types have elements everywhere in a typed
shader. Where typing finds no problem, nothing is declared as `void`, and arrays of it come only
from sizes behind names.
-/

namespace Essl

open Grammar

variable {clean : Prop}

/-! ## Statements -/

/-- Array types have elements and objects have values, in the nodes and in what the names of
invariants stand for. -/
structure Measured (clean : Prop) (nodes : Option Ty → List Node) (names : List InvariantName) :
    Prop where
  nodes : ∀ returnType, AllNodes (Node.Measured clean) (nodes returnType)
  names : ∀ n ∈ names, n.Sized

abbrev Statement.Measured (clean : Prop) (s : Statement) : Prop :=
  Essl.Measured clean s.nodes s.invariantNames

abbrev Block.Measured (clean : Prop) (b : Block) : Prop :=
  Essl.Measured clean b.nodes b.invariantNames

abbrev Declaration.Measured (clean : Prop) (d : Declaration) : Prop :=
  Essl.Measured clean (fun _ => d.nodes) d.invariantNames

namespace Measured

variable {nodes more : Option Ty → List Node} {names others : List InvariantName}

theorem ofNodes (h : ∀ returnType, AllNodes (Node.Measured clean) (nodes returnType)) :
    Measured clean nodes [] :=
  ⟨h, fun _ h => nomatch h⟩

theorem append (h : Measured clean nodes names) (h' : Measured clean more others) :
    Measured clean (fun returnType => nodes returnType ++ more returnType) (names ++ others) :=
  ⟨fun returnType => allNodes_append.2 ⟨h.nodes returnType, h'.nodes returnType⟩,
    List.forall_mem_append.2 ⟨h.names, h'.names⟩⟩

end Measured

theorem checkCondition_measured (e : Expr) :
    Keeps clean Context.Sized (checkCondition e) fun e' =>
      AllNodes (Node.Measured clean) (Condition.expression e').nodes := by
  apply Keeps.get_bind
  intro c hc
  refine (Keeps.lift (Expr.check_measured hc e)).bind fun e he => ?_
  refine (Keeps.lift .trivial).bind fun _ _ => Keeps.pure ?_
  simp only [Condition.nodes, allNodes_cons]
  exact ⟨⟨trivial, fun _ => trivial⟩, he⟩

theorem Condition.check_measured {condition : Condition}
    (h : AllNodes Node.Regular condition.nodes) :
    Keeps clean Context.Sized condition.check fun condition' =>
      AllNodes (Node.Measured clean) condition'.nodes := by
  unfold check
  extract_lets finish
  have hfinish : ∀ checked : Condition × Option Ty,
      AllNodes (Node.Measured clean) checked.1.nodes →
        Keeps clean Context.Sized (finish checked) fun condition' =>
          AllNodes (Node.Measured clean) condition'.nodes := by
    rintro ⟨condition, type⟩ hnodes
    exact (Keeps.lift .trivial).bind fun _ _ => Keeps.pure hnodes
  cases condition with
  | expression e =>
      apply Keeps.get_bind
      intro c hc
      refine (Keeps.lift (Expr.check_measured hc e)).bind fun e he => ?_
      refine hfinish (.expression e, e.info.type) ?_
      simp only [nodes, allNodes_cons]
      exact ⟨⟨trivial, fun _ => trivial⟩, he⟩
  | declaration s d =>
      simp only [nodes, allNodes_cons, allNodes_append] at h
      refine (TypeSpec.check_measured s h.2.1).bind ?_
      rintro s ⟨hs, hplain⟩
      refine (Declarator.check_measured (TypeSpec.sized_of_nodes hs) hplain .empty d).bind
        fun d hd => ?_
      refine hfinish (.declaration s d, d.type) ?_
      simp only [nodes, allNodes_cons, allNodes_append]
      exact ⟨⟨trivial, fun _ => trivial⟩, hs, hd⟩

theorem checkInvariants_sized {c : Context} (hc : c.Sized) : ∀ names : List InvariantName,
    (checkInvariants c names).Ensures clean fun names' => ∀ n ∈ names', n.Sized
  | [] => Noted.Ensures.pure (by simp)
  | n :: names => by
      refine (hc.variableNamed? n.name).bind fun found hfound => ?_
      refine (checkInvariants_sized hc names).bind fun names hnames => Noted.Ensures.pure ?_
      exact List.forall_mem_cons.2 ⟨hfound, hnames⟩

mutual

theorem Declaration.check_measured : ∀ d : Declaration, AllNodes Node.Regular d.nodes →
    Keeps clean Context.Sized d.check (Declaration.Measured clean)
  | .declarators s ds semicolon, h => by
      simp only [Declaration.nodes, allNodes_append] at h
      refine (Keeps.get_bind fun c _ => ?_)
      refine (Keeps.lift .trivial).bind fun _ _ => ?_
      refine (TypeSpec.check_measured s h.1).bind ?_
      rintro s ⟨hs, hplain⟩
      refine (checkDeclarators_measured (TypeSpec.sized_of_nodes hs) hplain _ ds).bind
        fun ds hds => Keeps.pure (Measured.ofNodes fun _ => ?_)
      simp only [Declaration.nodes, allNodes_append, allNodes_flatMap]
      exact ⟨hs, hds⟩
  | .type s semicolon, h => by
      refine (Keeps.get_bind fun c _ => ?_)
      refine (Keeps.lift .trivial).bind fun _ _ => ?_
      exact (TypeSpec.check_measured s h).bind
        fun s hs => Keeps.pure (Measured.ofNodes fun _ => hs.1)
  | .precision keyword precision s semicolon, h => by
      refine (TypeSpec.check_measured s h).bind fun s hs => ?_
      extract_lets finish
      have hfinish : ∀ u, Keeps clean Context.Sized (finish u) (Declaration.Measured clean) :=
        fun _ => Keeps.pure (Measured.ofNodes fun _ => hs.1)
      split
      · exact Keeps.first_if (Keeps.lift .trivial) hfinish
      · exact hfinish ()
  | .invariants keyword names semicolon, _ => by
      apply Keeps.get_bind
      intro c hc
      extract_lets finish
      have hfinish : ∀ u, Keeps clean Context.Sized (finish u) (Declaration.Measured clean) :=
        fun _ => (Keeps.lift (checkInvariants_sized hc names)).bind fun names hnames =>
          Keeps.pure ⟨fun _ => allNodes_nil, hnames⟩
      exact Keeps.first_if (Keeps.lift .trivial) hfinish
  | .prototype header semicolon, h =>
      (FunctionHeader.check_measured .prototype h).bind fun _ hheader =>
        Keeps.pure (Measured.ofNodes fun _ => hheader)
  | .function header body, h => by
      simp only [Declaration.nodes, allNodes_append] at h
      refine (FunctionHeader.check_measured .definition h.1).bind fun header hheader => ?_
      simp only [FunctionHeader.nodes, allNodes_cons, allNodes_append, allNodes_flatMap] at hheader
      obtain ⟨⟨hsymbol, hobjects⟩, hreturn, hparameters⟩ := hheader
      refine (Keeps.inFunctionIn (P := fun checked : List ParameterSpec × Block =>
        ((∀ p ∈ checked.1, AllNodes (Node.Measured clean) p.nodes) ∧ ∀ p ∈ checked.1,
          ∃ q ∈ header.parameters, p.name = q.name ∧ p.type = q.type ∧ p.size = q.size) ∧
            checked.2.Measured clean) header.returnType.type ?_).bind ?_
      · refine (declareParameters_measured header.parameters hparameters).bind fun ps hps => ?_
        exact (Block.checkInside_measured body h.2).bind
          fun body hbody => Keeps.pure ⟨hps, hbody⟩
      · rintro ⟨parameters, body⟩ ⟨⟨hparameters, hsame⟩, hbody⟩
        refine Keeps.pure ⟨fun _ => ?_, hbody.names⟩
        simp only [Declaration.nodes, FunctionHeader.nodes, allNodes_cons, allNodes_append,
          allNodes_flatMap]
        refine ⟨⟨⟨hsymbol, fun hclean hsome p hp hname => ?_⟩, hreturn, hparameters⟩,
          hbody.nodes _⟩
        obtain ⟨q, hq, hqname, hqtype, hqsize⟩ := hsame p hp
        rw [hqname] at hname
        rw [hqtype, hqsize]
        exact hobjects hclean hsome q hq hname

theorem Block.checkInside_measured : ∀ (b : Block) {returnType : Option Ty},
    AllNodes Node.Regular (b.nodes returnType) →
      Keeps clean Context.Sized b.checkInside (Block.Measured clean)
  | ⟨_, statements, _, _⟩, _, h =>
      (checkStatements_measured statements h).bind fun _ hstatements => Keeps.pure hstatements

theorem Block.check_measured : ∀ (b : Block) {returnType : Option Ty},
    AllNodes Node.Regular (b.nodes returnType) →
      Keeps clean Context.Sized b.check (Block.Measured clean)
  | ⟨_, statements, _, newScope⟩, _, h => by
      have hstatements := checkStatements_measured statements h
      unfold Block.check
      extract_lets finish
      split
      · exact (hstatements.inScopeIn .block).bind fun _ h => Keeps.pure h
      · exact hstatements.bind fun _ h => Keeps.pure h

theorem Statement.check_measured : ∀ (s : Statement) {returnType : Option Ty},
    AllNodes Node.Regular (s.nodes returnType) →
      Keeps clean Context.Sized s.check (Statement.Measured clean)
  | .declaration d, _, h =>
      (Declaration.check_measured d h).bind fun _ hd => Keeps.pure hd
  | .block b, _, h => (Block.check_measured b h).bind fun _ hb => Keeps.pure hb
  | .expression e semicolon, _, _ => by
      apply Keeps.get_bind
      intro c hc
      exact (Keeps.lift (Expr.check_measured hc e)).bind
        fun _ he => Keeps.pure (Measured.ofNodes fun _ => he)
  | .empty semicolon, _, _ => Keeps.pure (Measured.ofNodes fun _ => allNodes_nil)
  | .ifThen keyword opening condition closing whenTrue, _, h => by
      simp only [Statement.nodes, allNodes_append] at h
      refine (checkCondition_measured condition).bind fun condition hcondition => ?_
      refine (Statement.check_measured whenTrue h.2).bind fun whenTrue htrue => Keeps.pure ?_
      exact (Measured.ofNodes fun _ => hcondition).append htrue
  | .ifElse keyword opening condition closing whenTrue otherwise whenFalse, _, h => by
      simp only [Statement.nodes, allNodes_append] at h
      refine (checkCondition_measured condition).bind fun condition hcondition => ?_
      refine (Statement.check_measured whenTrue h.1.2).bind fun whenTrue htrue => ?_
      refine (Statement.check_measured whenFalse h.2).bind fun whenFalse hfalse => Keeps.pure ?_
      exact ((Measured.ofNodes fun _ => hcondition).append htrue).append hfalse
  | .whileLoop keyword opening condition closing body, _, h => by
      simp only [Statement.nodes, allNodes_append] at h
      apply Keeps.inScopeIn
      refine (Condition.check_measured h.1).bind fun condition hcondition => ?_
      refine (Statement.check_measured body h.2).inLoopIn.bind fun body hbody => Keeps.pure ?_
      exact (Measured.ofNodes fun _ => hcondition).append hbody
  | .doLoop keyword body whileWord opening condition closing semicolon, _, h => by
      simp only [Statement.nodes, allNodes_append] at h
      refine (Statement.check_measured body h.1).inLoopIn.bind fun body hbody => ?_
      refine (checkCondition_measured condition).bind fun condition hcondition => Keeps.pure ?_
      refine ⟨fun returnType => ?_, hbody.names⟩
      exact allNodes_append.2 ⟨hbody.nodes returnType, hcondition⟩
  | .forLoop keyword opening init condition semicolon increment closing body, _, h => by
      simp only [Statement.nodes, allNodes_append, allNodes_optionalConditionNodes] at h
      obtain ⟨⟨⟨hinit, hcondition⟩, -⟩, hbody⟩ := h
      apply Keeps.inScopeIn
      refine (Statement.check_measured init hinit).bind fun init hinit => ?_
      refine (checkOptional_keeps fun x hx => Condition.check_measured (hcondition x hx)).bind
        fun condition hcondition => ?_
      apply Keeps.get_bind
      intro c hc
      refine (checkOptional_keeps fun x _ => Keeps.lift (Expr.check_measured hc x)).bind
        fun increment hincrement => ?_
      refine (Statement.check_measured body hbody).inLoopIn.bind fun body hbody => Keeps.pure ?_
      refine ⟨fun returnType => ?_, List.forall_mem_append.2 ⟨hinit.names, hbody.names⟩⟩
      simp only [Statement.nodes, allNodes_append, allNodes_optionalNodes,
        allNodes_optionalConditionNodes]
      exact ⟨⟨⟨hinit.nodes returnType, hcondition⟩, hincrement⟩, hbody.nodes returnType⟩
  | .jump keyword semicolon, _, _ => by
      apply Keeps.get_bind
      intro c _
      exact (Keeps.lift .trivial).bind
        fun _ _ => Keeps.pure (Measured.ofNodes fun _ => allNodes_nil)
  | .return keyword value semicolon, _, _ => by
      apply Keeps.get_bind
      intro c hc
      refine (checkOptional_keeps fun x _ => Keeps.lift (Expr.check_measured hc x)).bind
        fun value hvalue => ?_
      refine (Keeps.lift .trivial).bind fun _ _ => Keeps.pure (Measured.ofNodes fun _ => ?_)
      simp only [Statement.nodes, allNodes_cons, allNodes_optionalNodes]
      exact ⟨⟨trivial, fun _ => trivial⟩, hvalue⟩

theorem checkStatements_measured : ∀ (ss : List Statement) {returnType : Option Ty},
    AllNodes Node.Regular (Statement.nodesOfAll ss returnType) →
      Keeps clean Context.Sized (checkStatements ss) fun ss' =>
        Measured clean (Statement.nodesOfAll ss') (Statement.invariantNamesOfAll ss')
  | [], _, _ => Keeps.pure (Measured.ofNodes fun _ => allNodes_nil)
  | s :: ss, _, h => by
      simp only [Statement.nodesOfAll, allNodes_append] at h
      refine (Statement.check_measured s h.1).bind fun s hs => ?_
      refine (checkStatements_measured ss h.2).bind fun ss hss => Keeps.pure ?_
      exact hs.append hss

end

/-! ## Shaders -/

theorem checkDeclarations_measured : ∀ ds : List Declaration,
    (∀ d ∈ ds, AllNodes Node.Regular d.nodes) →
      Keeps clean Context.Sized (checkDeclarations ds) fun ds' =>
        ∀ d ∈ ds', d.Measured clean
  | [], _ => Keeps.pure (by simp)
  | d :: ds, h => by
      obtain ⟨hd, hds⟩ := List.forall_mem_cons.1 h
      refine (Declaration.check_measured d hd).bind fun d hd => ?_
      refine (checkDeclarations_measured ds hds).bind fun ds hds => Keeps.pure ?_
      exact List.forall_mem_cons.2 ⟨hd, hds⟩

namespace Shader

theorem analyze_measured {shader : Shader} (h : AllNodes Node.Regular shader.nodes)
    (stage : Stage) (order : FunctionOrder) :
    (shader.analyze stage order).Ensures clean fun shader' =>
      Measured clean (fun _ => shader'.nodes) shader'.invariantNames := by
  intro hproblems
  have hds : Keeps clean Context.Sized (checkDeclarations shader.declarations) _ :=
    checkDeclarations_measured shader.declarations (allNodes_flatMap.1 h)
  have hempty : (Context.empty stage order).Sized := Scopes.All.empty
  have hmeasured := (hds (.empty stage order) hempty fun hclean =>
    (List.append_eq_nil_iff.1 (hproblems hclean)).1).1
  refine ⟨fun _ => allNodes_flatMap.2 fun d hd => (hmeasured d hd).nodes none, ?_⟩
  exact List.forall_mem_flatMap.2 fun d hd => (hmeasured d hd).names

variable {tokens : List Token}

/-- Where typing finds no problem, no variable, field or named parameter is declared as `void`, and
as an array of `void` only with a size behind its name. Array types have elements in any case. -/
theorem analyze_objects (ht : ∀ t ∈ tokens, t.Written) (stage : Stage) (order : FunctionOrder) :
    let analysis := (parseShader tokens).shader.analyze stage order
    (analysis.problems = [] → AllNodes Node.Objects analysis.value.nodes) ∧
      AllNodes Node.Sized analysis.value.nodes ∧
        ∀ n ∈ analysis.value.invariantNames, n.Sized := by
  intro analysis
  have hregular : AllNodes Node.Regular _ := parseShader_regular ht
  have hany : Measured False _ _ := analyze_measured hregular stage order False.elim
  refine ⟨fun hproblems n hn => ?_, (hany.nodes none).mono fun _ => Node.Measured.sized,
    hany.names⟩
  have hclean : Measured True _ _ := analyze_measured hregular stage order fun _ => hproblems
  have hmeasured := hclean.nodes none n hn
  cases n with
  | header h =>
      have hsound : AllNodes (Node.Sound True) _ := analyze_sound_of_no_problems ht hproblems
      exact hmeasured.2 trivial (hsound _ hn trivial)
  | _ => exact hmeasured.2 trivial

/-- A struct, a function and a local array. -/
theorem analyze_objects_array :
    let analysis := (ofText
      "struct S { float a[2]; }; float f(S s, vec2 v[3]) { int n[4]; return s.a[1]; }").analyze
        .vertex
    analysis.problems = [] ∧ AllNodes Node.Objects analysis.value.nodes := by
  intro analysis
  have h : analysis.problems = [] := by decide +kernel
  exact ⟨h, (analyze_objects (Code.written_scan _) .vertex .newestFirst).1 h⟩

/-- A variable, a field and a parameter that are arrays of `void`. -/
theorem analyze_accepts_void_arrays :
    let analysis := (ofText "void a[2]; struct S { void b[3]; }; void f(void c[4]) {}").analyze
      .vertex
    let declared := analysis.value.nodes.flatMap Node.declaredTypes
    analysis.problems = [] ∧ declared = [.array .void 2, .array .void 3, .array .void 4] ∧
      declared.map Ty.core = [.void, .void, .void] := by
  intro analysis declared
  have hdeclared : declared = [.array .void 2, .array .void 3, .array .void 4] := by
    decide +kernel
  exact ⟨by decide +kernel, hdeclared, by rw [hdeclared]; rfl⟩

end Shader

end Essl
