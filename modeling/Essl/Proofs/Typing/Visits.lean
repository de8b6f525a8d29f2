import Essl.Proofs.Grammar.Regular
import Essl.Proofs.Typing.Declared
import Essl.Proofs.Typing.ShaderSound

/-!
# Expressions wherever they are typed

Typing an expression depends on no more than the context. So what typing makes of any expression,
in any context whose variables are as declarations make them, holds of all expressions in a typed
shader, whether problems are noted or not.
-/

namespace Essl

/-- What typing says about expressions, and about the variables that they find. -/
structure Visitor where
  /-- Holds of the variables in scope. -/
  Variable : Variable → Prop
  /-- Holds of the expressions after typing. -/
  Expr : Expr → Prop

namespace Visitor

variable (V : Visitor)

/-- What the visitor has to say about a node. -/
def Node : Node → Prop
  | .expr e => V.Expr e
  | .declarator d => ∀ v ∈ d.symbol, V.Variable v
  | .parameter p => ∀ v ∈ p.symbol, V.Variable v
  | _ => True

def Symbol : Symbol → Prop
  | .variable v => V.Variable v
  | _ => True

/-- The visitor is right about all variables in scope. -/
abbrev Context : Context → Prop := Context.All V.Symbol fun _ => True

/-- The visitor is right about expressions in contexts where it is right about variables, and about
every variable as it is declared. -/
structure Right : Prop where
  expr : ∀ {c : Essl.Context}, V.Context c → ∀ e : Essl.Expr,
    AllNodes V.Node (e.check c).value.nodes
  declared : ∀ (name : String) (type : Option Ty) (qualifiers : QualifierSet)
    (initializer : Option Essl.Expr) (readOnly : Bool) (location : Option Location),
    V.Variable ⟨name, type, qualifiers, declaredConstant qualifiers type initializer, readOnly,
      location⟩

namespace Right

variable {V} {c : Essl.Context}

theorem check (hV : V.Right) (hc : V.Context c) (e : Essl.Expr) :
    (e.check c).Ensures False fun e' => AllNodes V.Node e'.nodes :=
  fun _ => hV.expr hc e

/-! ## Declarations -/

theorem arraySize (hV : V.Right) (hc : V.Context c) (size : ArraySize) :
    (size.check c).Ensures False fun sized => AllNodes V.Node sized.1.size.nodes := by
  refine (hV.check hc size.size).bind fun expr hexpr => ?_
  exact Noted.Ensures.andThen fun _ => Noted.Ensures.pure hexpr

theorem declaredType (hV : V.Right) (hc : V.Context c) (base : Option Ty)
    (size : Option ArraySize) :
    (declaredType c base size).Ensures False fun declared =>
      AllNodes V.Node (sizeNodes declared.1) := by
  cases size with
  | none => exact Noted.Ensures.pure allNodes_nil
  | some size => exact (hV.arraySize hc size).bind fun _ hsize => Noted.Ensures.pure hsize

theorem checkFieldNames (hV : V.Right) (hc : V.Context c) (base : Option Ty) :
    ∀ (fields : List Field) (ds : List Declarator),
      (∀ d ∈ ds, AllNodes Node.Regular d.fieldNodes) →
        (checkFieldNames c base fields ds).Ensures False fun named =>
          ∀ d ∈ named.1, AllNodes V.Node d.fieldNodes
  | fields, [], _ => Noted.Ensures.pure (by simp)
  | fields, d :: ds, h => by
      obtain ⟨hd, hds⟩ := List.forall_mem_cons.1 h
      have hbare : d.initializer = none := (allNodes_cons.1 hd).1
      refine (hV.declaredType hc base d.size).bind ?_
      rintro ⟨size, type⟩ hsize
      refine Noted.Ensures.andThen fun _ => ?_
      extract_lets typed field
      have hnodes : AllNodes V.Node typed.fieldNodes := by
        simp only [Declarator.fieldNodes, Declarator.inside, allNodes_cons, allNodes_append]
        refine ⟨trivial, hsize, ?_⟩
        rw [show typed.initializer = none from hbare]
        exact allNodes_nil
      split
      · refine Noted.Ensures.andThen fun _ => ?_
        refine (checkFieldNames hV hc base fields ds hds).bind fun named hnamed => ?_
        exact Noted.Ensures.pure (List.forall_mem_cons.2 ⟨hnodes, hnamed⟩)
      · refine (checkFieldNames hV hc base _ ds hds).bind fun named hnamed => ?_
        exact Noted.Ensures.pure (List.forall_mem_cons.2 ⟨hnodes, hnamed⟩)

mutual

theorem typeSpec (hV : V.Right) : ∀ s : TypeSpec, AllNodes Node.Regular s.nodes →
    Keeps False V.Context s.check fun s' => AllNodes V.Node s'.nodes
  | .named q name _, _ => by
      apply Keeps.get_bind
      intro c _
      refine (Keeps.lift .trivial).bind fun _ _ => Keeps.pure ?_
      simp only [TypeSpec.nodes, allNodes_cons, allNodes_nil, and_true]
      trivial
  | .struct q keyword name opening fields closing _ _, h => by
      simp only [TypeSpec.nodes, allNodes_cons] at h
      refine ((checkFields hV fields h.2 []).inScopeIn .struct).bind ?_
      rintro ⟨fields, members⟩ hfields
      have hdefine : Keeps False V.Context (defineStruct keyword name members) fun _ => True := by
        apply Keeps.get_bind
        intro c hc
        have hcounted : V.Context { c with structCount := c.structCount + 1 } := hc
        exact (Keeps.put hcounted).bind fun _ _ => Keeps.pure (P := fun _ => True) trivial
      refine hdefine.bind fun s _ => ?_
      have hnodes : AllNodes V.Node (TypeSpec.nodes
          (.struct q keyword name opening fields closing (some s) (some (.struct s)))) := by
        simp only [TypeSpec.nodes, allNodes_cons]
        exact ⟨trivial, hfields⟩
      split
      · rename_i name
        have hstruct : V.Symbol (.struct s) := trivial
        exact (Keeps.declareIn name hstruct).bind fun _ _ => Keeps.pure hnodes
      · exact Keeps.pure hnodes

theorem checkFields (hV : V.Right) : ∀ (fields : List FieldSpec),
    AllNodes Node.Regular (FieldSpec.nodesOfAll fields) → ∀ members : List Field,
      Keeps False V.Context (checkFields members fields) fun checked =>
        AllNodes V.Node (FieldSpec.nodesOfAll checked.1)
  | [], _, _ => Keeps.pure allNodes_nil
  | ⟨type, names, semicolon⟩ :: rest, h, members => by
      simp only [FieldSpec.nodesOfAll, allNodes_append, allNodes_flatMap] at h
      obtain ⟨⟨htype, hnames⟩, hrest⟩ := h
      refine (typeSpec hV type htype).bind fun type htype => ?_
      apply Keeps.get_bind
      intro c hc
      refine (Keeps.lift (hV.checkFieldNames hc type.type members names hnames)).bind ?_
      rintro ⟨names, members⟩ hnames
      refine (checkFields hV rest hrest members).bind fun checked hchecked => Keeps.pure ?_
      simp only [FieldSpec.nodesOfAll, allNodes_append, allNodes_flatMap]
      exact ⟨⟨htype, hnames⟩, hchecked⟩

end

theorem declarator (hV : V.Right) (base : Option Ty) (qualifiers : QualifierSet) (d : Declarator) :
    Keeps False V.Context (d.check base qualifiers) fun d' => AllNodes V.Node d'.nodes := by
  apply Keeps.get_bind
  intro c hc
  refine (Keeps.lift (hV.declaredType hc base d.size)).bind ?_
  rintro ⟨size, type⟩ hsize
  refine (Keeps.lift .trivial).bind fun _ _ => ?_
  have hinitializer : (checkInitializer c type d.initializer).Ensures False fun initializer =>
      AllNodes V.Node (optionalNodes initializer) := by
    cases d.initializer with
    | none => exact Noted.Ensures.pure allNodes_nil
    | some e =>
        refine (hV.check hc e).bind fun e he => ?_
        exact Noted.Ensures.andThen fun _ => Noted.Ensures.pure he
  refine (Keeps.lift hinitializer).bind fun initializer hinitializer => ?_
  extract_lets typed v finish
  have hv : V.Variable v := hV.declared ..
  have hsymbol : V.Symbol (.variable v) := hv
  have hfinish : ∀ u, Keeps False V.Context (finish u) fun d' => AllNodes V.Node d'.nodes := by
    intro u
    refine (Keeps.declareIn _ hsymbol).bind fun _ _ => Keeps.pure ?_
    simp only [Declarator.nodes, Declarator.inside, allNodes_cons, allNodes_append]
    refine ⟨?_, hsize, hinitializer⟩
    rintro _ ⟨⟩
    exact hv
  exact Keeps.first_if (Keeps.lift .trivial) hfinish

theorem declarators (hV : V.Right) (base : Option Ty) (qualifiers : QualifierSet) :
    ∀ ds : List Declarator, Keeps False V.Context (checkDeclarators base qualifiers ds) fun ds' =>
      ∀ d ∈ ds', AllNodes V.Node d.nodes
  | [] => Keeps.pure (by simp)
  | d :: ds => by
      refine (hV.declarator base qualifiers d).bind fun d hd => ?_
      refine (declarators hV base qualifiers ds).bind fun ds hds => Keeps.pure ?_
      exact List.forall_mem_cons.2 ⟨hd, hds⟩

/-! ## Functions -/

theorem parameters (hV : V.Right) : ∀ ps : List ParameterSpec,
    (∀ p ∈ ps, AllNodes Node.Regular p.nodes) →
      Keeps False V.Context (checkParameters ps) fun ps' => ∀ p ∈ ps', AllNodes V.Node p.nodes
  | [], _ => Keeps.pure (by simp)
  | p :: ps, h => by
      obtain ⟨hp, hps⟩ := List.forall_mem_cons.1 h
      simp only [ParameterSpec.nodes, allNodes_cons, allNodes_append] at hp
      refine (hV.typeSpec p.typeSpec hp.2.1).bind fun typeSpec htypeSpec => ?_
      apply Keeps.get_bind
      intro c hc
      refine (Keeps.lift (hV.declaredType hc typeSpec.type p.size)).bind ?_
      rintro ⟨size, type⟩ hsize
      refine (parameters hV ps hps).bind fun ps hps => Keeps.pure ?_
      refine List.forall_mem_cons.2 ⟨?_, hps⟩
      simp only [ParameterSpec.nodes, allNodes_cons, allNodes_append]
      exact ⟨by rintro _ ⟨⟩, htypeSpec, hsize⟩

theorem declareFunction (name : Token) (returnLocation : Location) (f : Function) :
    Keeps False V.Context (declareFunction name returnLocation f) fun _ => True := by
  apply Keeps.get_bind
  intro c hc
  extract_lets accept
  have haccept : Keeps False V.Context accept fun _ => True :=
    Keeps.put (Scopes.All.declareFunction hc trivial)
  split
  · split
    · exact Keeps.lift .trivial
    · exact Keeps.lift .trivial
    · refine (Keeps.lift .trivial).bind fun _ _ => ?_
      split
      · exact haccept
      · exact Keeps.pure trivial
  · split
    · exact haccept
    · exact haccept
    · exact Keeps.lift .trivial

theorem header (hV : V.Right) (kind : FunctionKind) {h : FunctionHeader}
    (hregular : AllNodes Node.Regular h.nodes) :
    Keeps False V.Context (h.check kind) fun h' => AllNodes V.Node h'.nodes := by
  simp only [FunctionHeader.nodes, allNodes_cons, allNodes_append, allNodes_flatMap] at hregular
  obtain ⟨-, hreturn, hparameters⟩ := hregular
  apply Keeps.get_bind
  intro c _
  extract_lets nested typed
  have htyped : ∀ u, Keeps False V.Context (typed u) fun h' => AllNodes V.Node h'.nodes := by
    intro u
    refine (hV.typeSpec h.returnType hreturn).bind fun s hs => ?_
    refine (hV.parameters h.parameters hparameters).bind fun ps hps => ?_
    extract_lets resolved typed
    refine (Keeps.lift .trivial).bind fun _ _ => ?_
    have hnodes : ∀ symbol : Option Function, AllNodes V.Node
        (FunctionHeader.nodes ⟨s, h.name, h.opening, ps, h.closing, symbol⟩) := by
      intro symbol
      simp only [FunctionHeader.nodes, allNodes_cons, allNodes_append, allNodes_flatMap]
      exact ⟨trivial, hs, hps⟩
    split
    · exact Keeps.first_if (declareFunction _ _ _) fun _ => Keeps.pure (hnodes _)
    · exact Keeps.first_if (Keeps.change fun c hc => hc) fun _ => Keeps.pure (hnodes _)
  exact Keeps.first_if (Keeps.lift .trivial) htyped

theorem declareParameters (hV : V.Right) : ∀ ps : List ParameterSpec,
    (∀ p ∈ ps, AllNodes V.Node p.nodes) →
      Keeps False V.Context (declareParameters ps) fun ps' => ∀ p ∈ ps', AllNodes V.Node p.nodes
  | [], _ => Keeps.pure (by simp)
  | p :: ps, h => by
      obtain ⟨hp, hps⟩ := List.forall_mem_cons.1 h
      rw [Essl.declareParameters]
      split
      · refine (declareParameters hV ps hps).bind fun ps' h => Keeps.pure ?_
        exact List.forall_mem_cons.2 ⟨hp, h⟩
      · rename_i name _
        extract_lets v
        have hconstant : declaredConstant p.qualifierSet p.type none = none := by
          cases p.type <;> rfl
        have hv : V.Variable v := by
          have hdeclared := hV.declared name.text p.type p.qualifierSet none
            (p.qualifierSet.contains .const) (some name.location)
          rwa [hconstant] at hdeclared
        have hsymbol : V.Symbol (.variable v) := hv
        refine (Keeps.declareIn name hsymbol).bind fun _ _ => ?_
        refine (declareParameters hV ps hps).bind fun ps' h => Keeps.pure ?_
        refine List.forall_mem_cons.2 ⟨?_, h⟩
        simp only [ParameterSpec.nodes, allNodes_cons, allNodes_append] at hp ⊢
        refine ⟨?_, hp.2⟩
        rintro _ ⟨⟩
        exact hv

/-! ## Statements -/

theorem checkCondition (hV : V.Right) (e : Essl.Expr) :
    Keeps False V.Context (checkCondition e) fun e' =>
      AllNodes V.Node (Condition.expression e').nodes := by
  apply Keeps.get_bind
  intro c hc
  refine (Keeps.lift (hV.check hc e)).bind fun e he => ?_
  refine (Keeps.lift .trivial).bind fun _ _ => Keeps.pure ?_
  simp only [Condition.nodes, allNodes_cons]
  exact ⟨trivial, he⟩

theorem condition (hV : V.Right) {condition : Condition}
    (h : AllNodes Node.Regular condition.nodes) :
    Keeps False V.Context condition.check fun condition' => AllNodes V.Node condition'.nodes := by
  unfold Condition.check
  extract_lets finish
  have hfinish : ∀ checked : Condition × Option Ty, AllNodes V.Node checked.1.nodes →
      Keeps False V.Context (finish checked) fun condition' =>
        AllNodes V.Node condition'.nodes := by
    rintro ⟨condition, type⟩ hnodes
    exact (Keeps.lift .trivial).bind fun _ _ => Keeps.pure hnodes
  cases condition with
  | expression e =>
      apply Keeps.get_bind
      intro c hc
      refine (Keeps.lift (hV.check hc e)).bind fun e he => ?_
      refine hfinish (.expression e, e.info.type) ?_
      simp only [Condition.nodes, allNodes_cons]
      exact ⟨trivial, he⟩
  | declaration s d =>
      simp only [Condition.nodes, allNodes_cons, allNodes_append] at h
      refine (hV.typeSpec s h.2.1).bind fun s hs => ?_
      refine (hV.declarator s.type .empty d).bind fun d hd => ?_
      refine hfinish (.declaration s d, d.type) ?_
      simp only [Condition.nodes, allNodes_cons, allNodes_append]
      exact ⟨trivial, hs, hd⟩

mutual

theorem declaration (hV : V.Right) : ∀ d : Declaration, AllNodes Node.Regular d.nodes →
    Keeps False V.Context d.check fun d' => AllNodes V.Node d'.nodes
  | .declarators s ds semicolon, h => by
      simp only [Declaration.nodes, allNodes_append] at h
      refine Keeps.get_bind fun c _ => (Keeps.lift .trivial).bind fun _ _ => ?_
      refine (hV.typeSpec s h.1).bind fun s hs => ?_
      refine (hV.declarators s.type s.qualifiers.set ds).bind fun ds hds => Keeps.pure ?_
      simp only [Declaration.nodes, allNodes_append, allNodes_flatMap]
      exact ⟨hs, hds⟩
  | .type s semicolon, h => by
      refine Keeps.get_bind fun c _ => (Keeps.lift .trivial).bind fun _ _ => ?_
      exact (hV.typeSpec s h).bind fun s hs => Keeps.pure hs
  | .precision keyword precision s semicolon, h => by
      refine (hV.typeSpec s h).bind fun s hs => ?_
      extract_lets finish
      have hfinish : ∀ u, Keeps False V.Context (finish u) fun d' => AllNodes V.Node d'.nodes :=
        fun _ => Keeps.pure hs
      split
      · exact Keeps.first_if (Keeps.lift .trivial) hfinish
      · exact hfinish ()
  | .invariants keyword names semicolon, _ => by
      apply Keeps.get_bind
      intro c _
      extract_lets finish
      have hfinish : ∀ u, Keeps False V.Context (finish u) fun d' => AllNodes V.Node d'.nodes :=
        fun _ => (Keeps.lift .trivial).bind fun _ _ => Keeps.pure allNodes_nil
      exact Keeps.first_if (Keeps.lift .trivial) hfinish
  | .prototype header semicolon, h =>
      (hV.header .prototype h).bind fun _ hheader => Keeps.pure hheader
  | .function header body, h => by
      simp only [Declaration.nodes, allNodes_append] at h
      refine (hV.header .definition h.1).bind fun header hheader => ?_
      simp only [FunctionHeader.nodes, allNodes_cons, allNodes_append, allNodes_flatMap] at hheader
      obtain ⟨-, hreturn, hparameters⟩ := hheader
      refine (Keeps.inFunctionIn (P := fun checked : List ParameterSpec × Block =>
        (∀ p ∈ checked.1, AllNodes V.Node p.nodes) ∧
          ∀ returnType, AllNodes V.Node (checked.2.nodes returnType))
            header.returnType.type ?_).bind ?_
      · refine (hV.declareParameters header.parameters hparameters).bind fun ps hps => ?_
        exact (blockInside hV body h.2).bind fun body hbody => Keeps.pure ⟨hps, hbody⟩
      · rintro ⟨parameters, body⟩ ⟨hparameters, hbody⟩
        refine Keeps.pure ?_
        simp only [Declaration.nodes, FunctionHeader.nodes, allNodes_cons, allNodes_append,
          allNodes_flatMap]
        exact ⟨⟨trivial, hreturn, hparameters⟩, hbody _⟩

theorem blockInside (hV : V.Right) : ∀ (b : Block) {returnType : Option Ty},
    AllNodes Node.Regular (b.nodes returnType) →
      Keeps False V.Context b.checkInside fun b' =>
        ∀ returnType, AllNodes V.Node (b'.nodes returnType)
  | ⟨_, ss, _, _⟩, _, h => (statements hV ss h).bind fun _ hss => Keeps.pure hss

theorem block (hV : V.Right) : ∀ (b : Block) {returnType : Option Ty},
    AllNodes Node.Regular (b.nodes returnType) →
      Keeps False V.Context b.check fun b' =>
        ∀ returnType, AllNodes V.Node (b'.nodes returnType)
  | ⟨_, ss, _, newScope⟩, _, h => by
      have hss := statements hV ss h
      unfold Block.check
      extract_lets finish
      split
      · exact (hss.inScopeIn .block).bind fun _ h => Keeps.pure h
      · exact hss.bind fun _ h => Keeps.pure h

theorem statement (hV : V.Right) : ∀ (s : Statement) {returnType : Option Ty},
    AllNodes Node.Regular (s.nodes returnType) →
      Keeps False V.Context s.check fun s' =>
        ∀ returnType, AllNodes V.Node (s'.nodes returnType)
  | .declaration d, _, h => (declaration hV d h).bind fun _ hd => Keeps.pure fun _ => hd
  | .block b, _, h => (block hV b h).bind fun _ hb => Keeps.pure hb
  | .expression e semicolon, _, _ => by
      apply Keeps.get_bind
      intro c hc
      exact (Keeps.lift (hV.check hc e)).bind fun _ he => Keeps.pure fun _ => he
  | .empty semicolon, _, _ => Keeps.pure fun _ => allNodes_nil
  | .ifThen keyword opening condition closing whenTrue, _, h => by
      simp only [Statement.nodes, allNodes_append] at h
      refine (hV.checkCondition condition).bind fun condition hcondition => ?_
      refine (statement hV whenTrue h.2).bind fun whenTrue htrue => Keeps.pure fun returnType => ?_
      simp only [Statement.nodes, allNodes_append]
      exact ⟨hcondition, htrue returnType⟩
  | .ifElse keyword opening condition closing whenTrue otherwise whenFalse, _, h => by
      simp only [Statement.nodes, allNodes_append] at h
      refine (hV.checkCondition condition).bind fun condition hcondition => ?_
      refine (statement hV whenTrue h.1.2).bind fun whenTrue htrue => ?_
      refine (statement hV whenFalse h.2).bind
        fun whenFalse hfalse => Keeps.pure fun returnType => ?_
      simp only [Statement.nodes, allNodes_append]
      exact ⟨⟨hcondition, htrue returnType⟩, hfalse returnType⟩
  | .whileLoop keyword opening condition closing body, _, h => by
      simp only [Statement.nodes, allNodes_append] at h
      apply Keeps.inScopeIn
      refine (hV.condition h.1).bind fun condition hcondition => ?_
      refine (statement hV body h.2).inLoopIn.bind fun body hbody => Keeps.pure fun returnType => ?_
      simp only [Statement.nodes, allNodes_append]
      exact ⟨hcondition, hbody returnType⟩
  | .doLoop keyword body whileWord opening condition closing semicolon, _, h => by
      simp only [Statement.nodes, allNodes_append] at h
      refine (statement hV body h.1).inLoopIn.bind fun body hbody => ?_
      refine (hV.checkCondition condition).bind
        fun condition hcondition => Keeps.pure fun returnType => ?_
      simp only [Statement.nodes, allNodes_append]
      exact ⟨hbody returnType, hcondition⟩
  | .forLoop keyword opening init condition semicolon increment closing body, _, h => by
      simp only [Statement.nodes, allNodes_append, allNodes_optionalConditionNodes] at h
      obtain ⟨⟨⟨hinit, hcondition⟩, -⟩, hbody⟩ := h
      apply Keeps.inScopeIn
      refine (statement hV init hinit).bind fun init hinit => ?_
      refine (checkOptional_keeps fun x hx => hV.condition (hcondition x hx)).bind
        fun condition hcondition => ?_
      apply Keeps.get_bind
      intro c hc
      refine (checkOptional_keeps fun x _ => Keeps.lift (hV.check hc x)).bind
        fun increment hincrement => ?_
      refine (statement hV body hbody).inLoopIn.bind
        fun body hbody => Keeps.pure fun returnType => ?_
      simp only [Statement.nodes, allNodes_append, allNodes_optionalNodes,
        allNodes_optionalConditionNodes]
      exact ⟨⟨⟨hinit returnType, hcondition⟩, hincrement⟩, hbody returnType⟩
  | .jump keyword semicolon, _, _ => by
      refine Keeps.get_bind fun c _ => (Keeps.lift .trivial).bind fun _ _ => ?_
      exact Keeps.pure fun _ => allNodes_nil
  | .return keyword value semicolon, _, _ => by
      apply Keeps.get_bind
      intro c hc
      refine (checkOptional_keeps fun x _ => Keeps.lift (hV.check hc x)).bind
        fun value hvalue => ?_
      refine (Keeps.lift .trivial).bind fun _ _ => Keeps.pure fun returnType => ?_
      simp only [Statement.nodes, allNodes_cons, allNodes_optionalNodes]
      exact ⟨trivial, hvalue⟩

theorem statements (hV : V.Right) : ∀ (ss : List Statement) {returnType : Option Ty},
    AllNodes Node.Regular (Statement.nodesOfAll ss returnType) →
      Keeps False V.Context (checkStatements ss) fun ss' =>
        ∀ returnType, AllNodes V.Node (Statement.nodesOfAll ss' returnType)
  | [], _, _ => Keeps.pure fun _ => allNodes_nil
  | s :: ss, _, h => by
      simp only [Statement.nodesOfAll, allNodes_append] at h
      refine (statement hV s h.1).bind fun s hs => ?_
      refine (statements hV ss h.2).bind fun ss hss => Keeps.pure fun returnType => ?_
      simp only [Statement.nodesOfAll, allNodes_append]
      exact ⟨hs returnType, hss returnType⟩

end

theorem declarations (hV : V.Right) : ∀ ds : List Declaration,
    (∀ d ∈ ds, AllNodes Node.Regular d.nodes) →
      Keeps False V.Context (checkDeclarations ds) fun ds' => ∀ d ∈ ds', AllNodes V.Node d.nodes
  | [], _ => Keeps.pure (by simp)
  | d :: ds, h => by
      obtain ⟨hd, hds⟩ := List.forall_mem_cons.1 h
      refine (hV.declaration d hd).bind fun d hd => ?_
      refine (declarations hV ds hds).bind fun ds hds => Keeps.pure ?_
      exact List.forall_mem_cons.2 ⟨hd, hds⟩

/-- A visitor that is right about expressions and declared variables is right about all nodes of a
typed shader. -/
theorem analyze (hV : V.Right) {shader : Shader} (h : AllNodes Node.Regular shader.nodes)
    (stage : Stage) (order : FunctionOrder) :
    AllNodes V.Node (shader.analyze stage order).value.nodes := by
  have hempty : V.Context (.empty stage order) := Scopes.All.empty
  have hds := hV.declarations shader.declarations (allNodes_flatMap.1 h) (.empty stage order) hempty
    False.elim
  exact allNodes_flatMap.2 hds.1

end Right

end Visitor

end Essl
