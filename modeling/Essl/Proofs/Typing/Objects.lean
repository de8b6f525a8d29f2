import Essl.Proofs.Typing.Guarantees
import Essl.Proofs.Typing.Sizing

/-!
# Objects have values

There are no values of type `void`, so nothing that a name is declared as should have that type or
be an array of it. The check comes after the size in a declaration is taken into account: it finds
`void`, and misses arrays of it.
-/

namespace Essl

open Grammar

/-! ## What is declared -/

/-- The type that arrays have in the end as elements. -/
def Ty.core : Ty → Ty
  | .array element _ => element.core
  | .primitive p => .primitive p
  | .struct s => .struct s

/-- The type is not `void`, and no array of it unless the name has a size of its own. -/
def ObjectType (type : Option Ty) (size : Option ArraySize) : Prop :=
  ∀ t ∈ type, t.core = .void → size ≠ none ∧ ∃ n, t = .array .void n

mutual

/-- The names in declarations of invariants. -/
def Declaration.invariantNames : Declaration → List InvariantName
  | .declarators .. | .type .. | .precision .. | .prototype .. => []
  | .invariants _ names _ => names
  | .function _ body => body.invariantNames

def Block.invariantNames : Block → List InvariantName
  | ⟨_, statements, _, _⟩ => Statement.invariantNamesOfAll statements

def Statement.invariantNames : Statement → List InvariantName
  | .declaration d => d.invariantNames
  | .block b => b.invariantNames
  | .expression .. | .empty _ | .jump .. | .return .. => []
  | .ifThen _ _ _ _ whenTrue => whenTrue.invariantNames
  | .ifElse _ _ _ _ whenTrue _ whenFalse => whenTrue.invariantNames ++ whenFalse.invariantNames
  | .whileLoop _ _ _ _ body => body.invariantNames
  | .doLoop _ body _ _ _ _ _ => body.invariantNames
  | .forLoop _ _ init _ _ _ _ body => init.invariantNames ++ body.invariantNames

def Statement.invariantNamesOfAll : List Statement → List InvariantName
  | [] => []
  | s :: ss => s.invariantNames ++ Statement.invariantNamesOfAll ss

end

/-- All names in declarations of invariants. -/
def Shader.invariantNames (shader : Shader) : List InvariantName :=
  shader.declarations.flatMap Declaration.invariantNames

/-- The variable that the name stands for has no empty array in its type. -/
def InvariantName.Sized (n : InvariantName) : Prop := ∀ v ∈ n.symbol, SizedType v.type

namespace Node

/-- What is declared at the node has a type of objects. Parameters without a name declare
nothing. -/
def Objects : Node → Prop
  | field d => ObjectType d.type d.size
  | declarator d => ObjectType d.type d.size
  | header h => ∀ p ∈ h.parameters, p.name ≠ none → ObjectType p.type p.size
  | _ => True

/-- The types, as far as they are known, of the names that are declared at the node. -/
def declaredTypes : Node → List Ty
  | field d => d.type.toList
  | declarator d => d.type.toList
  | header h => (h.parameters.filter (·.name.isSome)).filterMap (·.type)
  | _ => []

/-- Array types have elements, and if no problem is noted, objects have values. Parameters are
looked at if the types of all of them are known. -/
def Measured (clean : Prop) : Node → Prop
  | header h => (header h).Sized ∧ (clean → h.symbol ≠ none → (header h).Objects)
  | n => n.Sized ∧ (clean → n.Objects)

theorem Measured.sized {clean : Prop} {n : Node} (h : n.Measured clean) : n.Sized := by
  cases n <;> exact h.1

end Node

variable {clean : Prop}

/-! ## Expressions -/

namespace Expr

mutual

/-- Nothing is declared in an expression. -/
theorem nodes_exprs : ∀ e : Expr, AllNodes (fun n => ∃ x, n = .expr x) e.nodes
  | .assignment _ left _ right | .binary _ left _ right => by
      simp [nodes, nodes_exprs left, nodes_exprs right]
  | .ternary _ condition _ whenTrue _ whenFalse => by
      simp [nodes, nodes_exprs condition, nodes_exprs whenTrue, nodes_exprs whenFalse]
  | .unary _ _ operand | .step _ operand _ | .group _ _ operand _ | .field _ operand _ _ => by
      simp [nodes, nodes_exprs operand]
  | .literal .. | .variable .. => by simp [nodes]
  | .call _ _ _ _ arguments _ | .list _ arguments => by
      simp [nodes, nodesOfEach_exprs arguments]
  | .arrayCall _ _ _ size _ _ _ arguments _ => by
      simp [nodes, nodes_exprs size, nodesOfEach_exprs arguments]
  | .index _ operand _ position _ => by
      simp [nodes, nodes_exprs operand, nodes_exprs position]

theorem nodesOfEach_exprs : ∀ es : List Expr, AllNodes (fun n => ∃ x, n = .expr x) (nodesOfEach es)
  | [] => allNodes_nil
  | e :: es => by simp [nodesOfEach, nodes_exprs e, nodesOfEach_exprs es]

end

theorem measured_of_sized {e : Expr} (h : AllNodes Node.Sized e.nodes) :
    AllNodes (Node.Measured clean) e.nodes := by
  intro n hn
  obtain ⟨x, rfl⟩ := nodes_exprs e n hn
  exact ⟨h _ hn, fun _ => trivial⟩

variable {c : Context}

theorem check_measured (hc : c.Sized) (e : Expr) :
    (e.check c).Ensures clean fun e' => AllNodes (Node.Measured clean) e'.nodes :=
  (check_sized hc e).mono fun _ => measured_of_sized

end Expr

/-! ## Declared types -/

/-- No type specifier stands for an array. -/
def Plain (type : Option Ty) : Prop := ∀ t ∈ type, t.core = t

section

variable {c : Context} {base : Option Ty}

theorem declaredType_measured (hc : c.Sized) (hsized : SizedType base) (hplain : Plain base)
    (size : Option ArraySize) :
    (declaredType c base size).Ensures clean fun declared =>
      AllNodes (Node.Measured clean) (sizeNodes declared.1) ∧ SizedType declared.2 ∧
        (declared.2 ≠ some .void → ObjectType declared.2 declared.1) := by
  cases size with
  | none =>
      refine Noted.Ensures.pure ⟨allNodes_nil, hsized, fun hnot t ht hcore => ?_⟩
      have heq : t = .void := (hplain t ht).symm.trans hcore
      exact absurd (heq ▸ Option.mem_def.1 ht) hnot
  | some size =>
      refine (ArraySize.check_sized hc size).bind ?_
      rintro ⟨size, length⟩ ⟨hsize, hlength⟩
      refine Noted.Ensures.pure ⟨Expr.measured_of_sized hsize, ?_, fun _ t ht hcore => ?_⟩
      · cases base with
        | none => exact sizedType_none
        | some element =>
            cases length with
            | none => exact sizedType_none
            | some n => exact sizedType_some.2 ⟨hlength n rfl, sizedType_some.1 hsized⟩
      · obtain ⟨element, rfl, ht⟩ := Option.bind_eq_some_iff.1 ht
        obtain ⟨n, -, ht⟩ := Option.bind_eq_some_iff.1 ht
        obtain rfl := Option.some.inj ht
        have heq : element = .void := (hplain element rfl).symm.trans hcore
        exact ⟨Option.some_ne_none size, n, by rw [heq]⟩

theorem requireNotVoid_ensures (type : Option Ty) (name : String) (location : Location) :
    (requireNotVoid type name location).Ensures clean fun _ => clean → type ≠ some .void := by
  unfold requireNotVoid
  split
  · exact Noted.Ensures.report_imp _ _
  · rename_i hnot
    exact Noted.Ensures.pure fun _ => hnot

end

/-- The types of all fields have no empty arrays. -/
def FieldsSized (fields : List Field) : Prop := ∀ field ∈ fields, SizedType field.type

theorem checkFieldNames_measured {c : Context} (hc : c.Sized) {base : Option Ty}
    (hsized : SizedType base) (hplain : Plain base) : ∀ (fields : List Field) (ds : List Declarator),
      FieldsSized fields → (∀ d ∈ ds, AllNodes Node.Regular d.fieldNodes) →
        (checkFieldNames c base fields ds).Ensures clean fun named =>
          (∀ d ∈ named.1, AllNodes (Node.Measured clean) d.fieldNodes) ∧ FieldsSized named.2
  | fields, [], hfields, _ => Noted.Ensures.pure ⟨by simp, hfields⟩
  | fields, d :: ds, hfields, h => by
      obtain ⟨hd, hds⟩ := List.forall_mem_cons.1 h
      have hbare : d.initializer = none := (allNodes_cons.1 hd).1
      refine (declaredType_measured hc hsized hplain d.size).bind ?_
      rintro ⟨size, type⟩ ⟨hsize, htype, hobject⟩
      refine (requireNotVoid_ensures type _ _).bind fun _ hnot => ?_
      extract_lets typed field
      have hnodes : AllNodes (Node.Measured clean) typed.fieldNodes := by
        simp only [Declarator.fieldNodes, Declarator.inside, allNodes_cons, allNodes_append]
        refine ⟨⟨⟨htype, by rintro _ ⟨⟩⟩, fun hclean => hobject (hnot hclean)⟩, hsize, ?_⟩
        rw [show d.initializer = none from hbare]
        exact allNodes_nil
      split
      · refine Noted.Ensures.andThen fun _ => ?_
        refine (checkFieldNames_measured hc hsized hplain fields ds hfields hds).bind ?_
        rintro ⟨ds, fields⟩ ⟨hds, hfields⟩
        exact Noted.Ensures.pure ⟨List.forall_mem_cons.2 ⟨hnodes, hds⟩, hfields⟩
      · have hmore : FieldsSized (fields ++ [field]) := by
          intro field hfield
          rcases List.mem_append.1 hfield with hfield | hfield
          · exact hfields field hfield
          · obtain rfl := List.mem_singleton.1 hfield
            exact htype
        refine (checkFieldNames_measured hc hsized hplain _ ds hmore hds).bind ?_
        rintro ⟨ds, fields⟩ ⟨hds, hfields⟩
        exact Noted.Ensures.pure ⟨List.forall_mem_cons.2 ⟨hnodes, hds⟩, hfields⟩

/-! ## Type specifiers -/

theorem TypeSpec.sized_of_nodes {s : TypeSpec} (h : AllNodes (Node.Measured clean) s.nodes) :
    SizedType s.type := by
  have hmem : Node.typeSpec s ∈ s.nodes := by
    cases s <;> simp [nodes]
  exact (h _ hmem).1.1

theorem Context.typeNamed?_plain (c : Context) (name : Token) :
    (c.typeNamed? name).Ensures clean Plain := by
  unfold Context.typeNamed?
  split
  · exact Noted.Ensures.pure (by rintro _ ⟨⟩; rfl)
  · exact Noted.Ensures.reported fun _ => by rintro _ ⟨⟩
  · split
    · exact Noted.Ensures.pure (by rintro _ ⟨⟩; rfl)
    · exact Noted.Ensures.reported fun _ => by rintro _ ⟨⟩

theorem Noted.Ensures.and {α : Type} {x : Noted α} {P Q : α → Prop} (hP : x.Ensures clean P)
    (hQ : x.Ensures clean Q) : x.Ensures clean fun a => P a ∧ Q a :=
  fun h => ⟨hP h, hQ h⟩

mutual

theorem TypeSpec.check_measured : ∀ s : TypeSpec, AllNodes Node.Regular s.nodes →
    Keeps clean Context.Sized s.check fun s' =>
      AllNodes (Node.Measured clean) s'.nodes ∧ Plain s'.type
  | .named q name _, _ => by
      apply Keeps.get_bind
      intro c hc
      refine (Keeps.lift ((hc.typeNamed? name).and (c.typeNamed?_plain name))).bind ?_
      rintro type ⟨hsized, hplain⟩
      refine Keeps.pure ⟨?_, hplain⟩
      simp only [TypeSpec.nodes, allNodes_cons, allNodes_nil, and_true]
      exact ⟨⟨hsized, fun _ h => nomatch h⟩, fun _ => trivial⟩
  | .struct q keyword name opening fields closing _ _, h => by
      simp only [TypeSpec.nodes, allNodes_cons] at h
      refine ((checkFields_measured fields h.2 (by simp [FieldsSized])).inScopeIn .struct).bind ?_
      rintro ⟨fields, members⟩ ⟨hfields, hmembers⟩
      have hdefine : Keeps clean Context.Sized (defineStruct keyword name members)
          StructDef.Sized := by
        apply Keeps.get_bind
        intro c hc
        refine (Keeps.put hc).bind fun _ _ => Keeps.pure ?_
        exact StructDef.sized_iff.2 hmembers
      refine hdefine.bind fun s hs => ?_
      have hnodes : AllNodes (Node.Measured clean) (TypeSpec.nodes
          (.struct q keyword name opening fields closing (some s) (some (.struct s)))) := by
        simp only [TypeSpec.nodes, allNodes_cons]
        refine ⟨⟨⟨sizedType_some.2 hs, ?_⟩, fun _ => trivial⟩, hfields⟩
        rintro _ ⟨⟩
        exact hs
      have hplain : Plain (some (.struct s)) := by
        rintro _ ⟨⟩
        rfl
      split
      · exact (Keeps.declareIn _ hs).bind fun _ _ => Keeps.pure ⟨hnodes, hplain⟩
      · exact Keeps.pure ⟨hnodes, hplain⟩

theorem checkFields_measured : ∀ (fields : List FieldSpec),
    AllNodes Node.Regular (FieldSpec.nodesOfAll fields) → ∀ {members : List Field},
      FieldsSized members →
        Keeps clean Context.Sized (checkFields members fields) fun checked =>
          AllNodes (Node.Measured clean) (FieldSpec.nodesOfAll checked.1) ∧ FieldsSized checked.2
  | [], _, _, hmembers => Keeps.pure ⟨allNodes_nil, hmembers⟩
  | ⟨type, names, semicolon⟩ :: rest, h, members, hmembers => by
      simp only [FieldSpec.nodesOfAll, allNodes_append, allNodes_flatMap] at h
      obtain ⟨⟨htype, hnames⟩, hrest⟩ := h
      refine (TypeSpec.check_measured type htype).bind ?_
      rintro type ⟨htype, hplain⟩
      apply Keeps.get_bind
      intro c hc
      refine (Keeps.lift (checkFieldNames_measured hc (TypeSpec.sized_of_nodes htype) hplain
        members names hmembers hnames)).bind ?_
      rintro ⟨names, members⟩ ⟨hnames, hmembers⟩
      refine (checkFields_measured rest hrest hmembers).bind ?_
      rintro ⟨rest, members⟩ ⟨hrest, hmembers⟩
      refine Keeps.pure ⟨?_, hmembers⟩
      simp only [FieldSpec.nodesOfAll, allNodes_append, allNodes_flatMap]
      exact ⟨⟨htype, hnames⟩, hrest⟩

end

/-! ## Variables -/

theorem checkInitializer_measured {c : Context} (hc : c.Sized) (type : Option Ty)
    (initializer : Option Expr) :
    (checkInitializer c type initializer).Ensures clean fun initializer =>
      AllNodes (Node.Measured clean) (optionalNodes initializer) := by
  cases initializer with
  | none => exact Noted.Ensures.pure allNodes_nil
  | some e =>
      refine (Expr.check_measured hc e).bind fun e he => ?_
      exact Noted.Ensures.andThen fun _ => Noted.Ensures.pure he

theorem Declarator.check_measured {base : Option Ty} (hsized : SizedType base)
    (hplain : Plain base) (qualifiers : QualifierSet) (d : Declarator) :
    Keeps clean Context.Sized (d.check base qualifiers) fun d' =>
      AllNodes (Node.Measured clean) d'.nodes := by
  apply Keeps.get_bind
  intro c hc
  refine (Keeps.lift (declaredType_measured hc hsized hplain d.size)).bind ?_
  rintro ⟨size, type⟩ ⟨hsize, htype, hobject⟩
  refine (Keeps.lift (requireNotVoid_ensures type _ _)).bind fun _ hnot => ?_
  refine (Keeps.lift (checkInitializer_measured hc type d.initializer)).bind
    fun initializer hinitializer => ?_
  extract_lets typed v finish
  have hsymbol : (Symbol.variable v).Sized := htype
  have hfinish : ∀ u, Keeps clean Context.Sized (finish u) fun d' =>
      AllNodes (Node.Measured clean) d'.nodes := by
    intro u
    refine (Keeps.declareIn _ hsymbol).bind fun _ _ => Keeps.pure ?_
    simp only [nodes, inside, allNodes_cons, allNodes_append]
    refine ⟨⟨⟨htype, ?_⟩, fun hclean => hobject (hnot hclean)⟩, hsize, hinitializer⟩
    rintro _ ⟨⟩
    exact htype
  exact Keeps.first_if (Keeps.lift .trivial) hfinish

theorem checkDeclarators_measured {base : Option Ty} (hsized : SizedType base)
    (hplain : Plain base) (qualifiers : QualifierSet) : ∀ ds : List Declarator,
      Keeps clean Context.Sized (checkDeclarators base qualifiers ds) fun ds' =>
        ∀ d ∈ ds', AllNodes (Node.Measured clean) d.nodes
  | [] => Keeps.pure (by simp)
  | d :: ds => by
      refine (Declarator.check_measured hsized hplain qualifiers d).bind fun d hd => ?_
      refine (checkDeclarators_measured hsized hplain qualifiers ds).bind fun ds hds => Keeps.pure ?_
      exact List.forall_mem_cons.2 ⟨hd, hds⟩

/-! ## Function headers -/

theorem ParameterSpec.sized_of_nodes {p : ParameterSpec}
    (h : AllNodes (Node.Measured clean) p.nodes) : SizedType p.type :=
  (allNodes_cons.1 h).1.1.1

/-- Only `void` without a size is neither an object nor an array of `void`. -/
def ParameterSpec.Declares (p : ParameterSpec) : Prop :=
  p.type ≠ some .void → ObjectType p.type p.size

theorem checkParameters_measured : ∀ ps : List ParameterSpec,
    (∀ p ∈ ps, AllNodes Node.Regular p.nodes) →
      Keeps clean Context.Sized (checkParameters ps) fun ps' =>
        ∀ p ∈ ps', AllNodes (Node.Measured clean) p.nodes ∧ p.Declares
  | [], _ => Keeps.pure (by simp)
  | p :: ps, h => by
      obtain ⟨hp, hps⟩ := List.forall_mem_cons.1 h
      simp only [ParameterSpec.nodes, allNodes_cons, allNodes_append] at hp
      refine (TypeSpec.check_measured p.typeSpec hp.2.1).bind ?_
      rintro typeSpec ⟨htypeSpec, hplain⟩
      apply Keeps.get_bind
      intro c hc
      refine (Keeps.lift (declaredType_measured hc (TypeSpec.sized_of_nodes htypeSpec) hplain
        p.size)).bind ?_
      rintro ⟨size, type⟩ ⟨hsize, htype, hobject⟩
      refine (checkParameters_measured ps hps).bind fun ps hps => Keeps.pure ?_
      refine List.forall_mem_cons.2 ⟨⟨?_, hobject⟩, hps⟩
      simp only [ParameterSpec.nodes, allNodes_cons, allNodes_append]
      exact ⟨⟨⟨htype, by rintro _ ⟨⟩⟩, fun _ => trivial⟩, htypeSpec, hsize⟩

section

variable {ps : List ParameterSpec} {parameters : List Parameter}

theorem parameters?_sized (h : ∀ p ∈ ps, SizedType p.type)
    (hparameters : parameters? ps = some parameters) : ∀ q ∈ parameters, q.type.Sized := by
  obtain ⟨all, hall, rfl⟩ := Option.map_eq_some_iff.1 hparameters
  have hsized : ∀ q ∈ all, q.type.Sized := by
    intro q hq
    obtain ⟨p, hp, hpq⟩ := List.exists_of_forall₂_mem (List.forall₂_of_mapM hall) hq
    obtain ⟨t, ht, rfl⟩ := Option.map_eq_some_iff.1 hpq
    exact h p hp t ht
  split
  · split
    · simp
    · exact hsized
  · exact hsized

/-- A parameter with a name is one of the function. -/
theorem type_ne_void_of_parameters? (hparameters : parameters? ps = some parameters)
    (h : ∀ q ∈ parameters, q.type ≠ .void) {p : ParameterSpec} (hp : p ∈ ps)
    (hname : p.name ≠ none) : p.type ≠ some .void := by
  intro hvoid
  obtain ⟨all, hall, hparameters⟩ := Option.map_eq_some_iff.1 hparameters
  obtain ⟨q, hq, hpq⟩ := List.exists_of_forall₂_mem (List.forall₂_of_mapM hall).flip hp
  have hpq : p.parameter? = some q := hpq
  simp only [ParameterSpec.parameter?, hvoid, Option.map_some, Option.some.injEq] at hpq
  have hnamed : q.name ≠ none := by
    rw [← hpq]
    simpa using hname
  have hkept : q ∈ parameters := by
    rw [← hparameters]
    split
    · obtain rfl := List.mem_singleton.1 hq
      simp [hnamed]
    · exact hq
  exact h q hkept (by rw [← hpq])

end

theorem requireNoVoid_ensures (location : Location) : ∀ parameters : List Parameter,
    (requireNoVoid location parameters).Ensures clean fun _ =>
      clean → ∀ q ∈ parameters, q.type ≠ .void
  | [] => Noted.Ensures.pure (by simp)
  | q :: parameters => by
      refine (requireNotVoid_ensures _ _ location).bind fun _ hq => ?_
      refine (requireNoVoid_ensures location parameters).mono fun _ hrest hclean => ?_
      refine List.forall_mem_cons.2 ⟨fun hvoid => hq hclean (congrArg some hvoid), hrest hclean⟩

theorem declareFunction_measured (name : Token) (returnLocation : Location) {f : Function}
    (hf : f.Sized) :
    Keeps clean Context.Sized (declareFunction name returnLocation f) fun _ => True := by
  apply Keeps.get_bind
  intro c hc
  extract_lets accept
  have haccept : Keeps clean Context.Sized accept fun _ => True :=
    Keeps.put (Scopes.All.declareFunction hc hf)
  split
  · split
    · exact Keeps.lift .trivial
    · exact Keeps.lift .trivial
    · refine (Keeps.lift .trivial).bind fun _ _ => ?_
      split
      · exact haccept
      · exact Keeps.pure trivial
  · split
    · exact haccept
    · exact haccept
    · exact Keeps.lift .trivial

theorem FunctionHeader.check_measured (kind : FunctionKind) {h : FunctionHeader}
    (hregular : AllNodes Node.Regular h.nodes) :
    Keeps clean Context.Sized (h.check kind) fun h' =>
      AllNodes (Node.Measured clean) h'.nodes := by
  simp only [nodes, allNodes_cons, allNodes_append, allNodes_flatMap] at hregular
  obtain ⟨-, hreturn, hparameters⟩ := hregular
  apply Keeps.get_bind
  intro c _
  extract_lets nested typed
  have htyped : ∀ u, Keeps clean Context.Sized (typed u) fun h' =>
      AllNodes (Node.Measured clean) h'.nodes := by
    intro u
    refine (TypeSpec.check_measured h.returnType hreturn).bind ?_
    rintro s ⟨hs, -⟩
    refine (checkParameters_measured h.parameters hparameters).bind fun ps hps => ?_
    extract_lets resolved typed finish
    refine (Keeps.lift (requireNoVoid_ensures _ (resolved.getD []))).bind fun _ hvoid => ?_
    have hnodes : ∀ symbol : Option Function, (∀ f ∈ symbol, f.Sized ∧ resolved ≠ none) →
        AllNodes (Node.Measured clean) (nodes ⟨s, h.name, h.opening, ps, h.closing, symbol⟩) := by
      intro symbol hsymbol
      simp only [nodes, allNodes_cons, allNodes_append, allNodes_flatMap]
      refine ⟨⟨fun f hf => (hsymbol f hf).1, fun hclean hsome p hp hname => ?_⟩, hs,
        fun p hp => (hps p hp).1⟩
      obtain ⟨f, hf⟩ := Option.ne_none_iff_exists'.1 hsome
      obtain ⟨parameters, hresolved⟩ := Option.ne_none_iff_exists'.1 (hsymbol f hf).2
      rw [hresolved] at hvoid
      exact (hps p hp).2 (type_ne_void_of_parameters? hresolved (hvoid hclean) hp hname)
    split
    · rename_i type parameters htype hresolved
      extract_lets f finish
      have hf : f.Sized := by
        refine ⟨TypeSpec.sized_of_nodes hs type htype, ?_⟩
        exact parameters?_sized (fun p hp => ParameterSpec.sized_of_nodes (hps p hp).1) hresolved
      have hfinish : ∀ u, Keeps clean Context.Sized (finish u) fun h' =>
          AllNodes (Node.Measured clean) h'.nodes := by
        refine fun _ => Keeps.pure (hnodes (some f) ?_)
        rintro _ ⟨⟩
        exact ⟨hf, fun hnone => Option.some_ne_none _ (hresolved.symm.trans hnone)⟩
      exact Keeps.first_if (declareFunction_measured _ _ hf) hfinish
    · have hfinish : ∀ u, Keeps clean Context.Sized (finish u) fun h' =>
          AllNodes (Node.Measured clean) h'.nodes :=
        fun _ => Keeps.pure (hnodes none (by simp))
      exact Keeps.first_if (Keeps.change fun c hc => hc) hfinish
  exact Keeps.first_if (Keeps.lift .trivial) htyped

/-- Declaring parameters leaves their names, types and sizes as they are. -/
theorem declareParameters_measured : ∀ ps : List ParameterSpec,
    (∀ p ∈ ps, AllNodes (Node.Measured clean) p.nodes) →
      Keeps clean Context.Sized (declareParameters ps) fun ps' =>
        (∀ p ∈ ps', AllNodes (Node.Measured clean) p.nodes) ∧
          ∀ p ∈ ps', ∃ q ∈ ps, p.name = q.name ∧ p.type = q.type ∧ p.size = q.size
  | [], _ => Keeps.pure (by simp)
  | p :: ps, h => by
      obtain ⟨hp, hps⟩ := List.forall_mem_cons.1 h
      have hrest {ps' : List ParameterSpec}
          (h : ∀ p ∈ ps', ∃ q ∈ ps, p.name = q.name ∧ p.type = q.type ∧ p.size = q.size) :
          ∀ p' ∈ ps', ∃ q ∈ p :: ps, p'.name = q.name ∧ p'.type = q.type ∧ p'.size = q.size := by
        intro p' hp'
        obtain ⟨q, hq, hsame⟩ := h p' hp'
        exact ⟨q, List.mem_cons_of_mem p hq, hsame⟩
      rw [declareParameters]
      split
      · refine (declareParameters_measured ps hps).bind fun ps' h => Keeps.pure ?_
        refine ⟨List.forall_mem_cons.2 ⟨hp, h.1⟩, ?_⟩
        exact List.forall_mem_cons.2 ⟨⟨p, List.mem_cons_self, rfl, rfl, rfl⟩, hrest h.2⟩
      · rename_i name _
        extract_lets v
        have htype : SizedType p.type := ParameterSpec.sized_of_nodes hp
        have hsymbol : (Symbol.variable v).Sized := htype
        refine (Keeps.declareIn name hsymbol).bind fun _ _ => ?_
        refine (declareParameters_measured ps hps).bind fun ps' h => Keeps.pure ?_
        refine ⟨List.forall_mem_cons.2 ⟨?_, h.1⟩, ?_⟩
        · simp only [ParameterSpec.nodes, allNodes_cons, allNodes_append] at hp ⊢
          refine ⟨⟨⟨htype, ?_⟩, fun _ => trivial⟩, hp.2⟩
          rintro _ ⟨⟩
          exact htype
        · exact List.forall_mem_cons.2 ⟨⟨p, List.mem_cons_self, rfl, rfl, rfl⟩, hrest h.2⟩

end Essl
