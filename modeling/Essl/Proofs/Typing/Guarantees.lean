import Essl.Proofs.Typing.ShaderSound

/-!
# What typing guarantees

The rules at all nodes of a shader that is read from the tokens of a text. Those about calls hold
in any case, the others if typing finds no problem.
-/

namespace Essl

open Grammar

/-- The shader that a text reads as. -/
def Shader.ofText (text : String) : Shader :=
  (parseShader (Code.ofString text .unknown).scan.tokens).shader

theorem Code.written_scan (code : Code) : ∀ t ∈ code.scan.tokens, t.Written :=
  fun _ ht => ⟨code, .inl ht⟩

/-! ## What sound nodes have -/

namespace Node.Sound

variable {n : Node}

theorem callsMatching {clean : Prop} (h : n.Sound clean) : n.CallsMatching := by
  intro call hcall
  cases n with
  | expr e => exact h.2.1.matches hcall
  | _ => cases hcall

theorem resolved (h : n.Sound True) : n.Resolved := by
  have of_known {type : Option Ty} (hknown : Known True type) : type ≠ none := by
    obtain ⟨t, rfl⟩ := hknown.eq_some trivial
    simp
  cases n with
  | expr e => exact of_known h.1.known
  | typeSpec s => exact of_known h
  | field d => exact of_known h
  | declarator d => exact of_known h.1
  | parameter p => exact of_known h
  | header f => exact h trivial
  | condition c => trivial
  | «return» type value => trivial

theorem wellTyped (h : n.Sound True) : n.WellTyped := by
  cases n with
  | expr e => exact (h.2.2 trivial).wellTyped
  | declarator d =>
      obtain ⟨-, v, -, hv⟩ := h
      exact (hv trivial).1
  | condition c => exact h trivial
  | «return» type value => exact h trivial
  | _ => trivial

theorem shaped (h : n.Sound True) : n.Shaped := by
  cases n with
  | expr e => exact h.1.holds trivial
  | declarator d =>
      obtain ⟨-, v, hsymbol, hv⟩ := h
      exact ⟨v, hsymbol, (hv trivial).2⟩
  | _ => trivial

end Node.Sound

namespace Shader

variable {tokens : List Token}

theorem analyze_sound_of_no_problems (ht : ∀ t ∈ tokens, t.Written) {stage : Stage}
    {order : FunctionOrder}
    (h : ((parseShader tokens).shader.analyze stage order).problems = []) :
    AllNodes (Node.Sound True) ((parseShader tokens).shader.analyze stage order).value.nodes := by
  apply analyze_sound (parseShader_regular ht) stage order
  intro _
  exact h

/-! ## Without problems -/

/-- Nothing is left without a type: where typing could not find one, it has noted why. -/
theorem analyze_resolved (ht : ∀ t ∈ tokens, t.Written) (stage : Stage) (order : FunctionOrder)
    (h : ((parseShader tokens).shader.analyze stage order).problems = []) :
    AllNodes Node.Resolved ((parseShader tokens).shader.analyze stage order).value.nodes :=
  (analyze_sound_of_no_problems ht h).mono fun _ hn => hn.resolved

theorem analyze_resolved_member :
    let shader := ofText "struct S { int a; }; int f(S s) { return s.a; }"
    (shader.analyze .vertex).problems = [] ∧
      AllNodes Node.Resolved (shader.analyze .vertex).value.nodes := by
  intro shader
  have h : (shader.analyze .vertex).problems = [] := by decide +kernel
  exact ⟨h, analyze_resolved (Code.written_scan _) .vertex .newestFirst h⟩

/-- A shader without problems obeys the rules of typing. -/
theorem analyze_wellTyped (ht : ∀ t ∈ tokens, t.Written) (stage : Stage) (order : FunctionOrder)
    (h : ((parseShader tokens).shader.analyze stage order).problems = []) :
    AllNodes Node.WellTyped ((parseShader tokens).shader.analyze stage order).value.nodes :=
  (analyze_sound_of_no_problems ht h).mono fun _ hn => hn.wellTyped

theorem analyze_wellTyped_components :
    let shader := ofText "int f(ivec2 v) { if (v[1] == 1) return -v.x; return 2 * v[0]; }"
    (shader.analyze .fragment).problems = [] ∧
      AllNodes Node.WellTyped (shader.analyze .fragment).value.nodes := by
  intro shader
  have h : (shader.analyze .fragment).problems = [] := by decide +kernel
  exact ⟨h, analyze_wellTyped (Code.written_scan _) .fragment .newestFirst h⟩

/-- Constants are values of the types that are found, and constant variables have one. -/
theorem analyze_shaped (ht : ∀ t ∈ tokens, t.Written) (stage : Stage) (order : FunctionOrder)
    (h : ((parseShader tokens).shader.analyze stage order).problems = []) :
    AllNodes Node.Shaped ((parseShader tokens).shader.analyze stage order).value.nodes :=
  (analyze_sound_of_no_problems ht h).mono fun _ hn => hn.shaped

theorem analyze_shaped_vector :
    let shader := ofText "const ivec2 v = ivec2(1, 2); int f() { return v.y; }"
    (shader.analyze .vertex).problems = [] ∧
      AllNodes Node.Shaped (shader.analyze .vertex).value.nodes := by
  intro shader
  have h : (shader.analyze .vertex).problems = [] := by decide +kernel
  exact ⟨h, analyze_shaped (Code.written_scan _) .vertex .newestFirst h⟩

/-- A constant parameter has no value of its own: only a call gives it one. -/
theorem analyze_constant_parameter :
    let shader := ofText "void f(const int x) {}"
    (shader.analyze .vertex).problems = [] ∧
      ¬ AllNodes (fun n => ∀ v ∈ n.declared?, v.ConstantKnown)
        (shader.analyze .vertex).value.nodes := by
  intro shader
  have hx : ∃ v ∈ (shader.analyze .vertex).value.nodes.filterMap Node.declared?,
      v.qualifiers.contains .const ∧ v.constant = none := by decide +kernel
  refine ⟨by decide +kernel, fun h => ?_⟩
  obtain ⟨v, hv, hconst, hnone⟩ := hx
  obtain ⟨n, hn, hnv⟩ := List.mem_filterMap.1 hv
  obtain ⟨type, w, -, hw, -⟩ := h n hn v hnv hconst
  simp [hnone] at hw

/-! ## In any case -/

/-- A function is called with one argument for each parameter, of a type that is written the same
way. -/
theorem analyze_calls_match (ht : ∀ t ∈ tokens, t.Written) (stage : Stage) (order : FunctionOrder) :
    AllNodes Node.CallsMatching ((parseShader tokens).shader.analyze stage order).value.nodes := by
  have hsound : AllNodes (Node.Sound False) _ :=
    analyze_sound (parseShader_regular ht) stage order False.elim
  exact hsound.mono fun _ hn => hn.callsMatching

theorem analyze_calls_match_int :
    let shader := (ofText "void f(int x) {} void g() { f(1); }").analyze .vertex
    (shader.value.nodes.filterMap Node.call?).length = 1 ∧
      AllNodes Node.CallsMatching shader.value.nodes := by
  intro shader
  exact ⟨by decide +kernel, analyze_calls_match (Code.written_scan _) .vertex .newestFirst⟩

/-- The signature of a function has only the names of structs. So an argument of an inner struct
is taken for one of the outer struct. -/
theorem analyze_calls_shadowed_struct :
    let shader := ofText
      "struct S { int a; }; void f(S s); void g() { struct S { float b; }; S t; f(t); }"
    (shader.analyze .vertex).problems = [] ∧
      ¬ AllNodes Node.CallsExactly (shader.analyze .vertex).value.nodes := by
  intro shader
  have hcall : ∃ call ∈ (shader.analyze .vertex).value.nodes.filterMap Node.call?,
      call.2.map (·.info.type) ≠ call.1.parameters.map (some ·.type) := by decide +kernel
  refine ⟨by decide +kernel, fun h => ?_⟩
  obtain ⟨call, hmem, hne⟩ := hcall
  obtain ⟨n, hn, hncall⟩ := List.mem_filterMap.1 hmem
  exact hne (h n hn call hncall)

end Shader

end Essl
